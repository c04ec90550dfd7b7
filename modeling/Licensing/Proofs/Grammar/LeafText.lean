import Licensing.Proofs.Catalog.Legible
import Licensing.Proofs.Grammar.Acceptance

/-!
The texts of leaves. With a legible catalog a license is written as an identifier that names it
again: the `+` of a deprecated license is put back where it was taken off, and nowhere else.
-/

namespace Licensing

open Token (Spells IsIdentifier)

theorem Token.plus_notMem_of_isIdentifier {cs : List Char} (h : IsIdentifier cs) : '+' ∉ cs := by
  have hRun {run : List Char} (hRun : Token.IsRun run) : '+' ∉ run := by
    intro hPlus
    exact absurd (hRun.2 '+' hPlus) (by decide)
  cases h with
  | run whole => exact hRun whole
  | @ofDocument document cs mark whole =>
      have hMark := hRun (Token.isRun_documentMark_append mark)
      have hRest := hRun whole
      simp only [List.mem_append, List.mem_cons] at hMark ⊢
      intro hPlus
      rcases hPlus with hDocument | hColon | hTail
      · exact hMark hDocument
      · exact absurd hColon (by decide)
      · exact hRest hTail

/-- A deprecated entry that is listed with a `+` becomes its stem with the `+` taken for "or later".
-/
theorem LicenseEntry.leaf_of_deprecated {e : LicenseEntry} {value : String}
    (hDeprecated : e.deprecated = true) (hId : e.id = value ++ plusSuffix) :
    e.leaf = .listed value true true := by
  simp [leaf, hDeprecated, Text.dropSuffix?_eq_some_iff.2 hId]

/-- A license whose identifier has no `+` at its end is written as that identifier. -/
theorem LicenseEntry.text_leaf {e : LicenseEntry} (h : ∀ value, e.id ≠ value ++ plusSuffix) :
    e.leaf.text = e.id := by
  unfold leaf
  split
  · split
    · rename_i value hDrop
      exact absurd (Text.dropSuffix?_eq_some_iff.1 hDrop) (h value)
    · simp [License.text]
  · simp [License.text]

/-- The `+` is written where the identifier does not say "or later" itself. -/
theorem License.text_marked {id : String} (h : Text.hasSuffix id orLaterSuffix = false) :
    (License.listed id true true).text = id ++ plusSuffix := by
  simp [License.text, h]

/-- An identifier has no `+` at its end. -/
theorem Token.ne_append_plus {value : String} (h : IsIdentifier value.toList) (other : String) :
    value ≠ other ++ plusSuffix := by
  intro hPlus
  have hMem : '+' ∈ value.toList := by
    rw [hPlus]
    simp [plusSuffix]
  exact plus_notMem_of_isIdentifier h hMem

namespace Lookup

variable {k : Lookup}

/-- A license that is named without a `+` is written as its name. -/
theorem text_of_namesLicense (hKeyed : k.catalog.Keyed) {value : String}
    (hIdentifier : IsIdentifier value.toList) {l : License} (h : k.NamesLicense value false l) :
    l.text = value := by
  cases h with
  | @listed entry unclaimed found accepted =>
      have hId := hKeyed.license found
      rw [← hId]
      apply LicenseEntry.text_leaf
      rw [hId]
      exact Token.ne_append_plus hIdentifier
  | unlisted unclaimed missing accepted => rfl

/-- A license that is named with a `+` has the name as its identifier and covers later versions. -/
theorem eq_listed_of_namesLicense (hKeyed : k.catalog.Keyed) {value : String} {l : License}
    (h : k.NamesLicense value true l) : l = .listed value true true := by
  cases h with
  | marked found deprecated accepted =>
      exact LicenseEntry.leaf_of_deprecated deprecated (hKeyed.license found)
  | plain unmarked found deprecated accepted => rw [hKeyed.license found]

/-- A license that is named with a `+` is written as its name with the `+`. -/
theorem text_of_namesLicense_marked (hLegible : k.catalog.Legible) {value : String} {l : License}
    (h : k.NamesLicense value true l) : l.text = value ++ plusSuffix := by
  rw [eq_listed_of_namesLicense hLegible.keyed h]
  apply License.text_marked
  cases h with
  | @marked entry found deprecated accepted =>
      have hEnding := (hLegible.marked found deprecated).2
      rw [← Bool.not_eq_true, Text.hasSuffix_iff] at hEnding ⊢
      intro hOrLater
      apply hEnding
      obtain ⟨rest, hRest⟩ := hOrLater
      exact ⟨rest, by rw [hLegible.keyed.license found, hRest, String.append_assoc]⟩
  | plain unmarked found deprecated accepted =>
      rw [← hLegible.keyed.license found]
      exact (hLegible.marked found deprecated).1

/-- The text of a license that some identifier names is an identifier that names it. -/
theorem exists_spells_license (hLegible : k.catalog.Legible) {l : License}
    (h : k.Names (.license l)) :
    ∃ value orLater, Spells (.identifier value orLater) l.text.toList ∧
      k.NamesLicense value orLater l := by
  cases h with
  | @license value orLater l word hSpelled hNames =>
      refine ⟨value, orLater, ?_, hNames⟩
      cases hSpelled with
      | plain identifier free =>
          rw [text_of_namesLicense hLegible.keyed (by rwa [String.toList_ofList]) hNames,
            String.toList_ofList]
          exact .plain identifier free
      | marked identifier =>
          rw [text_of_namesLicense_marked hLegible hNames, String.toList_append,
            String.toList_ofList]
          exact .marked identifier

theorem id_of_namesException (hKeyed : k.catalog.Keyed) {value : String} {x : LicenseException}
    (h : k.NamesException value x) : x.id = value := by
  cases h with
  | listed unclaimed found accepted => exact hKeyed.exception found
  | unlisted unclaimed missing accepted => rfl

/-- The text of an exception that some identifier names is that identifier. -/
theorem exists_spells_exception (hLegible : k.catalog.Legible) {x : LicenseException}
    (h : k.Names (.exception x)) :
    ∃ value, Spells (.identifier value false) x.id.toList ∧ k.NamesException value x := by
  cases h with
  | @exception value x word hSpelled hNames =>
      refine ⟨value, ?_, hNames⟩
      cases hSpelled with
      | plain identifier free =>
          rw [id_of_namesException hLegible.keyed hNames, String.toList_ofList]
          exact .plain identifier free

end Lookup

end Licensing
