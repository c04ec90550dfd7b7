import Licensing.Proofs.Catalog.Loaded
import Licensing.Proofs.Grammar.Filtering
import Licensing.Proofs.Grammar.LeafText
import Licensing.Proofs.NormalForm.Policy
import Licensing.Proofs.Token.Splitting

/-!
Different licenses that are written alike. A `+` is not written after an identifier that says
`-or-later`, so such an identifier must mean the same with a `+` and without. Nothing keeps a
catalog from having a deprecated license under it, for which a `+` makes a difference, or from
having it with a `+` only (`Catalog.Unambiguous`); but nothing else is in the way.
-/

namespace Licensing

open Grammar (Derives)
open Token (IsIdentifier Spells)

def SingleIdentifier (text : String) : Prop :=
  ∃ value orLater position, tokenize text = .ok [⟨.identifier value orLater, position⟩]

namespace Catalog

/-- An identifier that says `-or-later` is not deprecated, and it is not listed with a `+` only. -/
structure Unambiguous (c : Catalog) : Prop where
  current : ∀ {id : String} {e : LicenseEntry}, IsIdentifier id.toList →
    Text.hasSuffix id orLaterSuffix = true → c.license? id = some e → e.deprecated = false
  plain : ∀ {id : String}, IsIdentifier id.toList → Text.hasSuffix id orLaterSuffix = true →
    (c.license? (id ++ plusSuffix)).isSome → c.exception? id = none → (c.license? id).isSome

/-- Texts that are one identifier each and are parsed to different licenses are parsed to licenses
that are written differently, so that allowing the one does not allow the other. -/
def TellsApart (c : Catalog) : Prop :=
  ∀ (strictness others : Strictness) (text other : String) (e f : Expr),
    SingleIdentifier text → SingleIdentifier other →
    (parse ⟨c, strictness⟩ text).value = .ok e → (parse ⟨c, others⟩ other).value = .ok f →
    e.same f = false →
    e.render ≠ f.render ∧ ∀ threshold, ∃ nf, (e.normalize threshold).run.value = .ok nf ∧
      nf.isSatisfiedBy [f.render] = false

end Catalog

/-! ### Texts of one identifier -/

/-- Only the rule for a license derives something from an identifier alone. -/
theorem Grammar.exists_license_of_derives {k : Lookup} {value : String} {orLater : Bool}
    {position : Nat} {level : Grammar.Level} {tokens : List Token} {e : Expr}
    (h : Derives k level tokens e) (hTokens : tokens = [⟨.identifier value orLater, position⟩]) :
    ∃ l, e = .license l ∧ k.NamesLicense value orLater l := by
  have hKind {t : Token} (ht : t ∈ tokens) : t.kind = .identifier value orLater := by
    rw [hTokens] at ht
    rw [List.mem_singleton.1 ht]
  induction h with
  | license names =>
      obtain ⟨rfl, rfl⟩ := Token.Kind.identifier.inj (hKind List.mem_cons_self)
      exact ⟨_, rfl, names⟩
  | group inner ih => cases hKind List.mem_cons_self
  | primary inner ih => exact ih hTokens hKind
  | attach left free names ih => cases hKind (List.mem_append_right _ List.mem_cons_self)
  | granted inner ih => exact ih hTokens hKind
  | and left right ihLeft ihRight => cases hKind (List.mem_append_right _ List.mem_cons_self)
  | conjunction inner ih => exact ih hTokens hKind
  | or left right ihLeft ihRight => cases hKind (List.mem_append_right _ List.mem_cons_self)

theorem exists_named_of_parse {k : Lookup} {text : String} {e : Expr}
    (hText : SingleIdentifier text) (h : (parse k text).value = .ok e) :
    ∃ value orLater l, IsIdentifier value.toList ∧ e = .license l ∧
      k.NamesLicense value orLater l := by
  obtain ⟨value, orLater, position, hTokens⟩ := hText
  obtain ⟨tokens, hSplits, hDerives⟩ := parse_eq_ok_iff.1 h
  obtain rfl := Except.ok.inj (hTokens.symm.trans (tokenize_eq_ok_iff.2 hSplits))
  obtain ⟨l, hLicense, hNames⟩ := Grammar.exists_license_of_derives hDerives rfl
  obtain ⟨word, hSpelled⟩ := Token.exists_spells_of_splits hSplits _ List.mem_cons_self
  refine ⟨value, orLater, l, ?_, hLicense, hNames⟩
  cases hSpelled with
  | plain identifier free => rwa [String.toList_ofList]
  | marked identifier => rwa [String.toList_ofList]

theorem parse_of_spells {k : Lookup} {text value : String} {orLater : Bool} {l : License}
    (hSpelled : Spells (.identifier value orLater) text.toList)
    (hNames : k.NamesLicense value orLater l) :
    SingleIdentifier text ∧ (parse k text).value = .ok (.license l) := by
  have hSplits := Token.splits_of_spells 0 hSpelled
  exact ⟨⟨value, orLater, 0, tokenize_eq_ok_iff.2 hSplits⟩,
    parse_eq_ok_iff.2 ⟨_, hSplits, .conjunction (.granted (.primary (.license hNames)))⟩⟩

/-- An identifier that says `-or-later` is no operator. -/
theorem Token.spells_of_orLater {value : String} (hIdentifier : IsIdentifier value.toList)
    (hEnding : Text.hasSuffix value orLaterSuffix = true) :
    Spells (.identifier value false) value.toList := by
  have hFree (op : Operator) : value.toList ∉ spellings op := by
    obtain ⟨stem, rfl⟩ := Text.hasSuffix_iff.1 hEnding
    intro hSpelling
    have hHyphen : '-' ∈ (stem ++ orLaterSuffix).toList := by simp [orLaterSuffix]
    have hNone : ∀ word ∈ spellings op, '-' ∉ word := by cases op <;> decide
    exact hNone _ hSpelling hHyphen
  have hSpelled := Spells.plain hIdentifier hFree
  rwa [String.ofList_toList] at hSpelled

theorem Token.spells_append_plus {value : String} (hIdentifier : IsIdentifier value.toList) :
    Spells (.identifier value true) (value ++ plusSuffix).toList := by
  have hSpelled := Spells.marked hIdentifier
  rw [String.ofList_toList] at hSpelled
  rwa [String.toList_append]

/-! ### Names with one text -/

namespace Lookup

variable {k : Lookup} {value other : String} {l m : License}

theorem NamesLicense.unique {orLater : Bool} (hl : k.NamesLicense value orLater l)
    (hm : k.NamesLicense value orLater m) : l = m := by
  have hResolved {r : License} (hr : k.NamesLicense value orLater r) :
      ∃ event, k.resolveLicense value orLater 0 = .ok (r, event) := exists_resolveLicense_iff.2 hr
  obtain ⟨event, hFirst⟩ := hResolved hl
  obtain ⟨other, hSecond⟩ := hResolved hm
  exact congrArg Prod.fst (Except.ok.inj (hFirst.symm.trans hSecond))

/-- What is written of a license is its name, with a `+` or without. -/
theorem text_eq_or_eq_append (hKeyed : k.catalog.Keyed) {orLater : Bool}
    (hValue : IsIdentifier value.toList) (h : k.NamesLicense value orLater l) :
    l.text = value ∨ l.text = value ++ plusSuffix := by
  cases orLater with
  | false => exact .inl (text_of_namesLicense hKeyed hValue h)
  | true =>
      rw [eq_listed_of_namesLicense hKeyed h]
      cases hEnding : Text.hasSuffix value orLaterSuffix with
      | false => exact .inr (License.text_marked hEnding)
      | true => exact .inl (by simp [License.text, hEnding])

/-- What is written of a license shows its name, though not always whether it had a `+`. -/
theorem name_eq_of_text_eq (hKeyed : k.catalog.Keyed) {plus others : Bool}
    (hValue : IsIdentifier value.toList) (hOther : IsIdentifier other.toList)
    (hl : k.NamesLicense value plus l) (hm : k.NamesLicense other others m)
    (hText : l.text = m.text) : value = other := by
  rcases text_eq_or_eq_append hKeyed hValue hl with hFirst | hFirst <;>
    rcases text_eq_or_eq_append hKeyed hOther hm with hSecond | hSecond <;>
    rw [hFirst, hSecond] at hText
  · exact hText
  · exact absurd hText (Token.ne_append_plus hValue other)
  · exact absurd hText.symm (Token.ne_append_plus hOther value)
  · exact (String.append_left_inj plusSuffix).1 hText

/-- In an unambiguous catalog a name means the same with a `+` and without, if it is written the
same. -/
theorem bare_eq_of_marked (hKeyed : k.catalog.Keyed) (hClear : k.catalog.Unambiguous)
    (hValue : IsIdentifier value.toList) (hl : k.NamesLicense value false l)
    (hm : k.NamesLicense value true m) (hText : l.text = m.text) : l.bare = m.bare := by
  have hMarked := eq_listed_of_namesLicense hKeyed hm
  rw [text_of_namesLicense hKeyed hValue hl, hMarked] at hText
  cases hEnding : Text.hasSuffix value orLaterSuffix with
  | false =>
      rw [License.text_marked hEnding] at hText
      exact absurd hText (Token.ne_append_plus hValue value)
  | true =>
      have hListed (hFree : k.catalog.exception? value = none) :
          (k.catalog.license? value).isSome := by
        cases hm with
        | marked found deprecated accepted =>
            exact hClear.plain hValue hEnding (Option.isSome_of_eq_some found) hFree
        | plain unmarked found deprecated accepted => exact Option.isSome_of_eq_some found
      cases hl with
      | @listed entry free found accepted =>
          have hCurrent := hClear.current hValue hEnding found
          simp [hMarked, LicenseEntry.leaf, hCurrent, hKeyed.license found, hEnding, License.bare]
      | unlisted free missing accepted =>
          have hSome := hListed free
          rw [missing] at hSome
          cases hSome

/-- In an unambiguous catalog names that are written alike mean the same license. -/
theorem bare_eq_of_text_eq (hKeyed : k.catalog.Keyed) (hClear : k.catalog.Unambiguous)
    {plus others : Bool} (hValue : IsIdentifier value.toList) (hOther : IsIdentifier other.toList)
    (hl : k.NamesLicense value plus l) (hm : k.NamesLicense other others m)
    (hText : l.text = m.text) : l.bare = m.bare := by
  obtain rfl := name_eq_of_text_eq hKeyed hValue hOther hl hm hText
  cases plus with
  | false =>
      cases others with
      | false => rw [hl.unique hm]
      | true => exact bare_eq_of_marked hKeyed hClear hValue hl hm hText
  | true =>
      cases others with
      | false => exact (bare_eq_of_marked hKeyed hClear hValue hm hl hText.symm).symm
      | true => rw [hl.unique hm]

end Lookup

/-! ### Allowing one license -/

theorem Expr.render_license (l : License) : (license l).render = l.text := by
  rw [render_eq_text]
  rfl

theorem Expr.isSatisfiedBy_license (l : License) {allowed : String}
    (h : (license l).render ≠ allowed) (threshold : Int) :
    ∃ nf, ((license l).normalize threshold).run.value = .ok nf ∧
      nf.isSatisfiedBy [allowed] = false := by
  have hNormal : (license l).normalForm = .ok ⟨[[⟨l, none⟩]]⟩ := normalForm_eq_of_clauses rfl
  refine ⟨_, by rw [value_normalize, hNormal], ?_⟩
  have hText : (⟨l, none⟩ : Term).text = (license l).render := rfl
  simp [NormalForm.isSatisfiedBy, hText, h]

namespace Catalog

variable {c : Catalog}

/-- An unambiguous catalog tells licenses apart. This needs no loading, only that entries carry
their identifiers. -/
theorem tellsApart_of_unambiguous (hKeyed : c.Keyed) (hClear : c.Unambiguous) : c.TellsApart := by
  intro strictness others text other e f hText hOther hParse hParseOther hDifferent
  -- Under the strictness that accepts most each name has one license.
  obtain ⟨value, plus, l, hValue, rfl, hl⟩ := exists_named_of_parse hText (parse_lenient hParse)
  obtain ⟨name, marked, m, hName, rfl, hm⟩ :=
    exists_named_of_parse hOther (parse_lenient hParseOther)
  have hApart : (Expr.license l).render ≠ (Expr.license m).render := by
    intro hSame
    rw [Expr.render_license, Expr.render_license] at hSame
    have hBare : l.bare = m.bare :=
      Lookup.bare_eq_of_text_eq (k := ⟨c, .allowAny⟩) hKeyed hClear hValue hName hl hm hSame
    simp [Expr.same, Expr.bare, Leaf.bare, hBare] at hDifferent
  exact ⟨hApart, Expr.isSatisfiedBy_license l hApart⟩

/-- A catalog that tells licenses apart gives a name that says `-or-later` one meaning. -/
theorem TellsApart.bare_eq (h : c.TellsApart) (hKeyed : c.Keyed) {value : String} {l : License}
    (hValue : IsIdentifier value.toList) (hEnding : Text.hasSuffix value orLaterSuffix = true)
    (hl : Lookup.NamesLicense ⟨c, .allowAny⟩ value false l)
    (hm : Lookup.NamesLicense ⟨c, .allowAny⟩ value true (.listed value true true)) :
    l.bare = .listed value true false := by
  obtain ⟨hPlain, hParse⟩ := parse_of_spells (Token.spells_of_orLater hValue hEnding) hl
  obtain ⟨hMarked, hParseMarked⟩ := parse_of_spells (Token.spells_append_plus hValue) hm
  refine Classical.byContradiction fun hBare => ?_
  have hDifferent : (Expr.license l).same (.license (.listed value true true)) = false := by
    simpa [Expr.same, Expr.bare, Leaf.bare, License.bare] using hBare
  obtain ⟨hApart, -⟩ := h _ _ _ _ _ _ hPlain hMarked hParse hParseMarked hDifferent
  have hText : l.text = value := Lookup.text_of_namesLicense (k := ⟨c, .allowAny⟩) hKeyed hValue hl
  rw [Expr.render_license, Expr.render_license, hText] at hApart
  simp [License.text, hEnding] at hApart

/-- With a `+` a name means a license if it is deprecated with the `+` or without. -/
theorem namesLicense_marked (hConsistent : c.Consistent) {value : String} {entry : LicenseEntry}
    (hFound : c.license? (value ++ plusSuffix) = some entry ∨ c.license? value = some entry)
    (hDeprecated : entry.deprecated = true) :
    Lookup.NamesLicense ⟨c, .allowAny⟩ value true (.listed value true true) := by
  have hAccepted : Strictness.allowAny ≠ .allowCurrent := by decide
  have hNamed : ∃ l, Lookup.NamesLicense ⟨c, .allowAny⟩ value true l := by
    cases hMarked : c.license? (value ++ plusSuffix) with
    | some other => exact ⟨_, .marked hMarked (hConsistent.plus hMarked) hAccepted⟩
    | none =>
        have hPlain := hFound.resolve_left (by simp [hMarked])
        exact ⟨_, .plain (by simp [hMarked]) hPlain hDeprecated hAccepted⟩
  obtain ⟨l, hl⟩ := hNamed
  rwa [Lookup.eq_listed_of_namesLicense (k := ⟨c, .allowAny⟩) hConsistent.keyed hl] at hl

/-- In a catalog that is not unambiguous some name means different licenses with a `+` and without,
and both are written alike. -/
theorem unambiguous_of_tellsApart (hConsistent : c.Consistent) (h : c.TellsApart) :
    c.Unambiguous where
  current {id e} hValue hEnding hFound := by
    have hFree := hConsistent.apart (Option.isSome_of_eq_some hFound)
    cases hDeprecated : e.deprecated with
    | false => rfl
    | true =>
        have hPlain : Lookup.NamesLicense ⟨c, .allowAny⟩ id false e.leaf :=
          .listed hFree hFound fun _ => nofun
        have hMarked := namesLicense_marked hConsistent (.inr hFound) hDeprecated
        have hBare := h.bare_eq hConsistent.keyed hValue hEnding hPlain hMarked
        have hDrop : Text.dropSuffix? id plusSuffix = none :=
          Text.dropSuffix?_eq_none_iff.2 (Token.ne_append_plus hValue)
        simp [LicenseEntry.leaf, hDeprecated, hConsistent.keyed.license hFound, hDrop,
          License.bare] at hBare
  plain {id} hValue hEnding hSome hFree := by
    obtain ⟨entry, hEntry⟩ := Option.isSome_iff_exists.1 hSome
    cases hFound : c.license? id with
    | some other => rfl
    | none =>
        have hPlain : Lookup.NamesLicense ⟨c, .allowAny⟩ id false (.reference id) :=
          .unlisted hFree hFound rfl
        have hMarked := namesLicense_marked hConsistent (.inl hEntry) (hConsistent.plus hEntry)
        cases h.bare_eq hConsistent.keyed hValue hEnding hPlain hMarked

/-- A catalog that is loaded tells licenses apart by their texts exactly when it is unambiguous. -/
theorem tellsApart_iff_unambiguous {base user : Option Source}
    (h : (load base user).value = .ok c) : c.TellsApart ↔ c.Unambiguous := by
  have hConsistent := consistent_of_load h
  constructor
  · exact unambiguous_of_tellsApart hConsistent
  · exact tellsApart_of_unambiguous hConsistent.keyed

/-- A license that is retired for its `-or-later` form does not make the catalog ambiguous. -/
theorem tellsApart_iff_unambiguous_retiring :
    ∃ c, (load (some ⟨"base", .document shipped⟩) (some ⟨"user", .document retiring⟩)).value =
      .ok c ∧ c.TellsApart := by
  let gpl : LicenseEntry := ⟨"GPL-2.0", "GNU General Public License v2.0", true, true⟩
  let later : LicenseEntry :=
    ⟨"GPL-2.0-or-later", "GNU General Public License v2.0 or later", false, true⟩
  have hLoad : (load (some ⟨"base", .document shipped⟩)
      (some ⟨"user", .document retiring⟩)).value = .ok (.ofEntries [gpl, later] []) := by rfl
  have hListed {id : String} {e : LicenseEntry}
      (hFound : (ofEntries [gpl, later] []).license? id = some e) :
      id = "GPL-2.0" ∧ e = gpl ∨ id = "GPL-2.0-or-later" ∧ e = later := by
    have hMem : (id, e) ∈ [("GPL-2.0", gpl), ("GPL-2.0-or-later", later)] :=
      Listing.mem_of_get? hFound
    simpa using hMem
  refine ⟨_, hLoad, (tellsApart_iff_unambiguous hLoad).2 ⟨?_, ?_⟩⟩
  · intro id e hValue hEnding hFound
    obtain ⟨rfl, rfl⟩ | ⟨rfl, rfl⟩ := hListed hFound
    · exact absurd hEnding (by decide)
    · rfl
  · intro id hValue hEnding hMarked hFree
    obtain ⟨e, hFound⟩ := Option.isSome_iff_exists.1 hMarked
    obtain ⟨hId, -⟩ | ⟨hId, -⟩ := hListed hFound
    · have hPlus : Text.hasSuffix "GPL-2.0" plusSuffix = true :=
        Text.hasSuffix_iff.2 ⟨id, hId.symm⟩
      exact absurd hPlus (by decide)
    · have hPlus : Text.hasSuffix "GPL-2.0-or-later" plusSuffix = true :=
        Text.hasSuffix_iff.2 ⟨id, hId.symm⟩
      exact absurd hPlus (by decide)

/-- A document with a license that is deprecated under an identifier that says `-or-later`. -/
def retiredOrLater : Toml.Table :=
  [("licenses", .table [("Old-1.0-or-later", .table [("name", .text "Old"),
    ("deprecated", .boolean true)])])]

/-- Without a `+` the license is the version that the identifier names, with it that version or a
later one; both are written without it, and allowing the one allows the other. -/
theorem not_tellsApart_retiredOrLater :
    ∃ c e f, (load (some ⟨"base", .document retiredOrLater⟩) none).value = .ok c ∧
      SingleIdentifier "Old-1.0-or-later" ∧ SingleIdentifier "Old-1.0-or-later+" ∧
      (parse ⟨c, .allowAny⟩ "Old-1.0-or-later").value = .ok e ∧
      (parse ⟨c, .allowAny⟩ "Old-1.0-or-later+").value = .ok f ∧
      e.same f = false ∧ e.render = f.render ∧
      ∃ nf, (f.normalize 64).run.value = .ok nf ∧ nf.isSatisfiedBy ["Old-1.0-or-later"] = true := by
  let c : Catalog := ofEntries [⟨"Old-1.0-or-later", "Old", true, true⟩] []
  let l : License := .listed "Old-1.0-or-later" false true
  let m : License := .listed "Old-1.0-or-later" true true
  have hLoad : (load (some ⟨"base", .document retiredOrLater⟩) none).value = .ok c := by rfl
  have hPlain : tokenize "Old-1.0-or-later" = .ok [⟨.identifier "Old-1.0-or-later" false, 0⟩] := by
    decide +kernel
  have hMarked : tokenize "Old-1.0-or-later+" = .ok [⟨.identifier "Old-1.0-or-later" true, 0⟩] := by
    decide +kernel
  have hParse : (parse ⟨c, .allowAny⟩ "Old-1.0-or-later").value = .ok (.license l) := by
    decide +kernel
  have hParseMarked : (parse ⟨c, .allowAny⟩ "Old-1.0-or-later+").value = .ok (.license m) := by
    decide +kernel
  have hNormal : ((Expr.license m).normalize 64).run.value = .ok ⟨[[⟨m, none⟩]]⟩ := by
    decide +kernel
  exact ⟨c, _, _, hLoad, ⟨_, _, _, hPlain⟩, ⟨_, _, _, hMarked⟩, hParse, hParseMarked, by decide,
    by decide +kernel, _, hNormal, by decide +kernel⟩

end Catalog

end Licensing
