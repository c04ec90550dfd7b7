import Licensing.Parse
import Licensing.Proofs.Catalog.Loaded

/-!
What a parse asks of the catalog. Each token is read on its own, and only an identifier is looked
up: as it is written, and after a `+` also together with it. So catalogs that concur on the
identifiers of a text cannot be told apart by it, not even by an error or an event, and a user's
file that lists none of them changes nothing.
-/

namespace Licensing

open ParseError (Objection)
open Token (Kind)
open Toml (Table)

def Token.Kind.identifier? : Kind → Option (String × Bool)
  | .identifier value orLater => some (value, orLater)
  | _ => none

def identifiers (text : String) : List (String × Bool) :=
  match tokenize text with
  | .ok tokens => tokens.filterMap fun t => t.kind.identifier?
  | .error _ => []

/-- The document has an entry that an identifier is looked up by. -/
def Catalog.Touches (document : Table) (value : String) (orLater : Bool) : Prop :=
  (listed? document .licenses value).isSome ∨ (listed? document .exceptions value).isSome ∨
    orLater = true ∧ (listed? document .licenses (value ++ plusSuffix)).isSome

/-- The catalogs say the same about an identifier, apart from what they say about its family. -/
structure Catalog.Concur (c d : Catalog) (value : String) (orLater : Bool) : Prop where
  license : (c.license? value).map LicenseEntry.alone = (d.license? value).map LicenseEntry.alone
  marked : orLater = true → (c.license? (value ++ plusSuffix)).map LicenseEntry.alone =
    (d.license? (value ++ plusSuffix)).map LicenseEntry.alone
  exception : c.exception? value = d.exception? value

/-- Entries that are the same apart from their family become the same leaf. -/
theorem LicenseEntry.eq_of_alone_eq {e f : LicenseEntry} (h : e.alone = f.alone) :
    e.id = f.id ∧ e.deprecated = f.deprecated ∧ e.leaf = f.leaf := by
  have hId : e.alone.id = f.alone.id := by rw [h]
  have hDeprecated : e.alone.deprecated = f.alone.deprecated := by rw [h]
  have hLeaf : e.alone.leaf = f.alone.leaf := by rw [h]
  exact ⟨hId, hDeprecated, hLeaf⟩

theorem LicenseEntry.alone_cases {found other : Option LicenseEntry}
    (h : found.map alone = other.map alone) :
    (found = none ∧ other = none) ∨
      ∃ e f, found = some e ∧ other = some f ∧ e.alone = f.alone := by
  cases found with
  | none => exact .inl ⟨rfl, Option.map_eq_none_iff.1 h.symm⟩
  | some e =>
      obtain ⟨f, hOther, hAlone⟩ := Option.map_eq_some_iff.1 h.symm
      exact .inr ⟨e, f, rfl, hOther, hAlone.symm⟩

theorem LicenseEntry.filter_alone {found other : Option LicenseEntry}
    (h : found.map alone = other.map alone) :
    (found.filter (·.deprecated)).map alone = (other.filter (·.deprecated)).map alone := by
  obtain ⟨rfl, rfl⟩ | ⟨e, f, rfl, rfl, hAlone⟩ := alone_cases h
  · rfl
  · obtain ⟨-, hDeprecated, -⟩ := eq_of_alone_eq hAlone
    cases hFlag : f.deprecated with
    | false => simp [Option.filter_some, hDeprecated, hFlag]
    | true => simp [Option.filter_some, hDeprecated, hFlag, hAlone]

namespace Lookup

variable {c d : Catalog} {value : String} {orLater : Bool}

/-- What is made of a name with a `+` depends on what the catalog says about the name with it and
without. -/
theorem resolvePlus_congr (strictness : Strictness) (h : c.Concur d value true) (position : Nat) :
    resolvePlus ⟨c, strictness⟩ value position = resolvePlus ⟨d, strictness⟩ value position := by
  simp only [resolvePlus]
  obtain ⟨hMarked, hOther⟩ | ⟨e, f, hMarked, hOther, hAlone⟩ :=
    LicenseEntry.alone_cases (LicenseEntry.filter_alone (h.marked rfl))
  · rw [hMarked, hOther]
    obtain ⟨hPlain, hOther⟩ | ⟨e, f, hPlain, hOther, hAlone⟩ :=
      LicenseEntry.alone_cases (LicenseEntry.filter_alone h.license)
    · rw [hPlain, hOther]
    · obtain ⟨hId, -, -⟩ := LicenseEntry.eq_of_alone_eq hAlone
      rw [hPlain, hOther]
      simp only [hId]
      rfl
  · obtain ⟨-, -, hLeaf⟩ := LicenseEntry.eq_of_alone_eq hAlone
    rw [hMarked, hOther]
    simp only [hLeaf]
    rfl

/-- The strictness is the same for both catalogs, so what it refuses is too. -/
theorem resolveLicense_congr (strictness : Strictness) (h : c.Concur d value orLater)
    (position : Nat) :
    resolveLicense ⟨c, strictness⟩ value orLater position =
      resolveLicense ⟨d, strictness⟩ value orLater position := by
  cases orLater with
  | true => exact resolvePlus_congr strictness h position
  | false =>
      simp only [resolveLicense, h.exception]
      obtain ⟨hFound, hOther⟩ | ⟨e, f, hFound, hOther, hAlone⟩ := LicenseEntry.alone_cases h.license
      · rw [hFound, hOther]
        rfl
      · obtain ⟨-, hDeprecated, hLeaf⟩ := LicenseEntry.eq_of_alone_eq hAlone
        rw [hFound, hOther]
        simp only [hDeprecated, hLeaf]
        rfl

theorem resolveException_congr (strictness : Strictness) (h : c.Concur d value orLater)
    (position : Nat) :
    resolveException ⟨c, strictness⟩ value orLater position =
      resolveException ⟨d, strictness⟩ value orLater position := by
  have hListed : (c.license? value).isSome = (d.license? value).isSome := by
    rw [← Option.isSome_map, h.license, Option.isSome_map]
  simp only [resolveException, h.exception, hListed]
  rfl

end Lookup

namespace Reader

variable {c d : Catalog}

/-- A step depends on the catalog through the identifier of its token. -/
theorem step_congr (strictness : Strictness) (s : State) {t : Token}
    (h : ∀ value orLater, t.kind.identifier? = some (value, orLater) → c.Concur d value orLater) :
    step ⟨c, strictness⟩ s t = step ⟨d, strictness⟩ s t := by
  obtain ⟨kind, position⟩ := t
  unfold step
  cases kind with
  | identifier value orLater =>
      have hConcur := h value orLater rfl
      cases s.awaiting with
      | operand lead =>
          simp only [stepOperand, Lookup.resolveLicense_congr strictness hConcur]
      | exception granted position =>
          simp only [stepException, Lookup.resolveException_congr strictness hConcur]
      | continuation operand granted => rfl
  | operator op => rfl
  | opening => rfl
  | closing => rfl

/-- A run depends on the catalog through the identifiers of its tokens, in its outcome and in what
it reports. -/
theorem run_congr (strictness : Strictness) (length : Nat) {tokens : List Token}
    (h : ∀ p ∈ tokens.filterMap fun t => t.kind.identifier?, c.Concur d p.1 p.2) (s : State) :
    run ⟨c, strictness⟩ length s tokens = run ⟨d, strictness⟩ length s tokens := by
  induction tokens generalizing s with
  | nil => rfl
  | cons t rest ih =>
      have hToken (value : String) (orLater : Bool)
          (hIdentifier : t.kind.identifier? = some (value, orLater)) : c.Concur d value orLater :=
        h (value, orLater) (List.mem_filterMap.2 ⟨t, List.mem_cons_self, hIdentifier⟩)
      have hRest (next : State) :
          run ⟨c, strictness⟩ length next rest = run ⟨d, strictness⟩ length next rest := by
        refine ih (fun p hp => h p ?_) next
        obtain ⟨u, hu, hIdentifier⟩ := List.mem_filterMap.1 hp
        exact List.mem_filterMap.2 ⟨u, List.mem_cons_of_mem t hu, hIdentifier⟩
      simp only [run, step_congr strictness s hToken, hRest]

end Reader

theorem parse_congr {c d : Catalog} (strictness : Strictness) {text : String}
    (h : ∀ p ∈ identifiers text, c.Concur d p.1 p.2) :
    parse ⟨c, strictness⟩ text = parse ⟨d, strictness⟩ text := by
  unfold parse
  unfold identifiers at h
  cases hTokens : tokenize text with
  | error objection => rfl
  | ok tokens =>
      rw [hTokens] at h
      simp only [Reader.run_congr strictness text.length h]

/-- A user's file that does not touch an identifier leaves the catalogs with and without it
concurring on it. -/
theorem Catalog.concur_of_not_touches {base : Option Source} {source : Source}
    {userDocument : Table} {c d : Catalog} (hBase : (load base none).value = .ok c)
    (hUser : (load base (some source)).value = .ok d)
    (hDocument : source.document = .ok userDocument) {value : String} {orLater : Bool}
    (h : ¬ Touches userDocument value orLater) : c.Concur d value orLater := by
  simp only [Touches, not_or, not_and, Option.not_isSome_iff_eq_none] at h
  obtain ⟨hLicense, hException, hMarked⟩ := h
  have hKept := entries_of_not_listed hBase hUser hDocument
  exact ⟨((hKept value).1 hLicense).symm,
    fun hPlus => ((hKept (value ++ plusSuffix)).1 (hMarked hPlus)).symm,
    ((hKept value).2 hException).symm⟩

/-- Catalogs that give the same answers about the identifiers of a text give it the same tree or the
same error, and the same events; and a user's file changes only how those texts are read that have
an identifier which the file touches. -/
theorem parse_depends_on_identifiers (strictness : Strictness) (text : String) :
    (∀ c d : Catalog,
      (∀ p ∈ identifiers text, c.license? p.1 = d.license? p.1 ∧
        c.license? (p.1 ++ plusSuffix) = d.license? (p.1 ++ plusSuffix) ∧
        c.exception? p.1 = d.exception? p.1) →
      parse ⟨c, strictness⟩ text = parse ⟨d, strictness⟩ text) ∧
    ∀ (base : Option Catalog.Source) (source : Catalog.Source) (userDocument : Table)
        (c d : Catalog), (Catalog.load base none).value = .ok c →
      (Catalog.load base (some source)).value = .ok d → source.document = .ok userDocument →
      parse ⟨c, strictness⟩ text ≠ parse ⟨d, strictness⟩ text →
      ∃ p ∈ identifiers text, Catalog.Touches userDocument p.1 p.2 := by
  constructor
  · intro c d hSame
    refine parse_congr strictness fun p hp => ?_
    obtain ⟨hLicense, hMarked, hException⟩ := hSame p hp
    exact ⟨congrArg _ hLicense, fun _ => congrArg _ hMarked, hException⟩
  · intro base source userDocument c d hBase hUser hDocument hChanged
    refine Classical.byContradiction fun hNone => hChanged (parse_congr strictness fun p hp => ?_)
    exact Catalog.concur_of_not_touches hBase hUser hDocument fun hTouches =>
      hNone ⟨p, hp, hTouches⟩

/-- With a file that retires a license, a text that has the license with a `+` is accepted, which
it is not without the file; the file touches the license. Other texts are read as before. -/
theorem parse_depends_on_identifiers_retiring :
    ∃ c d, (Catalog.load (some ⟨"base", .document Catalog.shipped⟩) none).value = .ok c ∧
      (Catalog.load (some ⟨"base", .document Catalog.shipped⟩)
        (some ⟨"user", .document Catalog.retiring⟩)).value = .ok d ∧
      parse ⟨c, .allowAny⟩ "(MIT)" = parse ⟨d, .allowAny⟩ "(MIT)" ∧
      (parse ⟨c, .allowAny⟩ "MIT or GPL-2.0+").value.isOk = false ∧
      (parse ⟨d, .allowAny⟩ "MIT or GPL-2.0+").value.isOk = true ∧
      ∃ p ∈ identifiers "MIT or GPL-2.0+", Catalog.Touches Catalog.retiring p.1 p.2 := by
  let gpl : LicenseEntry := ⟨"GPL-2.0", "GNU General Public License v2.0", false, false⟩
  let retired : LicenseEntry := { gpl with deprecated := true, orLaterEligible := true }
  let later : LicenseEntry :=
    ⟨"GPL-2.0-or-later", "GNU General Public License v2.0 or later", false, true⟩
  have hBase : (Catalog.load (some ⟨"base", .document Catalog.shipped⟩) none).value =
      .ok (.ofEntries [gpl] []) := by rfl
  have hUser : (Catalog.load (some ⟨"base", .document Catalog.shipped⟩)
      (some ⟨"user", .document Catalog.retiring⟩)).value =
      .ok (.ofEntries [retired, later] []) := by rfl
  have hRefused :
      (parse ⟨.ofEntries [gpl] [], .allowAny⟩ "MIT or GPL-2.0+").value.isOk = false := by
    decide +kernel
  have hAccepted :
      (parse ⟨.ofEntries [retired, later] [], .allowAny⟩ "MIT or GPL-2.0+").value.isOk = true := by
    decide +kernel
  have hOther := (parse_depends_on_identifiers .allowAny "(MIT)").1 (.ofEntries [gpl] [])
    (.ofEntries [retired, later] []) (by decide +kernel)
  refine ⟨_, _, hBase, hUser, hOther, hRefused, hAccepted, ?_⟩
  refine (parse_depends_on_identifiers .allowAny "MIT or GPL-2.0+").2 _ _ _ _ _ hBase hUser rfl ?_
  intro hSame
  rw [hSame, hAccepted] at hRefused
  cases hRefused

end Licensing
