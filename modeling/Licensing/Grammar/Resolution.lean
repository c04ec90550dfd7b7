import Licensing.Grammar.Basic

/-!
Resolution agrees with the grammar: an identifier is resolved exactly when it names something, and
to what it names. Which identifiers are reported, and where, does not matter here.
-/

namespace Licensing.Lookup

/-- A listed identifier is accepted unless it is deprecated and the strictness refuses that. -/
theorem exists_accepting_iff {α : Type} {k : Lookup} {value : String} {position : Nat}
    {deprecated : Bool} {found result : α} :
    (∃ event, k.accepting value position deprecated found = .ok (result, event)) ↔
      found = result ∧ (deprecated = true → k.strictness ≠ .allowCurrent) := by
  cases deprecated with
  | false => simp [accepting, accept, Except.map]
  | true => by_cases h : k.strictness = .allowCurrent <;> simp [accepting, accept, Except.map, h]

theorem exists_resolvePlus_iff {k : Lookup} {value : String} {position : Nat} {l : License} :
    (∃ event, k.resolvePlus value position = .ok (l, event)) ↔ k.NamesLicense value true l := by
  constructor
  · rintro ⟨event, h⟩
    simp only [resolvePlus] at h
    split at h
    · rename_i entry hMarked
      simp only [Option.filter_eq_some_iff] at hMarked
      obtain ⟨rfl, hAccepted⟩ := exists_accepting_iff.1 ⟨event, h⟩
      exact .marked hMarked.1 hMarked.2 (hAccepted rfl)
    · rename_i entry hMarked hPlain
      simp only [Option.filter_eq_some_iff, Option.filter_eq_none_iff] at hMarked hPlain
      obtain ⟨rfl, hAccepted⟩ := exists_accepting_iff.1 ⟨event, h⟩
      exact .plain (by simpa using hMarked) hPlain.1 hPlain.2 (hAccepted rfl)
    · simp at h
  · intro h
    cases h with
    | @marked entry found deprecated accepted =>
        simp only [resolvePlus, found, Option.filter_some, deprecated, if_true]
        exact exists_accepting_iff.2 ⟨rfl, fun _ => accepted⟩
    | @plain entry unmarked found deprecated accepted =>
        have hMarked : (k.catalog.license? (value ++ plusSuffix)).filter (·.deprecated) = none := by
          simpa [Option.filter_eq_none_iff] using unmarked
        simp only [resolvePlus, hMarked, found, Option.filter_some, deprecated, if_true]
        exact exists_accepting_iff.2 ⟨rfl, fun _ => accepted⟩

/-- An identifier is accepted as the license that it names. -/
theorem exists_resolveLicense_iff {k : Lookup} {value : String} {orLater : Bool} {position : Nat}
    {l : License} :
    (∃ event, k.resolveLicense value orLater position = .ok (l, event)) ↔
      k.NamesLicense value orLater l := by
  cases orLater with
  | true => simpa [resolveLicense] using exists_resolvePlus_iff
  | false =>
      simp only [resolveLicense, Bool.false_eq_true, if_false]
      constructor
      · rintro ⟨event, h⟩
        split at h
        · simp at h
        · rename_i hFree
          rw [Bool.not_eq_true, Option.isSome_eq_false_iff, Option.isNone_iff_eq_none] at hFree
          split at h
          · rename_i entry hFound
            obtain ⟨rfl, hAccepted⟩ := exists_accepting_iff.1 ⟨event, h⟩
            exact .listed hFree hFound hAccepted
          · rename_i hMissing
            split at h
            · rename_i hAccepted
              obtain ⟨rfl, -⟩ := Prod.mk.inj (Except.ok.inj h)
              exact .unlisted hFree hMissing hAccepted
            · simp at h
      · intro h
        cases h with
        | listed free found accepted =>
            simp only [free, Option.isSome_none, Bool.false_eq_true, if_false, found]
            exact exists_accepting_iff.2 ⟨rfl, accepted⟩
        | unlisted free missing accepted => simp [free, missing, accepted]

/-- Right of `WITH` an identifier names an exception, and never with a `+`. -/
theorem exists_resolveException_iff {k : Lookup} {value : String} {orLater : Bool}
    {position : Nat} {x : LicenseException} :
    (∃ event, k.resolveException value orLater position = .ok (x, event)) ↔
      orLater = false ∧ k.NamesException value x := by
  cases orLater with
  | true => simp [resolveException]
  | false =>
      simp only [resolveException, Bool.false_eq_true, if_false, true_and]
      constructor
      · rintro ⟨event, h⟩
        split at h
        · simp at h
        · rename_i hFree
          rw [Bool.not_eq_true, Option.isSome_eq_false_iff, Option.isNone_iff_eq_none] at hFree
          split at h
          · rename_i entry hFound
            obtain ⟨rfl, hAccepted⟩ := exists_accepting_iff.1 ⟨event, h⟩
            exact .listed hFree hFound hAccepted
          · rename_i hMissing
            split at h
            · rename_i hAccepted
              obtain ⟨rfl, -⟩ := Prod.mk.inj (Except.ok.inj h)
              exact .unlisted hFree hMissing hAccepted
            · simp at h
      · intro h
        cases h with
        | listed free found accepted =>
            simp only [free, Option.isSome_none, Bool.false_eq_true, if_false, found]
            exact exists_accepting_iff.2 ⟨rfl, accepted⟩
        | unlisted free missing accepted => simp [free, missing, accepted]

end Licensing.Lookup
