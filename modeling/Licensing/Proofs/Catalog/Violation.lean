import Mathlib.Tactic.ByContra
import Licensing.Proofs.Catalog.Overlay

/-!
What can be wrong with the data of a catalog, said of two documents at once and without checking one
thing after another: each problem is there or not, whatever other problems there are. Documents are
valid just when nothing is wrong with them.
-/

namespace Licensing.Catalog

open Toml (Value Table)

def Blank (id : String) : Prop :=
  id = "" ∨ ∃ c ∈ id.toList, Text.isBlank c = true

inductive Amiss (part : Part) (id : String) (field? : String → Option Value) : Problem → Prop where
  | nameMissing (h : field? nameField = none) : Amiss part id field? (.nameMissing part id)
  | nameNotText {v : Value} (h : field? nameField = some v) (hKind : ∀ s, v ≠ .text s) :
      Amiss part id field? (.nameNotText part id v.kindName)
  | flagNotBoolean {flag : String} {v : Value} (hFlag : flag ∈ [deprecatedField, eligibleField])
      (h : field? flag = some v) (hKind : ∀ b, v ≠ .boolean b) :
      Amiss part id field? (.flagNotBoolean part id flag v.kindName)

/-- What is wrong with the data of two documents, the user's entries read as they lie over those of
the base. Every place is looked at, whatever is wrong elsewhere. -/
inductive Violation (base user : Table) : Problem → Prop where
  | part {document : Table} {part : Part} {v : Value} (hDocument : document ∈ [base, user])
      (h : Listing.get? document part.name = some v) (hKind : ∀ entries, v ≠ .table entries) :
      Violation base user (.partNotTable part v.kindName)
  | entry {document : Table} {part : Part} {id : String} {v : Value}
      (hDocument : document ∈ [base, user]) (h : listed? document part id = some v)
      (hKind : ∀ fields, v ≠ .table fields) :
      Violation base user (.entryNotTable part id v.kindName)
  | baseFields {part : Part} {id : String} {fields : Table} {problem : Problem}
      (hFields : fields? base part id = some fields)
      (h : Amiss part id (given? base part id) problem) : Violation base user problem
  | userFields {part : Part} {id : String} {fields : Table} {problem : Problem}
      (hFields : fields? user part id = some fields)
      (h : Amiss part id (overlaid? base user part id) problem) : Violation base user problem
  | identifier {part : Part} {id : String} (hListed : Lists base user part id) (h : Blank id) :
      Violation base user (.blankIdentifier part id)
  | plus {stem : String} (hListed : Lists base user .licenses (stem ++ plusSuffix))
      (h : overlaid? base user .licenses (stem ++ plusSuffix) deprecatedField ≠
        some (.boolean true)) :
      Violation base user (.plusNotDeprecated (stem ++ plusSuffix))
  | overlap {id : String} (hLicense : Lists base user .licenses id)
      (hException : Lists base user .exceptions id) : Violation base user (.listedTwice id)

theorem not_blank_iff {id : String} :
    ¬ Blank id ↔ id ≠ "" ∧ ∀ c ∈ id.toList, Text.isBlank c = false := by
  simp [Blank]

/-- An entry can be used just when nothing is amiss with its fields and its identifier is not blank.
-/
theorem usable_iff (part : Part) {id : String} {field? : String → Option Value} :
    Usable id field? ↔ (∀ problem, ¬ Amiss part id field? problem) ∧ ¬ Blank id := by
  rw [not_blank_iff]
  constructor
  · intro h
    refine ⟨fun problem hAmiss => ?_, h.nonempty, h.solid⟩
    obtain ⟨name, hName⟩ := h.named
    cases hAmiss with
    | nameMissing hNone => cases hName.symm.trans hNone
    | nameNotText hSome hKind => exact hKind name (Option.some.inj (hSome.symm.trans hName))
    | flagNotBoolean hFlag hSome hKind =>
        rcases List.mem_cons.1 hFlag with rfl | hFlag
        · obtain ⟨b, hb⟩ := h.deprecated _ hSome
          exact hKind b hb
        · obtain rfl := List.mem_singleton.1 hFlag
          obtain ⟨b, hb⟩ := h.eligible _ hSome
          exact hKind b hb
  · rintro ⟨hNone, hNonempty, hSolid⟩
    have hFlag {flag : String} (hIn : flag ∈ [deprecatedField, eligibleField]) (v : Value)
        (hv : field? flag = some v) : ∃ b, v = .boolean b := by
      by_contra hKind
      exact hNone _ (.flagNotBoolean hIn hv fun b hb => hKind ⟨b, hb⟩)
    refine ⟨?_, hFlag (by simp), hFlag (by simp), hNonempty, hSolid⟩
    cases hName : field? nameField with
    | none => exact absurd (.nameMissing hName) (hNone _)
    | some v =>
        by_contra hKind
        exact hNone _ (.nameNotText hName fun s hs => hKind ⟨s, congrArg some hs⟩)

section

variable {base user : Table}

theorem lists_iff {part : Part} {id : String} :
    Lists base user part id ↔
      ∃ document ∈ [base, user], ∃ v, listed? document part id = some v := by
  simp [Lists, Option.isSome_iff_exists]

theorem fields?_eq_some_iff {document fields : Table} {part : Part} {id : String} :
    fields? document part id = some fields ↔ listed? document part id = some (.table fields) := by
  unfold fields?
  cases listed? document part id with
  | none => simp
  | some v => cases v <;> simp [Value.table?]

namespace Violation

variable {part : Part} {id : String}

theorem lists_of_identifier (h : Violation base user (.blankIdentifier part id)) :
    Lists base user part id := by
  cases h with
  | baseFields _ h => cases h
  | userFields _ h => cases h
  | identifier hListed => exact hListed

/-- A license that is refused for its `+` is listed and, as overlaid, not marked deprecated. -/
theorem lists_of_plus (h : Violation base user (.plusNotDeprecated id)) :
    Lists base user .licenses id ∧
      overlaid? base user .licenses id deprecatedField ≠ some (.boolean true) := by
  cases h with
  | baseFields _ h => cases h
  | userFields _ h => cases h
  | plus hListed hFlag => exact ⟨hListed, hFlag⟩

theorem lists_of_overlap (h : Violation base user (.listedTwice id)) (part : Part) :
    Lists base user part id := by
  cases h with
  | baseFields _ h => cases h
  | userFields _ h => cases h
  | overlap hLicense hException =>
      cases part with
      | licenses => exact hLicense
      | exceptions => exact hException

end Violation

/-- Every entry of valid documents is a table that can be used under its identifier. -/
theorem Valid.of_listed? (h : Valid base user) {document : Table}
    (hDocument : document ∈ [base, user]) {part : Part} {id : String} {v : Value}
    (hListed : listed? document part id = some v) :
    (∃ fields, v = .table fields) ∧ ¬ Blank id := by
  rcases List.mem_cons.1 hDocument with rfl | hUser
  · obtain ⟨hTable, hUsable⟩ := h.baseEntries part id v hListed
    exact ⟨hTable, ((usable_iff part).1 hUsable).2⟩
  · obtain rfl := List.mem_singleton.1 hUser
    obtain ⟨hTable, hUsable⟩ := h.userEntries part id v hListed
    exact ⟨hTable, ((usable_iff part).1 hUsable).2⟩

/-- Valid documents violate nothing. -/
theorem not_violation_of_valid (h : Valid base user) (problem : Problem) :
    ¬ Violation base user problem := by
  intro hViolation
  cases hViolation with
  | part hDocument hPart hKind =>
      obtain ⟨entries, hEntries⟩ := h.parts _ hDocument _ _ hPart
      exact hKind entries hEntries
  | entry hDocument hListed hKind =>
      obtain ⟨⟨fields, hFields⟩, -⟩ := h.of_listed? hDocument hListed
      exact hKind fields hFields
  | baseFields hFields hAmiss =>
      have hUsable := (h.baseEntries _ _ _ (fields?_eq_some_iff.1 hFields)).2
      exact ((usable_iff _).1 hUsable).1 problem hAmiss
  | userFields hFields hAmiss =>
      have hUsable := (h.userEntries _ _ _ (fields?_eq_some_iff.1 hFields)).2
      exact ((usable_iff _).1 hUsable).1 problem hAmiss
  | identifier hListed hBlank =>
      obtain ⟨document, hDocument, v, hv⟩ := lists_iff.1 hListed
      exact (h.of_listed? hDocument hv).2 hBlank
  | plus hListed hFlag => exact hFlag (h.plus _ hListed)
  | overlap hLicense hException => exact h.apart _ hLicense hException

/-- Documents that violate nothing are valid, so the two ways to state what is asked of them agree.
-/
theorem valid_of_not_violation (hNone : ∀ problem, ¬ Violation base user problem) :
    Valid base user := by
  have hTable {document : Table} (hDocument : document ∈ [base, user]) {part : Part} {id : String}
      {v : Value} (hListed : listed? document part id = some v) : ∃ fields, v = .table fields := by
    by_contra hKind
    exact hNone _ (.entry hDocument hListed fun fields hFields => hKind ⟨fields, hFields⟩)
  have hSolid {document : Table} (hDocument : document ∈ [base, user]) {part : Part} {id : String}
      {v : Value} (hListed : listed? document part id = some v) : ¬ Blank id := by
    have hLists : Lists base user part id := lists_iff.2 ⟨document, hDocument, v, hListed⟩
    exact fun hBlank => hNone _ (.identifier hLists hBlank)
  have hBase : base ∈ [base, user] := List.mem_cons_self
  have hUser : user ∈ [base, user] := List.mem_cons_of_mem _ List.mem_cons_self
  refine ⟨fun document hDocument part v hv => ?_, fun part id v hv => ?_, fun part id v hv => ?_,
    fun stem hListed => ?_, fun id hLicense hException => hNone _ (.overlap hLicense hException)⟩
  · by_contra hKind
    exact hNone _ (.part hDocument hv fun entries hEntries => hKind ⟨entries, hEntries⟩)
  · obtain ⟨fields, rfl⟩ := hTable hBase hv
    refine ⟨⟨fields, rfl⟩, (usable_iff part).2 ⟨fun problem hAmiss => ?_, hSolid hBase hv⟩⟩
    exact hNone problem (.baseFields (fields?_eq_some_iff.2 hv) hAmiss)
  · obtain ⟨fields, rfl⟩ := hTable hUser hv
    refine ⟨⟨fields, rfl⟩, (usable_iff part).2 ⟨fun problem hAmiss => ?_, hSolid hUser hv⟩⟩
    exact hNone problem (.userFields (fields?_eq_some_iff.2 hv) hAmiss)
  · by_contra hFlag
    exact hNone _ (.plus hListed hFlag)

end

end Licensing.Catalog
