import Licensing.Catalog.Merge
import Licensing.Proofs.Toml.Distinct

/-!
Laying one document over others, one entry at a time. Each entry of a document fits what came before
or is a problem, whatever stands beside it; so a document adds no problem when all its entries fit,
and then every identifier has the fields of the document laid over the ones that it had.
-/

namespace Licensing

namespace Listing

variable {α β : Type}

theorem get?_of_mem {entries : Listing α} (h : entries.names.Nodup) {name : String} {value : α}
    (hMem : (name, value) ∈ entries) : entries.get? name = some value := by
  induction entries with
  | nil => cases hMem
  | cons entry rest ih =>
      obtain ⟨other, old⟩ := entry
      obtain ⟨hOther, hRest⟩ := List.nodup_cons.1 h
      rw [get?_cons]
      rcases List.mem_cons.1 hMem with hFirst | hLater
      · obtain ⟨rfl, rfl⟩ := Prod.mk.inj hFirst
        rw [if_pos rfl]
      · have hNe : other ≠ name := fun hSame =>
          hOther (List.mem_map.2 ⟨(name, value), hLater, hSame.symm⟩)
        rw [if_neg hNe]
        exact ih hRest hLater

theorem get?_map (entries : Listing α) (f : String → α → β) (name : String) :
    get? (entries.map fun (other, value) => (other, f other value)) name =
      (entries.get? name).map (f name) := by
  induction entries with
  | nil => rfl
  | cons entry rest ih =>
      obtain ⟨other, value⟩ := entry
      rw [List.map_cons, get?_cons, get?_cons, ih]
      split
      · rename_i hName
        rw [hName]
        rfl
      · rfl

end Listing

namespace Catalog

open Toml (Value Table)

/-- A field of an overlay is the later one where there is one. -/
theorem get?_overlay {earlier later : Table} (h : (Listing.names later).Nodup) (field : String) :
    (overlay earlier later).get? field = (later.get? field).or (earlier.get? field) := by
  induction later generalizing earlier with
  | nil => rfl
  | cons entry rest ih =>
      obtain ⟨name, value⟩ := entry
      obtain ⟨hName, hRest⟩ := List.nodup_cons.1 h
      have hFirst : overlay earlier ((name, value) :: rest) =
          overlay (earlier.put name value) rest := rfl
      rw [hFirst, ih hRest, Listing.get?_cons, Listing.get?_put]
      by_cases hField : name = field
      · subst hField
        rw [if_pos rfl, if_pos rfl, Listing.get?_eq_none_iff.2 hName]
        rfl
      · rw [if_neg hField, if_neg hField]

/-! ### One entry -/

structure Usable (id : String) (field? : String → Option Value) : Prop where
  named : ∃ name, field? nameField = some (.text name)
  deprecated : ∀ v, field? deprecatedField = some v → ∃ flag, v = .boolean flag
  eligible : ∀ v, field? eligibleField = some v → ∃ flag, v = .boolean flag
  nonempty : id ≠ ""
  solid : ∀ c ∈ id.toList, Text.isBlank c = false

theorem nameProblems_eq_nil_iff {part : Part} {id : String} {fields : Table} :
    nameProblems part id fields = [] ↔ ∃ name, fields.get? nameField = some (.text name) := by
  unfold nameProblems
  split
  · rename_i hNone
    simp [hNone]
  · rename_i name hName
    simp [hName]
  · rename_i other hText hOther
    constructor
    · intro h
      cases h
    · rintro ⟨name, hName⟩
      exact absurd (hOther.symm.trans hName) fun hSame => hText name (Option.some.inj hSame)

theorem flagProblems_eq_nil_iff {part : Part} {id flag : String} {fields : Table} :
    flagProblems part id flag fields = [] ↔
      ∀ v, fields.get? flag = some v → ∃ b, v = .boolean b := by
  unfold flagProblems
  split
  · rename_i hNone
    simp [hNone]
  · rename_i b hFlag
    simp [hFlag]
  · rename_i other hFlag hOther
    constructor
    · intro h
      cases h
    · intro h
      obtain ⟨b, rfl⟩ := h other hOther
      exact absurd rfl (hFlag b)

theorem idProblems_eq_nil_iff {part : Part} {id : String} :
    idProblems part id = [] ↔ id ≠ "" ∧ ∀ c ∈ id.toList, Text.isBlank c = false := by
  unfold idProblems
  split
  · rename_i hBlank
    constructor
    · intro h
      cases h
    · rintro ⟨hNonempty, hSolid⟩
      rw [Bool.or_eq_true] at hBlank
      rcases hBlank with hAll | hSome
      · have hCons : id.toList ≠ [] := fun hNil => hNonempty (String.toList_injective hNil)
        obtain ⟨c, hc⟩ := List.exists_mem_of_ne_nil _ hCons
        exact absurd (List.all_eq_true.1 hAll c hc) (by simp [hSolid c hc])
      · obtain ⟨c, hc, hFound⟩ := List.any_eq_true.1 hSome
        exact absurd hFound (by simp [hSolid c hc])
  · rename_i hBlank
    rw [Bool.or_eq_true, not_or] at hBlank
    refine ⟨fun _ => ⟨?_, fun c hc => ?_⟩, fun _ => rfl⟩
    · rintro rfl
      exact hBlank.1 rfl
    · exact Bool.not_eq_true _ ▸ fun hFound => hBlank.2 (List.any_eq_true.2 ⟨c, hc, hFound⟩)

/-- The check of an entry finds nothing just when the entry can be used. -/
theorem entryProblems_eq_nil_iff {part : Part} {id : String} {fields : Table} :
    entryProblems part id fields = [] ↔ Usable id fields.get? := by
  simp only [entryProblems, List.append_eq_nil_iff, nameProblems_eq_nil_iff,
    flagProblems_eq_nil_iff, idProblems_eq_nil_iff]
  constructor
  · rintro ⟨⟨⟨hName, hDeprecated⟩, hEligible⟩, hNonempty, hSolid⟩
    exact ⟨hName, hDeprecated, hEligible, hNonempty, hSolid⟩
  · rintro ⟨hName, hDeprecated, hEligible, hNonempty, hSolid⟩
    exact ⟨⟨⟨hName, hDeprecated⟩, hEligible⟩, hNonempty, hSolid⟩

/-- The fields of an entry laid over the ones that its identifier had, if it had any. -/
def laidOver (earlier : Option Table) (later : Table) : Table :=
  earlier.elim later fun fields => overlay fields later

theorem get?_laidOver {earlier : Option Table} {later : Table}
    (h : (Listing.names later).Nodup) (field : String) :
    (laidOver earlier later).get? field =
      (later.get? field).or (earlier.bind fun fields => fields.get? field) := by
  cases earlier with
  | none => simp [laidOver]
  | some fields => exact get?_overlay h field

/-- An entry of a document can be laid over what its identifier had. -/
def Fits (id : String) (earlier : Option Table) (v : Value) : Prop :=
  ∃ later, v = .table later ∧ Usable id (laidOver earlier later).get?

def valueProblems (part : Part) (id : String) (earlier : Option Table) : Value → List Problem
  | .table later => entryProblems part id (laidOver earlier later)
  | other => [.entryNotTable part id other.kindName]

/-- The fields that the identifier has from then on: those laid over the earlier ones, unless
something is wrong with them. -/
def kept (part : Part) (id : String) (earlier : Option Table) : Value → Option Table
  | .table later =>
    if (entryProblems part id (laidOver earlier later)).isEmpty then some (laidOver earlier later)
    else earlier
  | _ => earlier

section

variable {part : Part} {id : String} {earlier : Option Table} {v : Value}

theorem valueProblems_eq_nil_iff (part : Part) :
    valueProblems part id earlier v = [] ↔ Fits id earlier v := by
  cases v with
  | table later =>
      rw [valueProblems, entryProblems_eq_nil_iff]
      constructor
      · intro h
        exact ⟨later, rfl, h⟩
      · rintro ⟨_, ⟨⟩, h⟩
        exact h
  | _ => simp [valueProblems, Fits]

theorem kept_of_usable {later : Table} (h : Usable id (laidOver earlier later).get?) :
    kept part id earlier (.table later) = some (laidOver earlier later) := by
  rw [kept, entryProblems_eq_nil_iff.2 h]
  rfl

theorem kept_of_not_usable {later : Table} (h : ¬ Usable id (laidOver earlier later).get?) :
    kept part id earlier (.table later) = earlier := by
  rw [kept, if_neg]
  intro hNone
  exact h (entryProblems_eq_nil_iff.1 (List.isEmpty_iff.1 hNone))

end

namespace Merged

variable {part : Part} {m : Merged}

/-- Problems are added and never taken back. -/
theorem problems_addEntry (part : Part) (m : Merged) (id : String) (v : Value) :
    (m.addEntry part (id, v)).problems =
      m.problems ++ valueProblems part id (m.entries.get? id) v := by
  unfold addEntry valueProblems laidOver
  cases v with
  | table later =>
      cases m.entries.get? id with
      | none => cases hFound : entryProblems part id later <;> simp [hFound]
      | some fields => cases hFound : entryProblems part id (overlay fields later) <;> simp [hFound]
  | _ => rfl

/-- One more entry concerns its own identifier only. -/
theorem get?_addEntry (part : Part) (m : Merged) (id : String) (v : Value) (asked : String) :
    (m.addEntry part (id, v)).entries.get? asked =
      if id = asked then kept part id (m.entries.get? id) v else m.entries.get? asked := by
  have hSame : m.entries.get? asked =
      if id = asked then m.entries.get? id else m.entries.get? asked := by
    split
    · rename_i hId
      rw [hId]
    · rfl
  unfold addEntry kept laidOver
  cases v with
  | table later =>
      cases hEarlier : m.entries.get? id with
      | none =>
          cases hFound : entryProblems part id later with
          | nil => simp [hFound, Listing.get?_put]
          | cons problem rest => simpa [hFound, hEarlier] using hSame
      | some fields =>
          cases hFound : entryProblems part id (overlay fields later) with
          | nil => simp [hFound, Listing.get?_put]
          | cons problem rest => simpa [hFound, hEarlier] using hSame
  | _ => exact hSame

theorem nodup_addEntry {entry : String × Value} (h : m.entries.names.Nodup) :
    (m.addEntry part entry).entries.names.Nodup := by
  unfold addEntry
  split
  · dsimp only
    split
    · exact Listing.names_put_nodup h _ _
    · exact h
  · exact h

theorem nodup_foldl {entries : List (String × Value)} (h : m.entries.names.Nodup) :
    (entries.foldl (addEntry part) m).entries.names.Nodup := by
  induction entries generalizing m with
  | nil => exact h
  | cons entry rest ih => exact ih (nodup_addEntry h)

theorem get?_foldl_of_notMem {entries : Table} {id : String} (h : id ∉ Listing.names entries) :
    (entries.foldl (addEntry part) m).entries.get? id = m.entries.get? id := by
  induction entries generalizing m with
  | nil => rfl
  | cons entry rest ih =>
      obtain ⟨hFirst, hRest⟩ := List.ne_and_not_mem_of_not_mem_cons h
      rw [List.foldl_cons, ih hRest, get?_addEntry, if_neg hFirst.symm]

/-- Entries with distinct names do not meet, so each of them meets the fields that its identifier
had before all of them. -/
theorem problems_foldl {entries : Table} (hOnce : (Listing.names entries).Nodup) :
    (entries.foldl (addEntry part) m).problems = m.problems ++
      entries.flatMap fun entry => valueProblems part entry.1 (m.entries.get? entry.1) entry.2 := by
  induction entries generalizing m with
  | nil => exact (List.append_nil _).symm
  | cons entry rest ih =>
      obtain ⟨id, v⟩ := entry
      obtain ⟨hId, hRest⟩ := List.nodup_cons.1 hOnce
      have hLater : (rest.flatMap fun entry => valueProblems part entry.1
            ((m.addEntry part (id, v)).entries.get? entry.1) entry.2) =
          rest.flatMap fun entry =>
            valueProblems part entry.1 (m.entries.get? entry.1) entry.2 := by
        rw [List.flatMap_def, List.flatMap_def]
        refine congrArg List.flatten (List.map_congr_left fun entry hEntry => ?_)
        have hApart : id ≠ entry.1 := fun hSame => hId (List.mem_map.2 ⟨entry, hEntry, hSame.symm⟩)
        rw [get?_addEntry, if_neg hApart]
      rw [List.foldl_cons, ih hRest, hLater, problems_addEntry, List.flatMap_cons,
        List.append_assoc]

/-- Laying a list of entries with distinct names over others gives each identifier what its own
entry makes of what it had. -/
theorem get?_foldl {entries : Table} (hOnce : (Listing.names entries).Nodup) (id : String) :
    (entries.foldl (addEntry part) m).entries.get? id =
      (Listing.get? entries id).elim (m.entries.get? id) (kept part id (m.entries.get? id)) := by
  induction entries generalizing m with
  | nil => rfl
  | cons entry rest ih =>
      obtain ⟨name, v⟩ := entry
      obtain ⟨hName, hRest⟩ := List.nodup_cons.1 hOnce
      rw [List.foldl_cons, ih hRest, get?_addEntry, Listing.get?_cons]
      by_cases hId : name = id
      · subst hId
        rw [if_pos rfl, if_pos rfl, Listing.get?_eq_none_iff.2 hName]
        rfl
      · rw [if_neg hId, if_neg hId]

end Merged

/-! ### One document -/

def listed? (document : Table) (part : Part) (id : String) : Option Value :=
  ((document.get? part.name).bind Value.table?).bind fun entries => Listing.get? entries id

def fields? (document : Table) (part : Part) (id : String) : Option Table :=
  (listed? document part id).bind Value.table?

structure PartFits (document : Table) (part : Part) (earlier : String → Option Table) : Prop where
  table : ∀ v, document.get? part.name = some v → ∃ entries, v = .table entries
  entries : ∀ id v, listed? document part id = some v → Fits id (earlier id) v

def partProblems (part : Part) (earlier : String → Option Table) (document : Table) :
    List Problem :=
  match document.get? part.name with
  | none => []
  | some (.table entries) =>
    entries.flatMap fun entry => valueProblems part entry.1 (earlier entry.1) entry.2
  | some other => [.partNotTable part other.kindName]

section

variable {document : Table} {part : Part}

theorem listed?_of_get? {entries : Table} (h : document.get? part.name = some (.table entries))
    (id : String) : listed? document part id = Listing.get? entries id := by
  simp [listed?, h, Value.table?]

/-- Either a part is no table, or what is wrong with it is wrong with one of its values. -/
theorem mem_partProblems_iff (hOnce : document.Distinct) {earlier : String → Option Table}
    {p : Problem} :
    p ∈ partProblems part earlier document ↔
      (∃ v, document.get? part.name = some v ∧ (∀ entries, v ≠ .table entries) ∧
        p = .partNotTable part v.kindName) ∨
      ∃ id v, listed? document part id = some v ∧ p ∈ valueProblems part id (earlier id) v := by
  unfold partProblems
  cases hPart : document.get? part.name with
  | none => simp [listed?, hPart]
  | some v =>
      cases v with
      | table entries =>
          have hEntries : Table.Distinct entries := hOnce.of_get? hPart
          have hListed (id : String) (v : Value) :
              listed? document part id = some v ↔ (id, v) ∈ entries := by
            rw [listed?_of_get? hPart]
            exact ⟨Listing.mem_of_get?, Listing.get?_of_mem hEntries.names⟩
          simp [hListed, List.mem_flatMap]
      | _ => simp [listed?, hPart, Value.table?]

theorem partProblems_eq_nil_iff (hOnce : document.Distinct) {earlier : String → Option Table} :
    partProblems part earlier document = [] ↔ PartFits document part earlier := by
  rw [List.eq_nil_iff_forall_not_mem]
  constructor
  · intro h
    refine ⟨fun v hv => ?_, fun id v hv => ?_⟩
    · refine Classical.byContradiction fun hTable => ?_
      exact h _ ((mem_partProblems_iff hOnce).2
        (.inl ⟨v, hv, fun entries hEq => hTable ⟨entries, hEq⟩, rfl⟩))
    · rw [← valueProblems_eq_nil_iff part, List.eq_nil_iff_forall_not_mem]
      intro p hp
      exact h p ((mem_partProblems_iff hOnce).2 (.inr ⟨id, v, hv, hp⟩))
  · intro hFits p hp
    rcases (mem_partProblems_iff hOnce).1 hp with ⟨v, hv, hTable, -⟩ | ⟨id, v, hv, hFound⟩
    · obtain ⟨entries, hEntries⟩ := hFits.table v hv
      exact hTable entries hEntries
    · rw [(valueProblems_eq_nil_iff part).2 (hFits.entries id v hv)] at hFound
      exact absurd hFound List.not_mem_nil

end

namespace Merged

variable {part : Part} {m : Merged} {document : Table}

/-- The problems of one part are found against what was there before the part, and put behind the
problems that were found. -/
theorem problems_addPart (hOnce : document.Distinct) :
    (m.addPart part document).problems =
      m.problems ++ partProblems part m.entries.get? document := by
  unfold addPart partProblems
  cases hPart : document.get? part.name with
  | none => exact (List.append_nil _).symm
  | some v =>
      cases v with
      | table entries =>
          have hEntries : Table.Distinct entries := hOnce.of_get? hPart
          exact problems_foldl hEntries.names
      | _ => rfl

/-- Every identifier keeps what it has, unless the document lists fields for it that can be used. -/
theorem get?_addPart_kept (hOnce : document.Distinct) (id : String) :
    (m.addPart part document).entries.get? id =
      (listed? document part id).elim (m.entries.get? id) (kept part id (m.entries.get? id)) := by
  unfold addPart
  cases hPart : document.get? part.name with
  | none => simp [listed?, hPart]
  | some v =>
      cases v with
      | table entries =>
          have hEntries : Table.Distinct entries := hOnce.of_get? hPart
          rw [listed?_of_get? hPart]
          exact get?_foldl hEntries.names id
      | _ => simp [listed?, hPart, Value.table?]

theorem get?_addPart (hOnce : document.Distinct) (h : PartFits document part m.entries.get?)
    (id : String) :
    (m.addPart part document).entries.get? id =
      (fields? document part id).elim (m.entries.get? id) fun later =>
        some (laidOver (m.entries.get? id) later) := by
  rw [get?_addPart_kept hOnce, fields?]
  cases hListed : listed? document part id with
  | none => rfl
  | some v =>
      obtain ⟨later, rfl, hUsable⟩ := h.entries id v hListed
      exact kept_of_usable hUsable

/-- A document changes nothing about an identifier that it does not list. -/
theorem get?_addPart_of_not_listed {id : String} (h : listed? document part id = none) :
    (m.addPart part document).entries.get? id = m.entries.get? id := by
  unfold addPart
  split
  · rfl
  · rename_i entries hPart
    have hEntries : Listing.get? entries id = none := by
      simpa [listed?, hPart, Value.table?] using h
    exact get?_foldl_of_notMem (Listing.get?_eq_none_iff.1 hEntries)
  · rfl

theorem nodup_addPart (h : m.entries.names.Nodup) :
    (m.addPart part document).entries.names.Nodup := by
  unfold addPart
  split
  · exact h
  · exact nodup_foldl h
  · exact h

end Merged

namespace Draft

def part (d : Draft) : Part → Listing Table
  | .licenses => d.licenses
  | .exceptions => d.exceptions

variable {d : Draft} {document : Table}

theorem problems_add (d : Draft) (hOnce : document.Distinct) :
    (d.add document).problems =
      d.problems ++ partProblems .licenses (d.part .licenses).get? document ++
        partProblems .exceptions (d.part .exceptions).get? document := by
  have hAll : (d.add document).problems =
      (Merged.addPart .exceptions
        ⟨d.exceptions, (Merged.addPart .licenses ⟨d.licenses, d.problems⟩ document).problems⟩
        document).problems := rfl
  rw [hAll, Merged.problems_addPart hOnce, Merged.problems_addPart hOnce]
  rfl

/-- Adding a document leaves a draft without problems just when it had none and both parts fit. -/
theorem problems_add_eq_nil_iff (hOnce : document.Distinct) :
    (d.add document).problems = [] ↔
      d.problems = [] ∧ ∀ part, PartFits document part (d.part part).get? := by
  rw [problems_add d hOnce, List.append_eq_nil_iff, List.append_eq_nil_iff,
    partProblems_eq_nil_iff hOnce, partProblems_eq_nil_iff hOnce, and_assoc]
  refine and_congr_right fun _ => ⟨?_, fun h => ⟨h .licenses, h .exceptions⟩⟩
  rintro ⟨hLicenses, hExceptions⟩ part
  cases part with
  | licenses => exact hLicenses
  | exceptions => exact hExceptions

/-- What a document makes of one identifier, whether it fits or not. -/
theorem get?_add_kept (hOnce : document.Distinct) (part : Part) (id : String) :
    ((d.add document).part part).get? id =
      (listed? document part id).elim ((d.part part).get? id)
        (kept part id ((d.part part).get? id)) := by
  cases part with
  | licenses => exact Merged.get?_addPart_kept (m := ⟨d.licenses, d.problems⟩) hOnce id
  | exceptions => exact Merged.get?_addPart_kept (m := ⟨d.exceptions, _⟩) hOnce id

/-- A document that fits has its fields laid over the ones that came before. -/
theorem get?_add (hOnce : document.Distinct) {part : Part}
    (h : PartFits document part (d.part part).get?) (id : String) :
    ((d.add document).part part).get? id =
      (fields? document part id).elim ((d.part part).get? id) fun later =>
        some (laidOver ((d.part part).get? id) later) := by
  cases part with
  | licenses => exact Merged.get?_addPart (m := ⟨d.licenses, d.problems⟩) hOnce h id
  | exceptions => exact Merged.get?_addPart (m := ⟨d.exceptions, _⟩) hOnce h id

theorem get?_add_of_not_listed {part : Part} {id : String} (h : listed? document part id = none) :
    ((d.add document).part part).get? id = (d.part part).get? id := by
  cases part with
  | licenses => exact Merged.get?_addPart_of_not_listed (m := ⟨d.licenses, d.problems⟩) h
  | exceptions => exact Merged.get?_addPart_of_not_listed (m := ⟨d.exceptions, _⟩) h

theorem nodup_add {part : Part} (h : (d.part part).names.Nodup) :
    ((d.add document).part part).names.Nodup := by
  cases part with
  | licenses => exact Merged.nodup_addPart (m := ⟨d.licenses, d.problems⟩) h
  | exceptions => exact Merged.nodup_addPart (m := ⟨d.exceptions, _⟩) h

end Draft

end Catalog

end Licensing
