import Licensing.Containers
import Licensing.Toml.Document

/-!
Documents have no name twice: in a document that was read, the names of every table are distinct, at
whatever depth the table is. Tables grow by `Listing.put` alone, and the values that are put into
them are read before.
-/

namespace Licensing.Toml

open Listing (names)

inductive Value.Distinct : Value → Prop where
  | plain {v : Value} (single : v.isContainer = false) : Distinct v
  | array {items : List Value} (each : ∀ v ∈ items, Distinct v) : Distinct (.array items)
  | table {entries : Table} (once : (names entries).Nodup)
      (each : ∀ entry ∈ entries, Distinct entry.2) : Distinct (.table entries)

/-- The names of a table, and of every table in it, are distinct. -/
def Table.Distinct (t : Table) : Prop :=
  (Value.table t).Distinct

namespace Table

theorem Distinct.nil : Table.Distinct [] :=
  .table List.nodup_nil (by simp)

theorem Distinct.names {t : Table} (h : t.Distinct) : (Listing.names t).Nodup := by
  cases h with
  | plain single => cases single
  | table once each => exact once

theorem Distinct.of_mem {t : Table} (h : t.Distinct) {entry : String × Value} (hEntry : entry ∈ t) :
    entry.2.Distinct := by
  cases h with
  | plain single => cases single
  | table once each => exact each entry hEntry

theorem Distinct.of_get? {t : Table} (h : t.Distinct) {name : String} {v : Value}
    (hFound : t.get? name = some v) : v.Distinct :=
  h.of_mem (Listing.mem_of_get? hFound)

theorem Distinct.put {t : Table} {v : Value} (h : t.Distinct) (hValue : v.Distinct)
    (name : String) : Table.Distinct (t.put name v) := by
  refine .table (Listing.names_put_nodup h.names name v) ?_
  intro entry hEntry
  rcases Listing.mem_of_mem_put hEntry with rfl | hOld
  · exact hValue
  · exact h.of_mem hOld

theorem Distinct.add {name : String} {v : Value} {t changed : Table} (h : t.Distinct)
    (hValue : v.Distinct) (hAdd : t.add name v = some changed) : changed.Distinct := by
  unfold Table.add at hAdd
  split at hAdd
  · cases hAdd
  · obtain rfl := Option.some.inj hAdd
    exact h.put hValue name

end Table

theorem Value.Distinct.items {items : List Value} (h : (Value.array items).Distinct) :
    ∀ v ∈ items, v.Distinct := by
  cases h with
  | plain single => cases single
  | array each => exact each

theorem Value.Distinct.append {items : List Value} {v : Value}
    (h : ∀ v ∈ items, v.Distinct) (hLast : v.Distinct) :
    (Value.array (items ++ [v])).Distinct := by
  refine .array fun w hw => ?_
  rcases List.mem_append.1 hw with hOld | hNew
  · exact h w hOld
  · obtain rfl := List.mem_singleton.1 hNew
    exact hLast

namespace Table

/-- A table that is put at the end of an array has no names yet. -/
theorem Distinct.appendTable {name : String} {t changed : Table} (h : t.Distinct)
    (hAppend : t.appendTable name = some changed) : changed.Distinct := by
  unfold Table.appendTable at hAppend
  split at hAppend
  · obtain rfl := Option.some.inj hAppend
    exact h.put (.array fun v hv => List.mem_singleton.1 hv ▸ Table.Distinct.nil) name
  · rename_i items hItems
    obtain rfl := Option.some.inj hAppend
    exact h.put (.append (h.of_get? hItems).items Table.Distinct.nil) name
  · cases hAppend

/-- A change that keeps names distinct keeps them so wherever it is made. -/
theorem Distinct.updateAt {throughArrays : Bool} {change : Table → Option Table}
    (hChange : ∀ t changed, Table.Distinct t → change t = some changed → changed.Distinct)
    {path : Path} {t changed : Table} (h : t.Distinct)
    (hUpdate : t.updateAt throughArrays change path = some changed) : changed.Distinct := by
  induction path generalizing t changed with
  | nil => exact hChange t changed h hUpdate
  | cons name path ih =>
      unfold Table.updateAt at hUpdate
      split at hUpdate
      · obtain ⟨inner, hInner, rfl⟩ := Option.map_eq_some_iff.1 hUpdate
        exact h.put (ih .nil hInner) name
      · rename_i old hOld
        obtain ⟨inner, hInner, rfl⟩ := Option.map_eq_some_iff.1 hUpdate
        exact h.put (ih (h.of_get? hOld) hInner) name
      · rename_i items hItems
        split at hUpdate
        · rename_i old hLast
          obtain ⟨inner, hInner, rfl⟩ := Option.map_eq_some_iff.1 hUpdate
          have hEach := (h.of_get? hItems).items
          have hOld : Table.Distinct old := hEach _ (List.mem_of_getLast? hLast)
          refine h.put (.append (fun v hv => ?_) (ih hOld hInner)) name
          exact hEach v (List.dropLast_subset items hv)
        · cases hUpdate
      · cases hUpdate

end Table

/-! ### The document while it is read -/

namespace Draft

variable {d next : Draft}

/-- A header opens a table and names nothing twice. -/
theorem distinct_declareTable {path : Path} (h : d.root.Distinct)
    (hNext : d.declareTable path = some next) : next.root.Distinct := by
  unfold declareTable at hNext
  split at hNext
  · cases hNext
  · obtain ⟨root, hRoot, hNext⟩ := Option.bind_eq_some_iff.1 hNext
    obtain rfl := Option.some.inj hNext
    exact h.updateAt (fun t changed ht hSame => Option.some.inj hSame ▸ ht) hRoot

theorem distinct_appendItem {path : Path} (h : d.root.Distinct)
    (hNext : d.appendItem path = some next) : next.root.Distinct := by
  unfold appendItem at hNext
  split at hNext
  · cases hNext
  · obtain ⟨name, -, hNext⟩ := Option.bind_eq_some_iff.1 hNext
    obtain ⟨root, hRoot, hNext⟩ := Option.bind_eq_some_iff.1 hNext
    obtain rfl := Option.some.inj hNext
    exact h.updateAt (fun t changed ht hAppend => ht.appendTable hAppend) hRoot

theorem distinct_define {header path : Path} {v : Value} (h : d.root.Distinct)
    (hValue : v.Distinct) (hNext : d.define header path v = some next) : next.root.Distinct := by
  unfold define at hNext
  obtain ⟨name, -, hNext⟩ := Option.bind_eq_some_iff.1 hNext
  dsimp only at hNext
  split at hNext
  · cases hNext
  · split at hNext
    · cases hNext
    · obtain ⟨root, hRoot, hNext⟩ := Option.bind_eq_some_iff.1 hNext
      obtain rfl := Option.some.inj hNext
      exact h.updateAt (fun t changed ht hAdd => ht.add hValue hAdd) hRoot

end Draft

theorem InlineDraft.distinct_define {d next : InlineDraft} {path : Path} {v : Value}
    (h : d.entries.Distinct) (hValue : v.Distinct) (hNext : d.define path v = some next) :
    next.entries.Distinct := by
  unfold define at hNext
  obtain ⟨name, -, hNext⟩ := Option.bind_eq_some_iff.1 hNext
  dsimp only at hNext
  split at hNext
  · cases hNext
  · obtain ⟨entries, hEntries, hNext⟩ := Option.bind_eq_some_iff.1 hNext
    obtain rfl := Option.some.inj hNext
    exact h.updateAt (fun t changed ht hAdd => ht.add hValue hAdd) hEntries

/-! ### Values and statements -/

theorem orMalformed_eq_ok_iff {α : Type} {read : Option α} {a : α} :
    orMalformed read = .ok a ↔ read = some a := by
  cases read <;> simp [orMalformed]

theorem isContainer_of_decimalNumber {cs rest : List Char} {v : Value}
    (h : decimalNumber cs = .ok (v, rest)) : v.isContainer = false := by
  unfold decimalNumber at h
  obtain ⟨whole, -, h⟩ := exists_of_bind_eq_ok h
  dsimp only at h
  split at h
  · split at h
    · cases h
    · obtain ⟨rfl, -⟩ := Prod.mk.inj (Except.ok.inj h)
      rfl
  · obtain ⟨rfl, -⟩ := Prod.mk.inj (Except.ok.inj h)
    rfl

theorem isContainer_of_dateOrDateTime {cs rest : List Char} {v : Value}
    (h : dateOrDateTime cs = some (v, rest)) : v.isContainer = false := by
  unfold dateOrDateTime at h
  obtain ⟨date, -, h⟩ := Option.bind_eq_some_iff.1 h
  dsimp only at h
  split at h
  · split at h
    · split at h
      · obtain ⟨rfl, -⟩ := Prod.mk.inj (Option.some.inj h)
        rfl
      · split at h <;> (obtain ⟨rfl, -⟩ := Prod.mk.inj (Option.some.inj h); rfl)
    · obtain ⟨rfl, -⟩ := Prod.mk.inj (Option.some.inj h)
      rfl
  · obtain ⟨rfl, -⟩ := Prod.mk.inj (Option.some.inj h)
    rfl

theorem isContainer_of_basedInteger {cs rest : List Char} {v : Value}
    (h : basedInteger cs = some (v, rest)) : v.isContainer = false := by
  have hBased {base : Nat} {isDigit : Char → Bool} {cs : List Char}
      (h : basedInteger.based base isDigit cs = some (v, rest)) : v.isContainer = false := by
    unfold basedInteger.based at h
    obtain ⟨digits, -, h⟩ := Option.bind_eq_some_iff.1 h
    obtain ⟨rfl, -⟩ := Prod.mk.inj (Option.some.inj h)
    rfl
  unfold basedInteger at h
  split at h
  · exact hBased h
  · exact hBased h
  · exact hBased h
  · cases h

theorem isContainer_of_namedNumber {cs rest : List Char} {v : Value}
    (h : namedNumber cs = some (v, rest)) : v.isContainer = false := by
  unfold namedNumber at h
  dsimp only at h
  split at h
  · obtain ⟨rfl, -⟩ := Prod.mk.inj (Option.some.inj h)
    rfl
  · obtain ⟨rfl, -⟩ := Prod.mk.inj (Option.some.inj h)
    rfl
  · cases h

theorem isContainer_of_truthValue {cs rest : List Char} {v : Value}
    (h : truthValue cs = some (v, rest)) : v.isContainer = false := by
  unfold truthValue at h
  split at h
  · obtain ⟨rfl, -⟩ := Prod.mk.inj (Option.some.inj h)
    rfl
  · obtain ⟨rfl, -⟩ := Prod.mk.inj (Option.some.inj h)
    rfl
  · cases h

/-- A value that is written in one piece is neither an array nor a table. -/
theorem isContainer_of_plainValue {cs rest : List Char} {v : Value}
    (h : plainValue cs = .ok (v, rest)) : v.isContainer = false := by
  unfold plainValue at h
  split at h
  · rename_i read hRead
    obtain rfl := Except.ok.inj h
    simp only [Option.orElse_eq_orElse, Option.orElse_eq_or, Option.or_eq_some_iff,
      Option.map_eq_some_iff] at hRead
    rcases hRead with hTruth | ⟨-, hDate | ⟨-, ⟨time, -, hTime⟩ | ⟨-, hBased | ⟨-, hNamed⟩⟩⟩⟩
    · exact isContainer_of_truthValue hTruth
    · exact isContainer_of_dateOrDateTime hDate
    · obtain ⟨rfl, -⟩ := Prod.mk.inj hTime
      rfl
    · exact isContainer_of_basedInteger hBased
    · exact isContainer_of_namedNumber hNamed
  · exact isContainer_of_decimalNumber h

/-- What the readers of values give with so much fuel has distinct names. -/
structure DistinctReaders (fuel : Nat) : Prop where
  ofValue : ∀ {cs v rest}, value fuel cs = .ok (v, rest) → v.Distinct
  ofItems : ∀ {cs items rest}, arrayItems fuel cs = .ok (items, rest) → ∀ v ∈ items, v.Distinct
  ofEntries : ∀ {d cs t rest}, d.entries.Distinct → inlineEntries fuel d cs = .ok (t, rest) →
    Table.Distinct t
  ofKeyValue : ∀ {cs path v rest}, keyValue fuel cs = .ok (path, v, rest) → v.Distinct

namespace DistinctReaders

theorem zero : DistinctReaders 0 where
  ofValue h := by
    rw [value] at h
    cases h
  ofItems h := by
    rw [arrayItems] at h
    cases h
  ofEntries _ h := by
    rw [inlineEntries] at h
    cases h
  ofKeyValue h := by
    rw [keyValue] at h
    cases h

variable {fuel : Nat} (ih : DistinctReaders fuel)
include ih

theorem value_succ {cs rest : List Char} {v : Value} (h : value (fuel + 1) cs = .ok (v, rest)) :
    v.Distinct := by
  unfold value at h
  dsimp only at h
  split at h
  · obtain ⟨start, -, h⟩ := exists_of_bind_eq_ok h
    obtain ⟨⟨items, after⟩, hItems, h⟩ := exists_of_bind_eq_ok h
    obtain ⟨rfl, -⟩ := Prod.mk.inj (Except.ok.inj h)
    exact .array (ih.ofItems hItems)
  · split at h
    · obtain ⟨rfl, -⟩ := Prod.mk.inj (Except.ok.inj h)
      exact Table.Distinct.nil
    · obtain ⟨⟨entries, after⟩, hEntries, h⟩ := exists_of_bind_eq_ok h
      obtain ⟨rfl, -⟩ := Prod.mk.inj (Except.ok.inj h)
      exact ih.ofEntries Table.Distinct.nil hEntries
  · obtain ⟨read, -, hRead⟩ := Option.map_eq_some_iff.1 (orMalformed_eq_ok_iff.1 h)
    obtain ⟨rfl, -⟩ := Prod.mk.inj hRead
    exact .plain rfl
  · obtain ⟨read, -, hRead⟩ := Option.map_eq_some_iff.1 (orMalformed_eq_ok_iff.1 h)
    obtain ⟨rfl, -⟩ := Prod.mk.inj hRead
    exact .plain rfl
  · exact .plain (isContainer_of_plainValue h)

theorem items_succ {cs rest : List Char} {items : List Value}
    (h : arrayItems (fuel + 1) cs = .ok (items, rest)) : ∀ v ∈ items, v.Distinct := by
  unfold arrayItems at h
  dsimp only at h
  split at h
  · obtain ⟨rfl, -⟩ := Prod.mk.inj (Except.ok.inj h)
    simp
  · obtain ⟨⟨first, after⟩, hFirst, h⟩ := exists_of_bind_eq_ok h
    have hDistinct := ih.ofValue hFirst
    obtain ⟨start, -, h⟩ := exists_of_bind_eq_ok h
    split at h
    · obtain ⟨rfl, -⟩ := Prod.mk.inj (Except.ok.inj h)
      simpa using hDistinct
    · obtain ⟨start, -, h⟩ := exists_of_bind_eq_ok h
      obtain ⟨⟨others, last⟩, hOthers, h⟩ := exists_of_bind_eq_ok h
      obtain ⟨rfl, -⟩ := Prod.mk.inj (Except.ok.inj h)
      intro v hv
      rcases List.mem_cons.1 hv with rfl | hRest
      · exact hDistinct
      · exact ih.ofItems hOthers v hRest
    · cases h

/-- A name that an inline table has already is refused, so the rest is read with distinct names. -/
theorem entries_succ {d : InlineDraft} {cs rest : List Char} {t : Table}
    (hDraft : d.entries.Distinct) (h : inlineEntries (fuel + 1) d cs = .ok (t, rest)) :
    t.Distinct := by
  rw [inlineEntries] at h
  obtain ⟨⟨path, entry, after⟩, hEntry, h⟩ := exists_of_bind_eq_ok h
  obtain ⟨next, hNext, h⟩ := exists_of_bind_eq_ok h
  have hDistinct := InlineDraft.distinct_define hDraft (ih.ofKeyValue hEntry)
    (orMalformed_eq_ok_iff.1 hNext)
  split at h
  · obtain ⟨rfl, -⟩ := Prod.mk.inj (Except.ok.inj h)
    exact hDistinct
  · exact ih.ofEntries hDistinct h
  · cases h

theorem keyValue_succ {cs rest : List Char} {path : Path} {v : Value}
    (h : keyValue (fuel + 1) cs = .ok (path, v, rest)) : v.Distinct := by
  rw [keyValue] at h
  obtain ⟨name, -, h⟩ := exists_of_bind_eq_ok h
  obtain ⟨start, -, h⟩ := exists_of_bind_eq_ok h
  obtain ⟨⟨entry, after⟩, hEntry, h⟩ := exists_of_bind_eq_ok h
  obtain ⟨-, hSame⟩ := Prod.mk.inj (Except.ok.inj h)
  obtain ⟨rfl, -⟩ := Prod.mk.inj hSame
  exact ih.ofValue hEntry

end DistinctReaders

/-- Whatever the fuel that they share, the readers give distinct names. -/
theorem distinct_readers (fuel : Nat) : DistinctReaders fuel := by
  induction fuel with
  | zero => exact .zero
  | succ fuel ih => exact ⟨ih.value_succ, ih.items_succ, ih.entries_succ, ih.keyValue_succ⟩

/-- A statement of a document keeps its names distinct. -/
theorem distinct_statement {fuel : Nat} {header next : Path} {d after : Draft} {cs rest : List Char}
    (h : d.root.Distinct) (hNext : statement fuel header d cs = .ok (next, after, rest)) :
    after.root.Distinct := by
  unfold statement at hNext
  split at hNext
  · have hHeader := orMalformed_eq_ok_iff.1 hNext
    unfold itemHeader at hHeader
    obtain ⟨⟨path, start⟩, -, hHeader⟩ := Option.bind_eq_some_iff.1 hHeader
    obtain ⟨draft, hDraft, hHeader⟩ := Option.bind_eq_some_iff.1 hHeader
    obtain ⟨first, -, hHeader⟩ := Option.bind_eq_some_iff.1 hHeader
    obtain ⟨second, -, hHeader⟩ := Option.bind_eq_some_iff.1 hHeader
    obtain ⟨-, hSame⟩ := Prod.mk.inj (Option.some.inj hHeader)
    obtain ⟨rfl, -⟩ := Prod.mk.inj hSame
    exact Draft.distinct_appendItem (d := d.settle) h hDraft
  · have hHeader := orMalformed_eq_ok_iff.1 hNext
    unfold tableHeader at hHeader
    obtain ⟨⟨path, start⟩, -, hHeader⟩ := Option.bind_eq_some_iff.1 hHeader
    obtain ⟨draft, hDraft, hHeader⟩ := Option.bind_eq_some_iff.1 hHeader
    obtain ⟨first, -, hHeader⟩ := Option.bind_eq_some_iff.1 hHeader
    obtain ⟨-, hSame⟩ := Prod.mk.inj (Option.some.inj hHeader)
    obtain ⟨rfl, -⟩ := Prod.mk.inj hSame
    exact Draft.distinct_declareTable (d := d.settle) h hDraft
  · obtain ⟨⟨path, entry, start⟩, hEntry, hNext⟩ := exists_of_bind_eq_ok hNext
    obtain ⟨draft, hDraft, hNext⟩ := exists_of_bind_eq_ok hNext
    obtain ⟨-, hSame⟩ := Prod.mk.inj (Except.ok.inj hNext)
    obtain ⟨rfl, -⟩ := Prod.mk.inj hSame
    have hValue := (distinct_readers fuel).ofKeyValue hEntry
    exact Draft.distinct_define h hValue (orMalformed_eq_ok_iff.1 hDraft)

theorem distinct_lines {fuel : Nat} {header : Path} {d : Draft} {cs : List Char} {t : Table}
    (h : d.root.Distinct) (hLines : lines fuel header d cs = .ok t) : t.Distinct := by
  induction fuel generalizing header d cs with
  | zero =>
      rw [lines] at hLines
      cases hLines
  | succ fuel ih =>
      rw [lines] at hLines
      split at hLines
      · obtain rfl := Except.ok.inj hLines
        exact h
      · exact ih h hLines
      · obtain ⟨rest, -, hLines⟩ := exists_of_bind_eq_ok hLines
        split at hLines
        · exact ih h hLines
        · obtain rfl := Except.ok.inj hLines
          exact h
      · obtain ⟨⟨next, after, rest⟩, hStatement, hLines⟩ := exists_of_bind_eq_ok hLines
        obtain ⟨behind, -, hLines⟩ := exists_of_bind_eq_ok hLines
        have hAfter := distinct_statement h hStatement
        split at hLines
        · obtain rfl := Except.ok.inj hLines
          exact hAfter
        · exact ih hAfter hLines
        · cases hLines

/-- The names of every table in a document that was read are distinct. -/
theorem distinct_of_read {text : String} {t : Table} (h : read text = .ok t) : t.Distinct :=
  distinct_lines Table.Distinct.nil h

/-- Whatever bytes hold a document, its names are distinct. What is proved of such documents holds
for every file. -/
theorem distinct_of_readBytes {bytes : ByteArray} {t : Table} (h : readBytes bytes = .document t) :
    t.Distinct := by
  unfold readBytes at h
  split at h
  · cases h
  · split at h
    · cases h
    · rename_i document hRead
      obtain rfl := Content.document.inj h
      exact distinct_of_read hRead

end Licensing.Toml
