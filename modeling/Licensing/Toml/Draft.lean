import Licensing.Toml.Value

/-!
A document while it is read: the tables so far, and which names may not be opened again. A table
may be declared once by a header, a name that holds an array or an inline table is closed together
with all below it, and the tables that a dotted name runs through may not be declared by a later
header.
-/

namespace Licensing.Toml

/-- The names that lead from the document to a value. -/
abbrev Path := List String

namespace Table

/-- The table at a path, changed by `change`. Missing tables on the way are made, and an array on
the way stands for its last item where `throughArrays` allows it. There is no result when another
value stands on the way. -/
def updateAt (throughArrays : Bool) (change : Table → Option Table) : Path → Table → Option Table
  | [], t => change t
  | name :: path, t =>
    match t.get? name with
    | none => (updateAt throughArrays change path []).map fun inner => t.put name (.table inner)
    | some (.table inner) =>
      (updateAt throughArrays change path inner).map fun inner => t.put name (.table inner)
    | some (.array items) =>
      match throughArrays, items.getLast? with
      | true, some (.table inner) =>
        (updateAt throughArrays change path inner).map fun inner =>
          t.put name (.array (items.dropLast ++ [.table inner]))
      | _, _ => none
    | some _ => none

/-- The table with one more value, under a name that was free. -/
def add (name : String) (value : Value) (t : Table) : Option Table :=
  if t.has name then none else some (t.put name value)

/-- The table with an empty table appended to the array under a name. -/
def appendTable (name : String) (t : Table) : Option Table :=
  match t.get? name with
  | none => some (t.put name (.array [.table []]))
  | some (.array items) => some (t.put name (.array (items ++ [.table []])))
  | some _ => none

end Table

/-- Whether a value closes its name: nothing can be added to it later. -/
def Value.isContainer : Value → Bool
  | .array _ | .table _ => true
  | _ => false

/-- A document while it is read. -/
structure Draft where
  root : Table
  /-- The tables that no header may declare. -/
  declared : List Path
  /-- The names that are closed, with all names below them. -/
  closed : List Path
  /-- The tables that dotted names have run through since the last header. -/
  pending : List Path

namespace Draft

def empty : Draft := ⟨[], [], [], []⟩

def isClosed (d : Draft) (path : Path) : Bool :=
  d.closed.any (·.isPrefixOf path)

/-- The document when a header begins: the tables behind dotted names become declared. -/
def settle (d : Draft) : Draft :=
  { d with declared := d.pending ++ d.declared, pending := [] }

/-- The document after the header of a table. -/
def declareTable (d : Draft) (path : Path) : Option Draft := do
  if path ∈ d.declared ∨ d.isClosed path then none
  let root ← d.root.updateAt true some path
  return { d with root, declared := path :: d.declared }

/-- The document after the header of an item of an array of tables. The names below an earlier item
are free again. -/
def appendItem (d : Draft) (path : Path) : Option Draft := do
  if d.isClosed path then none
  let name ← path.getLast?
  let root ← d.root.updateAt true (Table.appendTable name) path.dropLast
  let keep := fun other => !path.isPrefixOf other
  return { d with
    root
    declared := path :: d.declared.filter keep
    closed := d.closed.filter keep }

/-- The document with a value under a dotted name, below the header. -/
def define (d : Draft) (header path : Path) (value : Value) : Option Draft := do
  let name ← path.getLast?
  let through := (List.range' 1 (path.length - 1)).map fun n => header ++ path.take n
  if through.any (· ∈ d.declared) then none
  let parent := header ++ path.dropLast
  if d.isClosed parent then none
  let root ← d.root.updateAt true (Table.add name value) parent
  return { d with
    root
    pending := through ++ d.pending
    closed := if value.isContainer then (header ++ path) :: d.closed else d.closed }

end Draft

/-- An inline table while it is read: its entries, and the names in it that are closed. -/
structure InlineDraft where
  entries : Table
  closed : List Path

/-- The inline table with a value under a dotted name. -/
def InlineDraft.define (d : InlineDraft) (path : Path) (value : Value) : Option InlineDraft := do
  let name ← path.getLast?
  if d.closed.any (·.isPrefixOf path) then none
  let entries ← d.entries.updateAt false (Table.add name value) path.dropLast
  return { entries, closed := if value.isContainer then path :: d.closed else d.closed }

end Licensing.Toml
