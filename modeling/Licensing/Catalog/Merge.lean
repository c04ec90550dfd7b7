import Licensing.Catalog.Basic
import Licensing.Catalog.Problem
import Licensing.Text.Affix
import Licensing.Text.Blank

/-!
Building a catalog from documents. A user document is laid over a base document field by field;
every entry is checked as it then reads, and all problems are collected before anything is refused.
`build` makes the catalog when there is no problem.
-/

namespace Licensing.Catalog

open Toml (Value Table)

/-- The fields of an entry that a document may leave out or override. -/
def nameField : String := "name"

def deprecatedField : String := "deprecated"

def eligibleField : String := "or_later_eligible"

/-- The later fields laid over the earlier ones. -/
def overlay (earlier later : Table) : Table :=
  later.foldl (fun fields entry => fields.put entry.1 entry.2) earlier

def nameProblems (part : Part) (id : String) (fields : Table) : List Problem :=
  match fields.get? nameField with
  | none => [.nameMissing part id]
  | some (.text _) => []
  | some other => [.nameNotText part id other.kindName]

def flagProblems (part : Part) (id flag : String) (fields : Table) : List Problem :=
  match fields.get? flag with
  | none => []
  | some (.boolean _) => []
  | some other => [.flagNotBoolean part id flag other.kindName]

def idProblems (part : Part) (id : String) : List Problem :=
  if Text.allBlank id || Text.someBlank id then [.blankIdentifier part id] else []

/-- What is wrong with an entry that is a table. -/
def entryProblems (part : Part) (id : String) (fields : Table) : List Problem :=
  nameProblems part id fields ++ flagProblems part id deprecatedField fields ++
    flagProblems part id eligibleField fields ++ idProblems part id

/-- The entries of one part that were accepted so far, and the problems so far. -/
structure Merged where
  entries : Listing Table
  problems : List Problem

namespace Merged

def empty : Merged := ⟨[], []⟩

/-- One more entry of a document. An entry that is refused leaves the earlier one in place. -/
def addEntry (part : Part) (m : Merged) (entry : String × Value) : Merged :=
  match entry.2 with
  | .table later =>
    let fields := match m.entries.get? entry.1 with
      | some earlier => overlay earlier later
      | none => later
    match entryProblems part entry.1 fields with
    | [] => { m with entries := m.entries.put entry.1 fields }
    | found => { m with problems := m.problems ++ found }
  | other =>
    { m with problems := m.problems ++ [.entryNotTable part entry.1 other.kindName] }

/-- One part of a document laid over what came before. -/
def addPart (part : Part) (m : Merged) (document : Table) : Merged :=
  match document.get? part.name with
  | none => m
  | some (.table entries) => entries.foldl (addEntry part) m
  | some other => { m with problems := m.problems ++ [.partNotTable part other.kindName] }

end Merged

/-- Both parts of the documents that were laid over one another. -/
structure Draft where
  licenses : Listing Table
  exceptions : Listing Table
  problems : List Problem

namespace Draft

def empty : Draft := ⟨[], [], []⟩

/-- One more document laid over what came before, its licenses first. -/
def add (d : Draft) (document : Table) : Draft :=
  let licenses := Merged.addPart .licenses ⟨d.licenses, d.problems⟩ document
  let exceptions := Merged.addPart .exceptions ⟨d.exceptions, licenses.problems⟩ document
  ⟨licenses.entries, exceptions.entries, exceptions.problems⟩

def ofDocuments (base : Table) (user : Option Table) : Draft :=
  let d := empty.add base
  user.elim d d.add

end Draft

def nameOf (fields : Table) : String :=
  ((fields.get? nameField).bind Value.text?).getD ""

def flagOf (flag : String) (fields : Table) : Option Bool :=
  (fields.get? flag).bind Value.boolean?

def isDeprecated (fields : Table) : Bool :=
  (flagOf deprecatedField fields).getD false

def onlySuffix : String := "-only"

/-- An identifier without the ending that tells which versions it covers. -/
def familyBase (id : String) : String :=
  (Text.dropSuffix? id plusSuffix <|> Text.dropSuffix? id orLaterSuffix <|>
    Text.dropSuffix? id onlySuffix).getD id

/-- Whether the family of a license has an `-or-later` form among the licenses. -/
def familyHasOrLater (licenses : Listing Table) (id : String) : Bool :=
  licenses.has (familyBase id ++ orLaterSuffix)

namespace Draft

/-- The identifiers that end in `+` though their license is not deprecated. -/
def plusProblems (d : Draft) : List Problem :=
  (d.licenses.filter fun (id, fields) =>
    Text.hasSuffix id plusSuffix && !isDeprecated fields).map fun listed =>
      .plusNotDeprecated listed.1

/-- The identifiers that both parts list. -/
def overlapProblems (d : Draft) : List Problem :=
  (d.exceptions.filter fun listed => d.licenses.has listed.1).map fun listed =>
    .listedTwice listed.1

/-- Everything that is wrong, in the order in which it is reported. -/
def allProblems (d : Draft) : List Problem :=
  d.problems ++ d.plusProblems ++ d.overlapProblems

def licenseEntry (d : Draft) (id : String) (fields : Table) : LicenseEntry where
  id := id
  name := nameOf fields
  deprecated := isDeprecated fields
  orLaterEligible := (flagOf eligibleField fields).getD (familyHasOrLater d.licenses id)

def exceptionEntry (id : String) (fields : Table) : ExceptionEntry where
  id := id
  name := nameOf fields
  deprecated := isDeprecated fields

def catalog (d : Draft) : Catalog where
  licenses := d.licenses.map fun (id, fields) => (id, d.licenseEntry id fields)
  exceptions := d.exceptions.map fun (id, fields) => (id, exceptionEntry id fields)

end Draft

/-- The catalog of a base document with a user document over it, or everything that is wrong. -/
def build (base : Table) (user : Option Table) : Except (List Problem) Catalog :=
  let d := Draft.ofDocuments base user
  if d.allProblems.isEmpty then .ok d.catalog else .error d.allProblems

end Licensing.Catalog
