/-!
How much of the space of identifiers an expression may use.
-/

namespace Licensing

inductive Strictness where
  /-- All; one that the catalog does not list is carried as it is written. -/
  | allowAny
  /-- Those of the catalog, and others that are marked as custom. -/
  | allowDeprecated
  /-- As before, without the deprecated ones of the catalog. -/
  | allowCurrent
  deriving DecidableEq, Repr

namespace Strictness

def all : List Strictness :=
  [allowAny, allowDeprecated, allowCurrent]

def name : Strictness → String
  | allowAny => "allow-any"
  | allowDeprecated => "allow-deprecated"
  | allowCurrent => "allow-current"

/-- The setting of a name. -/
def ofName? (name : String) : Option Strictness :=
  all.find? fun strictness => strictness.name = name

@[simp] theorem ofName?_name (strictness : Strictness) :
    ofName? strictness.name = some strictness := by
  cases strictness <;> decide

/-- What is said of a name that no setting has; the name is given as it is to be shown. -/
def unknownNameMessage (shown : String) : String :=
  shown ++ " is not a valid Strictness"

end Strictness

end Licensing
