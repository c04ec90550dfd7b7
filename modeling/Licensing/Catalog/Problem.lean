import Licensing.Toml.Value

/-!
What can be wrong with the data of a catalog. Each problem is a cause of its own; `Problem.message`
words it.
-/

namespace Licensing.Catalog

/-- The two tables of a catalog document. -/
inductive Part where
  | licenses
  | exceptions
  deriving DecidableEq, Repr

def Part.name : Part → String
  | licenses => "licenses"
  | exceptions => "exceptions"

inductive Problem where
  /-- A part of the document is there and is no table. -/
  | partNotTable (part : Part) (kind : String)
  | entryNotTable (part : Part) (id kind : String)
  | nameMissing (part : Part) (id : String)
  | nameNotText (part : Part) (id kind : String)
  | flagNotBoolean (part : Part) (id flag kind : String)
  /-- An identifier is empty or has a blank in it. -/
  | blankIdentifier (part : Part) (id : String)
  /-- A license identifier ends in `+` and is not deprecated. -/
  | plusNotDeprecated (id : String)
  /-- An identifier is in both parts. -/
  | listedTwice (id : String)
  deriving DecidableEq, Repr

namespace Problem

/-- The place of an entry in a document. -/
def place (part : Part) (id : String) : String :=
  "[" ++ part.name ++ ".\"" ++ id ++ "\"]"

def message : Problem → String
  | partNotTable part kind => "\"" ++ part.name ++ "\" must be a table, got " ++ kind
  | entryNotTable part id kind => place part id ++ ": expected a table, got " ++ kind
  | nameMissing part id => place part id ++ ": missing required field \"name\""
  | nameNotText part id kind => place part id ++ ".name: expected string, got " ++ kind
  | flagNotBoolean part id flag kind =>
    place part id ++ "." ++ flag ++ ": expected bool, got " ++ kind
  | blankIdentifier part id =>
    place part id ++ ": identifier must be non-empty and contain no whitespace"
  | plusNotDeprecated id => place .licenses id ++ ": only deprecated ids may end with \"+\""
  | listedTwice id => "\"" ++ id ++ "\" is registered as both a license and an exception"

end Problem

end Licensing.Catalog
