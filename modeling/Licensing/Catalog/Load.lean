import Licensing.Catalog.Builtin
import Licensing.Log.Event
import Licensing.Toml.Document

/-!
Loading a catalog from files. The bytes of a file may hold no text, or text that is no document, or
an integer that is too long to be read, or a document with problems; `LoadError` keeps them apart.
-/

namespace Licensing.Catalog

open Log (Logged)

/-- A file with catalog data: its path as it is shown, and what its bytes hold. -/
structure Source where
  path : String
  content : Toml.Content

inductive LoadError where
  /-- The bytes of a file are not UTF-8. -/
  | undecodable
  /-- The text of the file at a path is no document. -/
  | malformed (path : String)
  /-- An integer in a file has too many digits. -/
  | oversized (digits : Nat)
  | invalid (problems : List Problem)
  deriving DecidableEq, Repr

/-- A count of flaws and the flaws themselves, one on a line. -/
def reportFlaws (flaws : List String) : String :=
  "License catalog has " ++ toString flaws.length ++ " validation error(s):\n" ++
    String.intercalate "\n" (flaws.map ("  - " ++ ·))

def LoadError.message : LoadError → Option String
  | undecodable => none
  | malformed path => some (reportFlaws [path ++ ": invalid TOML"])
  | oversized digits => some (Decimal.overLimitMessage digits)
  | invalid problems => some (reportFlaws (problems.map Problem.message))

def Source.document (s : Source) : Except LoadError Toml.Table :=
  match s.content with
  | .undecodable => .error .undecodable
  | .flawed .malformed => .error (.malformed s.path)
  | .flawed (.oversized digits) => .error (.oversized digits)
  | .document t => .ok t

/-- The catalog of a base file, or of the built-in document, with the user's file over it. -/
def ofSources (base user : Option Source) : Except LoadError Catalog :=
  match base.elim (.ok builtinDocument) Source.document with
  | .error e => .error e
  | .ok baseDocument =>
    match user with
    | none => (build baseDocument none).mapError .invalid
    | some source =>
      match source.document with
      | .error e => .error e
      | .ok userDocument => (build baseDocument (some userDocument)).mapError .invalid

/-- The catalog of the given files. Success is reported with the number of entries. -/
def load (base user : Option Source) : Logged (Except LoadError Catalog) :=
  match ofSources base user with
  | .ok c =>
    ⟨.ok c, [.catalogLoaded c.licenses.length c.exceptions.length (user.map Source.path)]⟩
  | .error e => ⟨.error e, []⟩

end Licensing.Catalog
