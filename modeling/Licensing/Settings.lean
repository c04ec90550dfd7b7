import Licensing.Catalog.Load
import Licensing.Files
import Licensing.NormalForm.Basic
import Licensing.Reference
import Licensing.Strictness

/-!
Settings of a project, read from a file of their own or from a table of a project file. A table is
accepted when all its keys are known and every value that is given is of the right kind; the first
check that fails is the error, and a key that is not given has its default.
-/

namespace Licensing

open Toml (Value Table)

structure Settings where
  /-- The scanner names that references may carry. -/
  namespaces : List String := Reference.defaultNamespaces
  /-- A file with entries that are laid over the built-in catalog. -/
  overrides : Option FilePath := none
  /-- The number of clauses above which a normal form is reported. -/
  threshold : Int := NormalForm.defaultThreshold
  strictness : Strictness := .allowAny
  /-- The file that the settings were read from. -/
  source : Option FilePath := none
  deriving DecidableEq, Repr

namespace Settings

/-- Whether the settings are the default ones, wherever they come from. -/
def isDefault (s : Settings) : Bool :=
  { s with source := none } == ({} : Settings)

/-- Why the settings in a file are refused. -/
inductive Cause where
  | notFound
  | malformed
  | toolNotTable
  | sectionNotTable
  | unknownKeys (keys : List String)
  | namespacesInvalid
  | overridesNotText (kind : String)
  | overridesMissing (resolved : FilePath)
  | thresholdInvalid
  | strictnessInvalid (shown : String)
  deriving DecidableEq, Repr

def Cause.detail : Cause → String
  | notFound => "config file not found"
  | malformed => "invalid TOML"
  | toolNotTable => "[tool] must be a table"
  | sectionNotTable => "[tool.licensekit] must be a table"
  | unknownKeys keys => "unknown key(s): " ++ String.intercalate ", " keys
  | namespacesInvalid => "scanner_namespaces: expected a list of non-empty strings"
  | overridesNotText kind => "catalog_overrides: expected string, got " ++ kind
  | overridesMissing resolved => "catalog_overrides: " ++ resolved.text ++ " does not exist"
  | thresholdInvalid => "warn_clause_threshold: expected a positive integer"
  | strictnessInvalid shown =>
    "strictness: " ++ shown ++ " is not one of " ++
      String.intercalate ", " (Strictness.all.map Strictness.name)

/-- Why there are no settings. -/
inductive Failure where
  /-- The bytes of the file are not UTF-8. -/
  | undecodable
  /-- An integer in the file has too many digits to be read. -/
  | oversized (digits : Nat)
  /-- A value that is refused has an integer with too many digits to be shown. -/
  | unshowable
  | unreachable (path : FilePath) (obstacle : Obstacle)
  | refused (path : FilePath) (cause : Cause)
  deriving DecidableEq, Repr

/-- The failure in words; a file that is no text is reported without any. -/
def Failure.message : Failure → Option String
  | undecodable => none
  | oversized digits => some (Decimal.overLimitMessage digits)
  | unshowable => some (Decimal.overLimitMessage none)
  | unreachable path obstacle => some (obstacle.message path)
  | refused path cause => some (path.text ++ ": " ++ cause.detail)

def namespacesKey : String := "scanner_namespaces"

def overridesKey : String := "catalog_overrides"

def thresholdKey : String := "warn_clause_threshold"

def strictnessKey : String := "strictness"

def knownKeys : List String :=
  [namespacesKey, overridesKey, thresholdKey, strictnessKey]

def unknownKeys (t : Table) : List String :=
  (t.names.filter fun key => !knownKeys.contains key).mergeSort fun a b => a ≤ b

/-- The texts in an array of texts none of which is empty. -/
def nonEmptyTexts? (v : Value) : Option (List String) :=
  match v with
  | .array items => items.mapM fun item => item.text?.filter (· ≠ "")
  | _ => none

/-- The scanner names of a table. -/
def namespacesOf (t : Table) : Except Cause (List String) :=
  match t.get? namespacesKey with
  | none => .ok Reference.defaultNamespaces
  | some v =>
    match nonEmptyTexts? v with
    | some names => .ok names
    | none => .error .namespacesInvalid

/-- The number of clauses of a table: an integer from one on. -/
def thresholdOf (t : Table) : Except Cause Int :=
  match t.get? thresholdKey with
  | none => .ok NormalForm.defaultThreshold
  | some (.integer n) => if 1 ≤ n then .ok n else .error .thresholdInvalid
  | some _ => .error .thresholdInvalid

/-- The strictness of a table. -/
def strictnessOf (path : FilePath) (t : Table) : Except Failure Strictness :=
  match t.get? strictnessKey with
  | none => .ok .allowAny
  | some v =>
    match v.text?.bind Strictness.ofName? with
    | some strictness => .ok strictness
    | none =>
      if v.showable then .error (.refused path (.strictnessInvalid v.display))
      else .error .unshowable

def lookUp (tree : FileTree) (path : FilePath) : Except Failure (Option ByteArray) :=
  (tree.file? path).mapError (.unreachable path)

/-- The file of overrides of a table, which has to be there. A relative path is taken from the
directory of the settings. -/
def overridesOf (tree : FileTree) (path : FilePath) (t : Table) :
    Except Failure (Option FilePath) :=
  match t.get? overridesKey with
  | none => .ok none
  | some (.text written) =>
    let named := path.parent.descend written
    let resolved := named.resolve
    if named.hasZero then .error (.unreachable named .zeroCharacter)
    else
      match lookUp tree resolved with
      | .error failure => .error failure
      | .ok (some _) => .ok (some resolved)
      | .ok none => .error (.refused path (.overridesMissing resolved))
  | some other => .error (.refused path (.overridesNotText other.kindName))

def ofTable (tree : FileTree) (path : FilePath) (t : Table) : Except Failure Settings := do
  if unknownKeys t ≠ [] then .error (.refused path (.unknownKeys (unknownKeys t)))
  let namespaces ← (namespacesOf t).mapError (.refused path)
  let overrides ← overridesOf tree path t
  let threshold ← (thresholdOf t).mapError (.refused path)
  let strictness ← strictnessOf path t
  return { namespaces, overrides, threshold, strictness, source := some path }

/-- The name of a file with nothing but settings. -/
def fileName : String := "licensekit.toml"

/-- The name of a project file, which has the settings in a table. -/
def projectFileName : String := "pyproject.toml"

/-- The table of settings of a document; in a project file there may be none. -/
def tableOf (path : FilePath) (document : Table) : Except Cause (Option Table) :=
  if path.name = projectFileName then
    match document.get? "tool" with
    | none => .ok none
    | some (.table tool) =>
      match Listing.get? tool "licensekit" with
      | none => .ok none
      | some (.table t) => .ok (some t)
      | some _ => .error .sectionNotTable
    | some _ => .error .toolNotTable
  else .ok (some document)

def ofBytes (tree : FileTree) (path : FilePath) (bytes : ByteArray) : Except Failure Settings :=
  match Toml.readBytes bytes with
  | .undecodable => .error .undecodable
  | .flawed .malformed => .error (.refused path .malformed)
  | .flawed (.oversized digits) => .error (.oversized digits)
  | .document document =>
    match tableOf path document with
    | .error cause => .error (.refused path cause)
    | .ok none => .ok {}
    | .ok (some t) => ofTable tree path t

def ofFile (tree : FileTree) (path : FilePath) : Except Failure Settings :=
  match lookUp tree path with
  | .error failure => .error failure
  | .ok none => .error (.refused path .notFound)
  | .ok (some bytes) => ofBytes tree path bytes

/-- The first of some paths at which a file stands, with its bytes. -/
def firstFile? (tree : FileTree) : List FilePath → Except Failure (Option (FilePath × ByteArray))
  | [] => .ok none
  | path :: rest =>
    match lookUp tree path with
    | .error failure => .error failure
    | .ok (some bytes) => .ok (some (path, bytes))
    | .ok none => firstFile? tree rest

/-- The places in a directory where settings are looked for: a file of their own, then the project
file. -/
def candidates (directory : FilePath) : List FilePath :=
  [directory.descend fileName, directory.descend projectFileName]

/-- The settings for a directory; without a file they are the default ones. -/
def ofDirectory (tree : FileTree) (directory : FilePath) : Except Failure Settings :=
  match firstFile? tree (candidates directory) with
  | .error failure => .error failure
  | .ok none => .ok {}
  | .ok (some (path, bytes)) => ofBytes tree path bytes

open Log (Logged)

/-- Why there is no catalog for some settings. -/
inductive CatalogFailure where
  | unreachable (path : FilePath) (obstacle : Obstacle)
  | load (e : Catalog.LoadError)
  deriving DecidableEq, Repr

/-- The catalog that the settings describe. The file of overrides is read anew, and may be gone or
be a directory by then. -/
def catalog (tree : FileTree) (s : Settings) : Logged (Except CatalogFailure Catalog) :=
  match s.overrides with
  | none => pure (.ok Catalog.builtin)
  | some path =>
    match tree.read path with
    | .error obstacle => pure (.error (.unreachable path obstacle))
    | .ok bytes => do
      let loaded ← Catalog.load none (some ⟨path.text, Toml.readBytes bytes⟩)
      return loaded.mapError .load

end Settings

end Licensing
