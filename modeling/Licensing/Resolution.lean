import Licensing.Expr.Build
import Licensing.Log.Event
import Licensing.ParseError
import Licensing.Strictness

/-!
What an identifier of an expression stands for. The answer depends on the catalog, on the strictness
and on the role of the identifier: right of `WITH` it names an exception, anywhere else a license.
An identifier that is accepted is reported when it is deprecated or not listed; one that is refused
is not.
-/

namespace Licensing

/-- What identifiers are resolved with. -/
structure Lookup where
  catalog : Catalog
  strictness : Strictness := .allowAny

namespace Lookup

open Log (Event)
open ParseError (Cause Objection)

/-- The beginnings that mark an identifier as a custom one. -/
def customPrefixes : List String :=
  ["LicenseRef-", "AdditionRef-", "DocumentRef-"]

def isCustom (value : String) : Bool :=
  customPrefixes.any (Text.hasPrefix value ·)

/-- Whether an identifier that the catalog does not list is accepted. -/
def acceptsUnknown (k : Lookup) (value : String) : Bool :=
  k.strictness == .allowAny || isCustom value

/-- The event of a listed identifier, if it is accepted. -/
def accept (k : Lookup) (value : String) (position : Nat) (deprecated : Bool) :
    Except Objection (Option Event) :=
  if !deprecated then .ok none
  else if k.strictness = .allowCurrent then .error ⟨position, .deprecatedNotAllowed value⟩
  else .ok (some (.deprecatedIdentifier value position))

/-- What an identifier was resolved to, if it is accepted, with its event. -/
def accepting {α : Type} (k : Lookup) (value : String) (position : Nat) (deprecated : Bool)
    (found : α) : Except Objection (α × Option Event) :=
  (k.accept value position deprecated).map fun event => (found, event)

/-- The license of an identifier with a `+`: the deprecated entry that has the `+` itself, or else
the deprecated entry without it. -/
def resolvePlus (k : Lookup) (value : String) (position : Nat) :
    Except Objection (License × Option Event) :=
  let marked := (k.catalog.license? (value ++ plusSuffix)).filter (·.deprecated)
  let plain := (k.catalog.license? value).filter (·.deprecated)
  match marked, plain with
  | some entry, _ => k.accepting value position true entry.leaf
  | none, some entry => k.accepting value position true (.listed entry.id true true)
  | none, none => .error ⟨position + value.length, .plusNotAllowed value⟩

/-- The license of an identifier in license position. -/
def resolveLicense (k : Lookup) (value : String) (orLater : Bool) (position : Nat) :
    Except Objection (License × Option Event) :=
  if orLater then k.resolvePlus value position
  else if (k.catalog.exception? value).isSome then
    .error ⟨position, .exceptionAsLicense value⟩
  else
    match k.catalog.license? value with
    | some entry => k.accepting value position entry.deprecated entry.leaf
    | none =>
      if k.acceptsUnknown value then
        .ok (.reference value, some (.unknownLicense value position))
      else .error ⟨position, .unknownNotAllowed value⟩

/-- The exception of an identifier right of `WITH`. -/
def resolveException (k : Lookup) (value : String) (orLater : Bool) (position : Nat) :
    Except Objection (LicenseException × Option Event) :=
  if orLater then .error ⟨position + value.length, .plusOnException value⟩
  else if (k.catalog.license? value).isSome then .error ⟨position, .licenseAsException value⟩
  else
    match k.catalog.exception? value with
    | some entry => k.accepting value position entry.deprecated entry.leaf
    | none =>
      if k.acceptsUnknown value then
        .ok (⟨value, false⟩, some (.unknownException value position))
      else .error ⟨position, .unknownNotAllowed value⟩

end Lookup

end Licensing
