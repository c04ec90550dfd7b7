import Licensing.Log.Truncation

/-!
The events that reading, normalizing and loading report, and values that come with the events
reported on the way to them. Events are part of a result, in the order in which they were reported,
also when the result is an error.
-/

namespace Licensing.Log

inductive Level where
  | debug | info | warning | error | critical
  deriving DecidableEq, Repr

namespace Level

def name : Level → String
  | debug => "debug"
  | info => "info"
  | warning => "warning"
  | error => "error"
  | critical => "critical"

/-- The weight of a level: a threshold lets through the levels of at least its own weight. -/
def weight : Level → Nat
  | debug => 10
  | info => 20
  | warning => 30
  | error => 40
  | critical => 50

end Level

inductive Event where
  /-- An identifier in license position that the catalog does not list. -/
  | unknownLicense (identifier : String) (position : Nat)
  /-- An identifier in exception position that the catalog does not list. -/
  | unknownException (identifier : String) (position : Nat)
  /-- An identifier that the catalog lists as deprecated. -/
  | deprecatedIdentifier (identifier : String) (position : Nat)
  /-- A catalog was read from files. -/
  | catalogLoaded (licenses exceptions : Nat) (userFile : Option String)
  /-- A normal form has more clauses than the caller wants. -/
  | largeNormalForm (clauses : Nat) (threshold : Int) (expression : String)
  deriving DecidableEq, Repr

namespace Event

def name : Event → String
  | unknownLicense .. => "unknown_license_identifier"
  | unknownException .. => "unknown_exception_identifier"
  | deprecatedIdentifier .. => "deprecated_identifier"
  | catalogLoaded .. => "catalog_loaded"
  | largeNormalForm .. => "normalized_form_large"

def level : Event → Level
  | largeNormalForm .. => .warning
  | _ => .debug

/-- The fields of an event; a field that is no text is a number or empty. -/
def fields : Event → Listing (Field (Option Int))
  | unknownLicense identifier position | unknownException identifier position
  | deprecatedIdentifier identifier position =>
    [("identifier", .text identifier), ("position", .other (some position))]
  | catalogLoaded licenses exceptions userFile =>
    [("licenses", .other (some licenses)), ("exceptions", .other (some exceptions)),
      ("user_toml", userFile.elim (.other none) .text)]
  | largeNormalForm clauses threshold expression =>
    [("clauses", .other (some clauses)), ("threshold", .other (some threshold)),
      ("expression", .text expression)]

end Event

/-- A value with the events that were reported on the way to it. -/
structure Logged (α : Type) where
  value : α
  events : List Event

namespace Logged

variable {α β : Type}

instance : Monad Logged where
  pure value := ⟨value, []⟩
  bind x f := ⟨(f x.value).value, x.events ++ (f x.value).events⟩

def report (event : Event) : Logged Unit := ⟨(), [event]⟩

@[simp] theorem value_pure (a : α) : (pure a : Logged α).value = a := rfl

@[simp] theorem value_bind (x : Logged α) (f : α → Logged β) :
    (x >>= f).value = (f x.value).value := rfl

end Logged

end Licensing.Log
