import Licensing.Listing

/-!
Log messages carry named fields. A long text in a field is cut to its first characters with a mark
after them, so that whole license texts do not end up in a log; the name of the event is never cut.
-/

namespace Licensing.Log

/-- The value of a field: a text, or a value of another kind, which is left as it is. -/
inductive Field (ω : Type) where
  | text (s : String)
  | other (value : ω)
  deriving DecidableEq, Repr

/-- The longest text that is kept whole, in characters. -/
def maxFieldLength : Nat := 200

/-- What stands after a text that was cut. -/
def truncationMark : String := "...[truncated]"

def eventKey : String := "event"

def truncateText (s : String) : String :=
  if maxFieldLength < s.length then String.ofList (s.toList.take maxFieldLength) ++ truncationMark
  else s

variable {ω : Type}

def Field.truncate : Field ω → Field ω
  | text s => text (truncateText s)
  | other value => other value

/-- All fields cut, except the name of the event. -/
def truncate (fields : Listing (Field ω)) : Listing (Field ω) :=
  fields.map fun (name, value) => (name, if name = eventKey then value else value.truncate)

end Licensing.Log
