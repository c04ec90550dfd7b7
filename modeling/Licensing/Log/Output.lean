import Licensing.Log.Event

/-!
What a log shows: the messages whose level reaches the threshold that the options choose, each as a
record of its fields together with the event's name, its level and the logger. The time at which a
message is written is no part of the record here.
-/

namespace Licensing.Log

structure Options where
  verbose : Bool := false
  quiet : Bool := false
  json : Bool := false
  deriving DecidableEq, Repr

/-- The least level that is shown. Silence wins over detail. -/
def Options.threshold (options : Options) : Level :=
  if options.quiet then .warning
  else if options.verbose then .debug
  else .info

structure Message (ω : Type) where
  level : Level
  event : String
  fields : Listing (Field ω)

variable {ω : Type}

def Options.shown (options : Options) (messages : List (Message ω)) : List (Message ω) :=
  messages.filter fun message => options.threshold.weight ≤ message.level.weight

/-- The names of fields that the log fills or uses itself; what a message has under them is not
shown. -/
def reservedFields : List String :=
  ["timestamp", "stack_info", "_record", "_from_structlog"]

/-- The record of a message, its long texts cut. -/
def Message.record (logger : String) (message : Message ω) : Listing (Field ω) :=
  let own : Listing (Field ω) := message.fields.filter fun field => !reservedFields.contains field.1
  truncate (((own.put eventKey (.text message.event)).put "level"
    (.text message.level.name)).put "logger" (.text logger))

end Licensing.Log
