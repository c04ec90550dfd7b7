/-!
Dates and times of day as a document may give them. A date is one of the proleptic Gregorian
calendar from year 1 on; a time of day is kept to the microsecond; an offset from universal time is
counted in minutes.
-/

namespace Licensing.Toml

structure Date where
  year : Nat
  month : Nat
  day : Nat
  deriving DecidableEq, Repr

structure Time where
  hour : Nat
  minute : Nat
  second : Nat
  microsecond : Nat
  deriving DecidableEq, Repr

/-- A time of a day, with its offset from universal time in minutes unless it is a local one. -/
structure DateTime where
  date : Date
  time : Time
  offset : Option Int
  deriving DecidableEq, Repr

namespace Date

def isLeap (year : Nat) : Bool :=
  year % 4 == 0 && (year % 100 != 0 || year % 400 == 0)

def daysIn (year month : Nat) : Nat :=
  if month = 2 then (if isLeap year then 29 else 28)
  else if month ∈ [4, 6, 9, 11] then 30
  else 31

/-- Whether the calendar has the day. -/
def valid (d : Date) : Bool :=
  1 ≤ d.year && 1 ≤ d.month && d.month ≤ 12 && 1 ≤ d.day && d.day ≤ daysIn d.year d.month

end Date

/-- Numbers separated by commas. -/
def commaList (numbers : List Nat) : String :=
  String.intercalate ", " (numbers.map toString)

/-- The parts of a time that are shown: trailing zeros of microseconds and seconds are left out. -/
def Time.shownParts (t : Time) : List Nat :=
  if t.microsecond ≠ 0 then [t.hour, t.minute, t.second, t.microsecond]
  else if t.second ≠ 0 then [t.hour, t.minute, t.second]
  else [t.hour, t.minute]

def Date.display (d : Date) : String :=
  "datetime.date(" ++ commaList [d.year, d.month, d.day] ++ ")"

def Time.display (t : Time) : String :=
  "datetime.time(" ++ commaList t.shownParts ++ ")"

/-- An offset of no minutes is universal time itself; one to the west is shown as a day back and the
seconds forward from there. -/
def displayOffset (minutes : Int) : String :=
  if minutes = 0 then "datetime.timezone.utc"
  else
    let days := if minutes < 0 then "days=-1, " else ""
    "datetime.timezone(datetime.timedelta(" ++ days ++ "seconds=" ++
      toString (minutes * 60 % 86400) ++ "))"

def DateTime.display (d : DateTime) : String :=
  "datetime.datetime(" ++
    commaList ([d.date.year, d.date.month, d.date.day] ++ d.time.shownParts) ++
    (d.offset.elim "" fun minutes => ", tzinfo=" ++ displayOffset minutes) ++ ")"

end Licensing.Toml
