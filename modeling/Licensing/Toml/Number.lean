import Licensing.Toml.Value

/-!
Numbers, dates and times as they are written in a document. Each reader takes the characters from
its place on and gives the value with the characters after it; a reader that finds nothing of its
kind gives `none`. Among the alternatives the longest form is tried first, so that a date is not
read as a number.

An integer in decimal digits may be too long to be read. That is a flaw of its own, since the
document may well be correct.
-/

namespace Licensing.Toml

/-- Why reading a document ends early. -/
inductive Flaw where
  | malformed
  /-- An integer is written with so many decimal digits that it is not read. -/
  | oversized (digits : Nat)
  deriving DecidableEq, Repr

/-- What was read, where nothing else may stand. -/
def orMalformed {α : Type} (read : Option α) : Except Flaw α :=
  read.elim (.error .malformed) .ok

/-- The value of a digit in a base up to sixteen. -/
def digitValue (c : Char) : Nat :=
  if c.isDigit then c.toNat - '0'.toNat
  else if 'a' ≤ c ∧ c ≤ 'f' then c.toNat - 'a'.toNat + 10
  else c.toNat - 'A'.toNat + 10

/-- The number that digits of a base write. -/
def ofDigits (base : Nat) (digits : List Char) : Nat :=
  digits.foldl (fun n c => base * n + digitValue c) 0

def isHexDigit (c : Char) : Bool :=
  c.isDigit || ('a' ≤ c && c ≤ 'f') || ('A' ≤ c && c ≤ 'F')

def isOctalDigit (c : Char) : Bool :=
  '0' ≤ c && c ≤ '7'

def isBinaryDigit (c : Char) : Bool :=
  c == '0' || c == '1'

/-- Digits that may have single underscores before them. -/
def moreDigits (isDigit : Char → Bool) : List Char → List Char × List Char
  | '_' :: c :: rest =>
    if isDigit c then
      let (digits, after) := moreDigits isDigit rest
      (c :: digits, after)
    else ([], '_' :: c :: rest)
  | c :: rest =>
    if isDigit c then
      let (digits, after) := moreDigits isDigit rest
      (c :: digits, after)
    else ([], c :: rest)
  | [] => ([], [])

/-- At least one digit, with single underscores between digits left out. -/
def digitRun (isDigit : Char → Bool) : List Char → Option (List Char × List Char)
  | c :: rest =>
    if isDigit c then
      let (digits, after) := moreDigits isDigit rest
      some (c :: digits, after)
    else none
  | [] => none

/-- A sign, which may be missing: whether it is a minus sign. -/
def sign : List Char → Bool × List Char
  | '-' :: rest => (true, rest)
  | '+' :: rest => (false, rest)
  | cs => (false, cs)

/-- A whole number with a base mark, which has no sign. -/
def basedInteger : List Char → Option (Value × List Char)
  | '0' :: 'x' :: rest => based 16 isHexDigit rest
  | '0' :: 'o' :: rest => based 8 isOctalDigit rest
  | '0' :: 'b' :: rest => based 2 isBinaryDigit rest
  | _ => none
where
  based (base : Nat) (isDigit : Char → Bool) (cs : List Char) : Option (Value × List Char) := do
    let (digits, rest) ← digitRun isDigit cs
    return (.integer (ofDigits base digits), rest)

/-- The digits before the point: no other digit follows a zero at their start. -/
def wholePart : List Char → Option (List Char × List Char)
  | '0' :: rest => some (['0'], rest)
  | cs => digitRun Char.isDigit cs

/-- A point with digits after it, which may be missing. -/
def fractionPart : List Char → List Char × List Char
  | '.' :: rest => (digitRun Char.isDigit rest).getD ([], '.' :: rest)
  | cs => ([], cs)

/-- An exponent, which may be missing. -/
def exponentPart (cs : List Char) : Option Int × List Char :=
  match cs with
  | c :: rest =>
    if c = 'e' ∨ c = 'E' then
      let (negative, unsigned) := sign rest
      match digitRun Char.isDigit unsigned with
      | some (digits, after) =>
        let n : Int := ofDigits 10 digits
        (some (if negative then -n else n), after)
      | none => (none, cs)
    else (none, cs)
  | [] => (none, cs)

/-- A decimal number: a whole one unless it has a fraction or an exponent. -/
def decimalNumber (cs : List Char) : Except Flaw (Value × List Char) := do
  let (negative, unsigned) := sign cs
  let (whole, afterWhole) ← orMalformed (wholePart unsigned)
  let (fraction, afterFraction) := fractionPart afterWhole
  let (exponent, rest) := exponentPart afterFraction
  if fraction.isEmpty && exponent.isNone then
    if Decimal.digitLimit < whole.length then .error (.oversized whole.length)
    else
      let n : Int := ofDigits 10 whole
      return (.integer (if negative then -n else n), rest)
  else
    let digits := ofDigits 10 (whole ++ fraction)
    return (.float (.ofDecimal negative digits (exponent.getD 0 - fraction.length)), rest)

/-- The numbers that are named and not written in digits. -/
def namedNumber (cs : List Char) : Option (Value × List Char) :=
  let (negative, unsigned) := sign cs
  match unsigned with
  | 'i' :: 'n' :: 'f' :: rest => some (.float (.infinite negative), rest)
  | 'n' :: 'a' :: 'n' :: rest => some (.float .notANumber, rest)
  | _ => none

/-- A fixed number of decimal digits. -/
def fixedDigits (count : Nat) (cs : List Char) : Option (Nat × List Char) :=
  let digits := cs.take count
  if digits.length = count ∧ digits.all Char.isDigit then some (ofDigits 10 digits, cs.drop count)
  else none

/-- Two digits that write a number below a bound. -/
def twoDigits (bound : Nat) (cs : List Char) : Option (Nat × List Char) := do
  let (n, rest) ← fixedDigits 2 cs
  if n < bound then return (n, rest) else none

/-- One character that has to stand here. -/
def expect (c : Char) : List Char → Option (List Char)
  | other :: rest => if other = c then some rest else none
  | [] => none

/-- The fraction of a second in microseconds; digits beyond the sixth are dropped. -/
def microseconds : List Char → Nat × List Char
  | '.' :: rest =>
    let digits := rest.takeWhile Char.isDigit
    if digits.isEmpty then (0, '.' :: rest)
    else (ofDigits 10 ((digits.take 6).rightpad 6 '0'), rest.dropWhile Char.isDigit)
  | cs => (0, cs)

def timeOfDay (cs : List Char) : Option (Time × List Char) := do
  let (hour, rest) ← twoDigits 24 cs
  let rest ← expect ':' rest
  let (minute, rest) ← twoDigits 60 rest
  let rest ← expect ':' rest
  let (second, rest) ← twoDigits 60 rest
  let (microsecond, rest) := microseconds rest
  return (⟨hour, minute, second, microsecond⟩, rest)

def calendarDate (cs : List Char) : Option (Date × List Char) := do
  let (year, rest) ← fixedDigits 4 cs
  let rest ← expect '-' rest
  let (month, rest) ← fixedDigits 2 rest
  let rest ← expect '-' rest
  let (day, rest) ← fixedDigits 2 rest
  let date : Date := ⟨year, month, day⟩
  if date.valid then return (date, rest) else none

/-- An offset from universal time, in minutes. -/
def utcOffset : List Char → Option (Int × List Char)
  | [] => none
  | c :: rest =>
    if c = 'Z' ∨ c = 'z' then some (0, rest)
    else if c = '+' ∨ c = '-' then do
      let (hours, rest) ← twoDigits 24 rest
      let rest ← expect ':' rest
      let (minutes, rest) ← twoDigits 60 rest
      let total : Int := 60 * hours + minutes
      return (if c = '-' then -total else total, rest)
    else none

/-- A date, with the time of day and the offset that may follow it. -/
def dateOrDateTime (cs : List Char) : Option (Value × List Char) := do
  let (date, rest) ← calendarDate cs
  match rest with
  | c :: afterMark =>
    if c = 'T' ∨ c = 't' ∨ c = ' ' then
      match timeOfDay afterMark with
      | none => return (.date date, rest)
      | some (time, afterTime) =>
        match utcOffset afterTime with
        | none => return (.dateTime ⟨date, time, none⟩, afterTime)
        | some (offset, afterOffset) => return (.dateTime ⟨date, time, some offset⟩, afterOffset)
    else return (.date date, rest)
  | [] => return (.date date, rest)

def truthValue : List Char → Option (Value × List Char)
  | 't' :: 'r' :: 'u' :: 'e' :: rest => some (.boolean true, rest)
  | 'f' :: 'a' :: 'l' :: 's' :: 'e' :: rest => some (.boolean false, rest)
  | _ => none

/-- A truth value, a date, a time or a number. -/
def plainValue (cs : List Char) : Except Flaw (Value × List Char) :=
  match truthValue cs <|> dateOrDateTime cs <|>
    (timeOfDay cs).map (fun read => (.time read.1, read.2)) <|>
    basedInteger cs <|> namedNumber cs with
  | some read => .ok read
  | none => decimalNumber cs

end Licensing.Toml
