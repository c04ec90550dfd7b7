import Licensing.Decimal.Double

/-!
The shortest decimal that reads back as a given number. For one digit, two digits and so on up to
seventeen, the two neighbours of the number on the grid of decimals with that many digits are
compared with the interval of reals that round to the number; the first grid with a neighbour in the
interval gives the digits.
-/

namespace Licensing.Decimal

/-- The reals that round to a number, as multiples of one unit: `value / unit` is the number itself,
and the ends belong to the interval when `closed` holds. -/
structure Interval where
  low : Nat
  value : Nat
  high : Nat
  unit : Nat
  closed : Bool

namespace Interval

/-- The interval of a positive number. Below a power of two the gap is half as wide as above. -/
def ofDouble (significand : Nat) (exponent : Int) : Interval :=
  let lowGap := if significand = Nat.pow 2 52 ∧ -1074 < exponent then 1 else 2
  let factor := Nat.pow 2 (exponent - 2).toNat
  { low := (4 * significand - lowGap) * factor
    value := 4 * significand * factor
    high := (4 * significand + 2) * factor
    unit := Nat.pow 2 (2 - exponent).toNat
    closed := significand % 2 == 0 }

/-- The interval with `10 ^ place` as the new one. -/
def shift (i : Interval) (place : Int) : Interval :=
  let factor := Nat.pow 10 (-place).toNat
  { i with
    low := i.low * factor
    value := i.value * factor
    high := i.high * factor
    unit := i.unit * Nat.pow 10 place.toNat }

/-- Whether an integer lies in the interval. -/
def has (i : Interval) (n : Nat) : Bool :=
  let scaled := n * i.unit
  if i.closed then i.low ≤ scaled && scaled ≤ i.high else i.low < scaled && scaled < i.high

/-- The integer of the interval that is nearest to the number, among the two beside it. -/
def nearest? (i : Interval) : Option Nat :=
  let floor := i.value / i.unit
  match i.has floor, i.has (floor + 1) with
  | false, false => none
  | true, false => some floor
  | false, true => some (floor + 1)
  | true, true => some (roundHalfEven i.value i.unit)

/-- The least `p` from `-330` on with the number below `10 ^ p`. -/
def pointPosition (i : Interval) : Int :=
  let candidates : List Int := (List.range 660).map fun (n : Nat) => (n : Int) - 330
  (candidates.find? fun p =>
    let (below, above) := scale 10 i.unit 1 p
    i.value * above < below).getD 330

end Interval

/-- Significant digits without trailing zeros, and the position of the point before them: the value
is `0.d₁d₂… * 10 ^ point`. -/
structure Digits where
  digits : List Char
  point : Int
  deriving DecidableEq, Repr

/-- The digits of an integer times `10 ^ place`. -/
def Digits.ofNat (n : Nat) (place : Int) : Digits :=
  let digits := Nat.toDigits 10 n
  { digits := (digits.reverse.dropWhile (· = '0')).reverse
    point := digits.length + place }

/-- The shortest digits that read back as a positive number, the nearest ones of those. -/
def shortest (significand : Nat) (exponent : Int) : Digits :=
  let interval := Interval.ofDouble significand exponent
  let point := interval.pointPosition
  let found := (List.range' 1 17).findSome? fun (count : Nat) =>
    let place := point - count
    (interval.shift place).nearest?.map (Digits.ofNat · place)
  found.getD (Digits.ofNat (interval.value / interval.unit) 0)

end Licensing.Decimal
