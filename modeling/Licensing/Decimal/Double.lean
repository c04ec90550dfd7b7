/-!
Double-precision numbers as exact values, so that reading a decimal and writing one back are
computations on natural numbers. A finite number is an integer significand below `2 ^ 53` times a
power of two whose exponent is at least `-1074`.
-/

namespace Licensing.Decimal

/-- A double-precision number; the sign is kept for zero and for infinity. -/
inductive Double where
  | notANumber
  | infinite (negative : Bool)
  | finite (negative : Bool) (significand : Nat) (exponent : Int)
  deriving DecidableEq, Repr

/-- The fraction `num / den` as a quotient of two naturals times `base ^ exponent`. -/
def scale (base num den : Nat) (exponent : Int) : Nat × Nat :=
  (num * base.pow exponent.toNat, den * base.pow (-exponent).toNat)

/-- The integer nearest to `num / den`, the even one of two that are equally near. -/
def roundHalfEven (num den : Nat) : Nat :=
  let quotient := num / den
  let twice := 2 * (num % den)
  if twice < den then quotient
  else if den < twice then quotient + 1
  else quotient + quotient % 2

namespace Double

/-- The exponent of the last place of a number near `num / den`, both of them positive. -/
def lastPlace (num den : Nat) : Int :=
  let estimate : Int := (num.log2 : Int) - den.log2 - 52
  let (above, below) := scale 2 num den (-estimate)
  let place := if above < below * Nat.pow 2 52 then estimate - 1 else estimate
  if place < -1074 then -1074 else place

/-- The number nearest to the fraction `num / den`. -/
def ofFraction (negative : Bool) (num den : Nat) : Double :=
  if num = 0 then finite negative 0 0
  else
    let exponent := lastPlace num den
    let (above, below) := scale 2 num den (-exponent)
    let significand := roundHalfEven above below
    let (significand, exponent) :=
      if significand = Nat.pow 2 53 then (Nat.pow 2 52, exponent + 1) else (significand, exponent)
    if exponent ≤ 971 then finite negative significand exponent else infinite negative

/-- The number nearest to `digits * 10 ^ exponent`. Exponents far outside the range of finite
numbers are settled by the count of digits alone. -/
def ofDecimal (negative : Bool) (digits : Nat) (exponent : Int) : Double :=
  let magnitude : Int := (Nat.toDigits 10 digits).length + exponent
  if digits = 0 ∨ magnitude < -330 then finite negative 0 0
  else if 330 < magnitude then infinite negative
  else
    let (num, den) := scale 10 digits 1 exponent
    ofFraction negative num den

end Double

end Licensing.Decimal
