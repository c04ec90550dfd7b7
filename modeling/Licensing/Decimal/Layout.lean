import Licensing.Decimal.Shortest

/-!
How the shortest digits of a number are laid out as text. The decisions that differ from one format
to the next are the fields of `Layout`; `render` follows them.
-/

namespace Licensing.Decimal

/-- The decisions of one format. -/
structure Layout where
  /-- Powers of ten from here on are written without an exponent, … -/
  leastPlain : Int
  /-- … as long as they are below this one. -/
  plainBelow : Int
  /-- The least number of digits of an exponent. -/
  exponentWidth : Nat
  infinity : String
  notANumber : String

namespace Layout

/-- The digits with the point among them; a whole number ends in `.0`. -/
def plain (digits : List Char) (point : Int) : List Char :=
  if point ≤ 0 then '0' :: '.' :: (List.replicate (-point).toNat '0' ++ digits)
  else
    let whole := digits.take point.toNat
    let fraction := digits.drop point.toNat
    whole ++ List.replicate (point.toNat - digits.length) '0' ++
      '.' :: (if fraction.isEmpty then ['0'] else fraction)

/-- The digits with the point after the first one, and an exponent that always has its sign. -/
def scientific (layout : Layout) (digits : List Char) (exponent : Int) : List Char :=
  let sign := if exponent < 0 then '-' else '+'
  let fraction := digits.drop 1
  digits.take 1 ++ (if fraction.isEmpty then [] else '.' :: fraction) ++
    'e' :: sign :: (Nat.toDigits 10 exponent.natAbs).leftpad layout.exponentWidth '0'

/-- The text of a positive number from its shortest digits. -/
def digitText (layout : Layout) (d : Digits) : List Char :=
  if layout.leastPlain < d.point ∧ d.point ≤ layout.plainBelow then plain d.digits d.point
  else layout.scientific d.digits (d.point - 1)

def render (layout : Layout) : Double → String
  | .notANumber => layout.notANumber
  | .infinite negative => (if negative then "-" else "") ++ layout.infinity
  | .finite negative significand exponent =>
    let digits := if significand = 0 then ⟨['0'], 1⟩ else shortest significand exponent
    (if negative then "-" else "") ++ String.ofList (layout.digitText digits)

end Layout

end Licensing.Decimal
