/-!
The limit on the decimal digits of an integer, which holds both when an integer is read and when it
is shown.
-/

namespace Licensing.Decimal

/-- The most decimal digits with which an integer is read or shown. -/
def digitLimit : Nat := 4300

/-- What is said of an integer over the limit; one that was to be read is said to have so many
digits. -/
def overLimitMessage (digits : Option Nat) : String :=
  "Exceeds the limit (" ++ toString digitLimit ++ " digits) for integer string conversion" ++
    digits.elim "" (fun n => ": value has " ++ toString n ++ " digits") ++
    "; use sys.set_int_max_str_digits() to increase the limit"

/-- The least number with more digits. It is too large to be worked out whenever two terms are
compared, and is unfolded nowhere. -/
@[irreducible] def leastOversized : Nat := Nat.pow 10 digitLimit

/-- Whether an integer can be shown. -/
def showable (n : Int) : Bool :=
  n.natAbs < leastOversized

theorem showable_leastOversized : showable leastOversized = false := by
  simp [showable]

end Licensing.Decimal
