/-!
Sets of characters given by closed intervals of code points. The tables of this folder are values of
this type, so that a table can be read against its standard line by line.
-/

namespace Licensing.Text

/-- A set of characters, as closed intervals of code points. -/
abbrev Charset := List (Nat × Nat)

namespace Charset

/-- Whether the character lies in one of the intervals. -/
def has (set : Charset) (c : Char) : Bool :=
  set.any fun interval => interval.1 ≤ c.toNat && c.toNat ≤ interval.2

theorem has_iff {set : Charset} {c : Char} :
    set.has c = true ↔ ∃ interval ∈ set, interval.1 ≤ c.toNat ∧ c.toNat ≤ interval.2 := by
  simp [has]

end Charset

end Licensing.Text
