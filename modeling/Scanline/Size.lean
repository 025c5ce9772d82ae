/-!
# Sizes

Counts, offsets and byte amounts are 64-bit words.  They are held as natural numbers below
`Size.bound`, and arithmetic on them is that of the natural numbers.  A result that is not below
the bound is no size: the operations of this module then have no answer, or the largest size.
-/

namespace Scanline.Size

/-- One more than the largest size. -/
def bound : Nat := 1 <<< 64

/-- The largest size. -/
def largest : Nat := bound - 1

/-- The sum of two sizes, if it is a size. -/
def add? (a b : Nat) : Option Nat := if a + b < bound then some (a + b) else none

/-- The product of two sizes, if it is a size. -/
def mul? (a b : Nat) : Option Nat := if a * b < bound then some (a * b) else none

/-- The product of two sizes, or the largest size where the product exceeds it. -/
def satMul (a b : Nat) : Nat := min (a * b) largest

theorem mul?_eq_some_iff {a b n : Nat} : mul? a b = some n ↔ a * b < bound ∧ a * b = n := by
  unfold mul?; split <;> simp <;> omega

end Scanline.Size
