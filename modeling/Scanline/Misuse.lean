import Scanline.Size

/-!
# Misuse

A misuse is a promise that a caller did not keep: a row that was not handed over, a window
beyond the ends of a row, or numbers whose sum, product or difference is no size.  It stops
whatever met it.  `Size.ofNat` and `Size.sub` are the two ways in which arithmetic is checked: a
result is computed on natural numbers, and must turn out to be a size.
-/

namespace Scanline

/-- A promise that a caller did not keep. -/
inductive Misuse where
  /-- A row that the stage reads was not handed over. -/
  | notDelivered (channel : Nat)
  /-- A row that the stage writes was not handed over. -/
  | notWritable (channel : Nat)
  /-- A row is too short for the window asked of it. -/
  | outOfRange
  /-- A number does not fit its word. -/
  | overflow
deriving DecidableEq, Repr

/-- The message for a broken promise, where there is one. -/
def Misuse.message? : Misuse → Option String
  | notDelivered channel => some s!"channel {channel} was not delivered to this stage"
  | notWritable channel => some s!"channel {channel} is not writable by this stage"
  | outOfRange | overflow => none

namespace Size

/-- A natural number as a size, which it must be. -/
def ofNat (n : Nat) : Except Misuse Nat := if n < bound then .ok n else .error .overflow

/-- The difference of two sizes, which must not fall below zero. -/
def sub (a b : Nat) : Except Misuse Nat := if b ≤ a then .ok (a - b) else .error .overflow

theorem ofNat_eq_ok_iff {n m : Nat} : ofNat n = .ok m ↔ n < bound ∧ n = m := by
  unfold ofNat; split <;> simp <;> omega

theorem ofNat_of_lt {n : Nat} (h : n < bound) : ofNat n = .ok n := if_pos h

theorem ofNat_of_le {n : Nat} (h : bound ≤ n) : ofNat n = .error .overflow :=
  if_neg (Nat.not_lt_of_le h)

theorem sub_eq_ok_iff {a b n : Nat} : sub a b = .ok n ↔ b ≤ a ∧ a - b = n := by
  unfold sub; split <;> simp <;> omega

theorem eq_overflow_of_ofNat {n : Nat} {misuse : Misuse} (h : ofNat n = .error misuse) :
    misuse = .overflow := by
  unfold ofNat at h
  split at h <;> cases h
  rfl

theorem eq_overflow_of_sub {a b : Nat} {misuse : Misuse} (h : sub a b = .error misuse) :
    misuse = .overflow := by
  unfold sub at h
  split at h <;> cases h
  rfl

end Size

end Scanline
