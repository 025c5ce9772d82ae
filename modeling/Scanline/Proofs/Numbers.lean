import Mathlib.Tactic.LinearCombination
import Scanline.Proofs.Codes
import Scanline.Proofs.Nearest

/-!
# Samples as numbers

A sample is read as an exact rational number (`Sample.toRat`).  Comparing, clamping and multiplying
samples is comparing, clamping and multiplying these numbers, with one correct rounding at the end
of a product (`Sample.isNearest_mul`).  A product of finite samples is always a number, and
`Sample.isFinite_mul_iff` says when it overflows.
-/

namespace Scanline.Sample

variable {a b : Sample}

/-- The number that a sample stands for.  An infinity stands for the power of two that follows the
largest finite sample. -/
def toRat (a : Sample) : ℚ := BinaryFormat.single.toRat a.bits.toNat

theorem unitsPerOne_pos : 0 < unitsPerOne := by decide

theorem unitsPerOne_mul_quantum : unitsPerOne * BinaryFormat.single.quantum = 1 := by
  norm_num [BinaryFormat.quantum, BinaryFormat.bias, BinaryFormat.single, unitsPerOne,
    Nat.shiftLeft_eq]

theorem quantum_single : BinaryFormat.single.quantum = 1 / unitsPerOne :=
  eq_one_div_of_mul_eq_one_right unitsPerOne_mul_quantum

theorem units_infinity : BinaryFormat.single.units BinaryFormat.single.infinity =
    2 ^ 128 * unitsPerOne := by decide

theorem units_largest : BinaryFormat.single.units (BinaryFormat.single.infinity - 1) =
    16777215 * 2 ^ 104 * unitsPerOne := by decide

theorem toRat_eq_amount (a : Sample) :
    a.toRat = BinaryFormat.single.amount a.isNegative a.units := by
  unfold toRat BinaryFormat.toRat isNegative units magnitude
  split_ifs with hsign
  · rw [decide_eq_true hsign, BinaryFormat.amount_true, BinaryFormat.magnitudeToRat_eq]
  · rw [decide_eq_false hsign, BinaryFormat.amount_false, BinaryFormat.magnitudeToRat_eq]

theorem toRat_eq (a : Sample) : a.toRat = a.value * BinaryFormat.single.quantum := by
  rw [toRat_eq_amount, value]
  split_ifs with hsign
  · rw [hsign, BinaryFormat.amount_true]
    push_cast
    ring
  · rw [Bool.eq_false_iff.mpr hsign, BinaryFormat.amount_false]
    push_cast
    rfl

theorem abs_toRat (a : Sample) : |a.toRat| = a.units * BinaryFormat.single.quantum := by
  rw [toRat_eq, abs_mul, abs_of_pos BinaryFormat.single.quantum_pos, units_eq_natAbs,
    Nat.cast_natAbs, Int.cast_abs]

theorem toRat_le_iff : a.toRat ≤ b.toRat ↔ a.value ≤ b.value := by
  rw [toRat_eq, toRat_eq, mul_le_mul_iff_left₀ BinaryFormat.single.quantum_pos, Int.cast_le]

theorem toRat_of_value {n d : Int} (hd : d ≠ 0) (h : a.value * d = n * unitsPerOne) :
    a.toRat = n / d := by
  have hcast : (a.value * d : ℚ) = n * unitsPerOne := by exact_mod_cast h
  rw [toRat_eq, eq_div_iff (Int.cast_ne_zero.mpr hd), mul_right_comm, hcast, mul_assoc,
    unitsPerOne_mul_quantum, mul_one]

@[simp] theorem toRat_zero : zero.toRat = 0 :=
  (toRat_of_value (n := 0) one_ne_zero (by decide)).trans (by norm_num)

@[simp] theorem toRat_one : one.toRat = 1 :=
  (toRat_of_value (n := 1) one_ne_zero (by decide)).trans (by norm_num)

theorem isFinite_of_abs_toRat_lt (h : |a.toRat| < 2 ^ 128) : a.isFinite := by
  by_contra hinfinite
  simp only [isFinite, decide_eq_true_eq, Nat.not_lt] at hinfinite
  have hunits : (2 ^ 128 * unitsPerOne : ℚ) ≤ a.units := by
    exact_mod_cast units_infinity.symm.trans_le (BinaryFormat.single.units_mono hinfinite)
  have hbound := mul_le_mul_of_nonneg_right hunits BinaryFormat.single.quantum_pos.le
  rw [mul_assoc, unitsPerOne_mul_quantum, mul_one, ← abs_toRat] at hbound
  exact h.not_ge hbound

theorem abs_toRat_le_of_isFinite (h : a.isFinite) : |a.toRat| ≤ 2 ^ 128 - 2 ^ 104 := by
  simp only [isFinite, decide_eq_true_eq] at h
  have hunits : (a.units : ℚ) ≤ 16777215 * 2 ^ 104 * unitsPerOne := by
    exact_mod_cast (BinaryFormat.single.units_mono (Nat.le_sub_one_of_lt h)).trans_eq
      units_largest
  have hbound := mul_le_mul_of_nonneg_right hunits BinaryFormat.single.quantum_pos.le
  rw [mul_assoc, unitsPerOne_mul_quantum, mul_one, ← abs_toRat] at hbound
  exact hbound.trans_eq (by norm_num)

theorem toNat_bits_ofMagnitude (negative : Bool) {pattern : Nat}
    (h : pattern ≤ BinaryFormat.single.infinity) :
    (ofMagnitude negative pattern).bits.toNat = BinaryFormat.single.word negative pattern := by
  have hbound : pattern < 2 ^ 31 := Nat.lt_of_le_of_lt h (by decide)
  have hbit : BinaryFormat.single.signBit = 2 ^ 31 := rfl
  rw [ofMagnitude, BinaryFormat.word, UInt32.toNat_ofNat', hbit]
  split_ifs <;> omega

theorem isNearest_ofMagnitude (negative : Bool) {n d : Nat} (hd : 0 < d) :
    BinaryFormat.single.IsNearest (BinaryFormat.single.amount negative (n / d))
      (ofMagnitude negative (BinaryFormat.single.round n d)).bits.toNat := by
  rw [toNat_bits_ofMagnitude _ BinaryFormat.single.round_le_infinity]
  exact BinaryFormat.single.isNearest_round (by decide) hd _

theorem isNumber_bits (h : ¬a.isNaN) : BinaryFormat.single.IsNumber a.bits.toNat := by
  have hbit : BinaryFormat.single.signBit = 2 ^ 31 := rfl
  have hword := a.bits.toNat_lt
  simp only [isNaN, decide_eq_true_eq, Nat.not_lt] at h
  exact ⟨by omega, h⟩

/-! ## Clamping -/

/-- The number of a sample, moved to the nearer end of `[0, 1]` if it lies outside. -/
def unitRat (a : Sample) : ℚ := Max.max 0 (Min.min 1 a.toRat)

theorem unitRat_nonneg (a : Sample) : 0 ≤ a.unitRat := le_max_left _ _

/-- Clamping a sample is clamping its number. -/
theorem toRat_clampUnit (number : ¬a.isNaN) : a.clampUnit.toRat = a.unitRat := by
  have hzero : zero.value = 0 := by decide
  have hbounds := value_clampUnit number
  have hone : 0 < one.value := by decide
  have hofValue {s t : Sample} (h : s.value = t.value) : s.toRat = t.toRat := by
    rw [toRat_eq, toRat_eq, h]
  rcases le_total a.value 0 with hlow | hnonneg
  · have htoRat : a.toRat ≤ 0 := by rwa [← toRat_zero, toRat_le_iff, hzero]
    rw [hofValue (t := zero) (by omega), toRat_zero, unitRat,
      max_eq_left (le_trans (min_le_right _ _) htoRat)]
  · have hfloor : 0 ≤ a.toRat := by rwa [← toRat_zero, toRat_le_iff, hzero]
    rcases le_total a.value one.value with hinside | hhigh
    · have htoRat : a.toRat ≤ 1 := by rwa [← toRat_one, toRat_le_iff]
      rw [hofValue (t := a) (by omega), unitRat, min_eq_right htoRat, max_eq_right hfloor]
    · have htoRat : 1 ≤ a.toRat := by rwa [← toRat_one, toRat_le_iff]
      rw [hofValue (t := one) (by omega), toRat_one, unitRat, min_eq_left htoRat,
        max_eq_right zero_le_one]

/-! ## Products -/

/-- The product of two finite samples is the exact product, rounded correctly. -/
theorem isNearest_mul (ha : a.isFinite) (hb : b.isFinite) :
    BinaryFormat.single.IsNearest (a.toRat * b.toRat) (a * b).bits.toNat := by
  have hproduct : a.toRat * b.toRat = BinaryFormat.single.amount (a.isNegative != b.isNegative)
      ((a.units * b.units : ℕ) / unitsPerOne) := by
    rw [toRat_eq_amount, toRat_eq_amount]
    cases a.isNegative <;> cases b.isNegative <;> simp [quantum_single] <;> ring
  rw [hproduct, mul_of_isFinite ha hb]
  exact isNearest_ofMagnitude _ unitsPerOne_pos

/-- A product of finite samples is finite below the middle between the largest finite sample and
the power of two that follows it. -/
theorem isFinite_mul_iff (ha : a.isFinite) (hb : b.isFinite) :
    (a * b).isFinite ↔ |a.toRat * b.toRat| < 2 ^ 128 - 2 ^ 103 := by
  have hproduct : |a.toRat * b.toRat| =
      ((a.units * b.units : ℕ) / unitsPerOne : ℚ) * BinaryFormat.single.quantum := by
    rw [abs_mul, abs_toRat, abs_toRat, quantum_single]
    push_cast
    ring
  have hmiddle : ((BinaryFormat.single.units (BinaryFormat.single.infinity - 1) : ℚ) +
      BinaryFormat.single.units BinaryFormat.single.infinity) / 2 *
        BinaryFormat.single.quantum = 2 ^ 128 - 2 ^ 103 := by
    rw [units_largest, units_infinity]
    push_cast
    linear_combination (2 ^ 128 - 2 ^ 103 : ℚ) * unitsPerOne_mul_quantum
  have hround := BinaryFormat.single.round_eq_infinity_iff (n := a.units * b.units)
    (d := unitsPerOne) (by decide) (by decide) (by decide)
  rw [hproduct, ← hmiddle, mul_lt_mul_iff_left₀ BinaryFormat.single.quantum_pos, ← not_le,
    ← hround, mul_of_isFinite ha hb, isFinite, decide_eq_true_eq,
    magnitude_ofMagnitude _ BinaryFormat.single.round_le_infinity]
  exact BinaryFormat.single.round_le_infinity.lt_iff_ne

/-- The natural numbers that a significand can count are samples. -/
theorem toRat_ofNat {n : Nat} (h : n ≤ 2 ^ 24) : (ofNat n).toRat = n := by
  obtain ⟨pattern, hpattern⟩ := BinaryFormat.single.exists_units_eq (k := n) h 149
  have hone : 2 ^ 149 = unitsPerOne := by decide
  rw [hone] at hpattern
  have hle : pattern ≤ BinaryFormat.single.infinity := by
    rw [← BinaryFormat.single.units_strictMono.le_iff_le, hpattern, units_infinity]
    exact Nat.mul_le_mul_right _ (h.trans (by norm_num))
  have hround : BinaryFormat.single.round (n * unitsPerOne) 1 = pattern := by
    have hexact := BinaryFormat.single.round_units (by decide) Nat.one_pos hle
    rwa [hpattern, Nat.mul_one] at hexact
  rw [ofNat, hround, toRat, toNat_bits_ofMagnitude _ hle, BinaryFormat.toRat_word _ _ hle, hpattern,
    BinaryFormat.amount_false]
  push_cast
  rw [mul_assoc, unitsPerOne_mul_quantum, mul_one]

end Scanline.Sample
