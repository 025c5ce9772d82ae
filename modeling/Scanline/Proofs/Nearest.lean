import Mathlib.Algebra.Order.Field.Power
import Mathlib.Algebra.Order.Field.Rat
import Mathlib.Tactic.FieldSimp
import Mathlib.Tactic.Linarith
import Mathlib.Tactic.Positivity
import Mathlib.Tactic.Ring
import Scanline.Proofs.Rounding

/-!
# Rounding finds the nearest number

The words of a format are read as exact rational numbers, by the formula of sign, exponent and
fraction (`BinaryFormat.toRat`).  A number is rounded correctly to a word if no number of the
format is nearer, and if of two that are equally near the even word is taken
(`BinaryFormat.IsNearest`).  Infinity takes part as the power of two that follows the largest
finite number, so that what is beyond the middle between the two overflows.

`BinaryFormat.isNearest_round` is the main result: `BinaryFormat.round` rounds every quotient
correctly, whether the result is subnormal, is carried into the next binade or overflows.  Its
core is `BinaryFormat.unbounded_nearest`, which leaves infinity out: near a quotient, the numbers of
the format are the multiples of the spacing of its binade, and what lies below the binade is
farther off.
-/

namespace Scanline

/-! ## The nearest integer -/

variable {n d : Nat}

theorem cast_div_eq (hd : 0 < d) : (n / d : ℚ) = (n / d : ℕ) + (n % d : ℕ) / d := by
  have hne : (d : ℚ) ≠ 0 := Nat.cast_ne_zero.mpr hd.ne'
  have hsum : (n : ℚ) = d * (n / d : ℕ) + (n % d : ℕ) := by
    exact_mod_cast (Nat.div_add_mod n d).symm
  rw [eq_comm, eq_div_iff hne, hsum]
  field_simp

/-- The nearest integer is at most a half off, and even if it is a half off. -/
theorem roundHalfEven_near (hd : 0 < d) :
    |(roundHalfEven n d : ℚ) - n / d| < 1 / 2 ∨
      |(roundHalfEven n d : ℚ) - n / d| = 1 / 2 ∧ Even (roundHalfEven n d) := by
  have hpos : (0 : ℚ) < d := Nat.cast_pos.mpr hd
  have hrest : (0 : ℚ) ≤ (n % d : ℕ) / d := by positivity
  rw [cast_div_eq hd]
  unfold roundHalfEven
  split_ifs with hlow hhigh
  · left
    have hlt : ((n % d : ℕ) / d : ℚ) < 1 / 2 := by
      rw [div_lt_iff₀ hpos]
      have hcast : (2 * (n % d : ℕ) : ℚ) < d := by exact_mod_cast hlow
      linarith
    rw [abs_lt]
    constructor <;> linarith
  · left
    have hlt : (1 / 2 : ℚ) < (n % d : ℕ) / d := by
      rw [lt_div_iff₀ hpos]
      have hcast : (d : ℚ) < 2 * (n % d : ℕ) := by exact_mod_cast hhigh
      linarith
    have hone : ((n % d : ℕ) / d : ℚ) < 1 := by
      rw [div_lt_one hpos]
      exact_mod_cast Nat.mod_lt n hd
    push_cast
    rw [abs_lt]
    constructor <;> linarith
  · right
    have heq : ((n % d : ℕ) / d : ℚ) = 1 / 2 := by
      rw [div_eq_iff hpos.ne']
      have hcast : (2 * (n % d : ℕ) : ℚ) = d := by exact_mod_cast (by omega : 2 * (n % d) = d)
      linarith
    rw [heq]
    rcases Nat.mod_two_eq_zero_or_one (n / d) with hparity | hparity
    · rw [hparity, Nat.add_zero]
      refine ⟨?_, Nat.even_iff.mpr hparity⟩
      rw [sub_add_cancel_left, abs_neg, abs_of_pos (by norm_num)]
    · rw [hparity]
      refine ⟨?_, Nat.even_iff.mpr (by omega)⟩
      push_cast
      rw [add_sub_add_left_eq_sub, abs_of_pos (by norm_num)]
      norm_num

theorem abs_roundHalfEven_sub_le (hd : 0 < d) : |(roundHalfEven n d : ℚ) - n / d| ≤ 1 / 2 := by
  rcases roundHalfEven_near (n := n) hd with hlt | ⟨heq, -⟩
  · exact hlt.le
  · exact heq.le

theorem half_le_of_ne {m k : Nat} {y : ℚ} (hm : |(m : ℚ) - y| ≤ 1 / 2) (hne : k ≠ m) :
    1 / 2 ≤ |(k : ℚ) - y| := by
  have hapart : (1 : ℚ) ≤ |(k : ℚ) - m| := by
    have hint : (1 : ℤ) ≤ |(k : ℤ) - m| := Int.one_le_abs (by omega)
    exact_mod_cast hint
  have htriangle : |(k : ℚ) - m| ≤ |(k : ℚ) - y| + |(m : ℚ) - y| := by
    rw [abs_sub_comm (m : ℚ) y]
    exact abs_sub_le _ _ _
  linarith

namespace BinaryFormat

variable (F : BinaryFormat)

/-! ## Numbers of a format -/

/-- The exponent field of the numbers from one up to two. -/
def bias : ℤ := 2 ^ (F.exponentBits - 1) - 1

/-- The magnitude that a pattern stands for.  The fraction counts in parts of one; with an
exponent field of zero it counts alone, and otherwise after the one that is implied. -/
def magnitudeToRat (pattern : Nat) : ℚ :=
  let field := pattern / 2 ^ F.fractionBits
  let fraction : ℚ := (pattern % 2 ^ F.fractionBits : ℕ) / 2 ^ F.fractionBits
  if field = 0 then fraction * 2 ^ (1 - F.bias) else (1 + fraction) * 2 ^ (field - F.bias)

/-- The number that a word stands for. -/
def toRat (word : Nat) : ℚ :=
  if F.signBit ≤ word then -F.magnitudeToRat (word % F.signBit)
  else F.magnitudeToRat (word % F.signBit)

/-- Whether a word of the format stands for a number, counting the infinities in. -/
def IsNumber (word : Nat) : Prop := word < 2 * F.signBit ∧ word % F.signBit ≤ F.infinity

/-- A word that a number is rounded to correctly. -/
structure IsNearest (x : ℚ) (word : Nat) : Prop where
  /-- The word stands for a number. -/
  isNumber : F.IsNumber word
  /-- No number of the format is nearer. -/
  le : ∀ other, F.IsNumber other → |F.toRat word - x| ≤ |F.toRat other - x|
  /-- Where another number is equally near, the significand is even. -/
  even : ∀ other, F.IsNumber other → F.toRat other ≠ F.toRat word →
    |F.toRat other - x| = |F.toRat word - x| → Even word

/-- The smallest positive number of a format. -/
def quantum : ℚ := 2 ^ (1 - F.bias - F.fractionBits)

theorem quantum_pos : 0 < F.quantum := by
  unfold quantum
  positivity

/-- Magnitudes are multiples of the smallest positive number. -/
theorem magnitudeToRat_eq (pattern : Nat) :
    F.magnitudeToRat pattern = F.units pattern * F.quantum := by
  have htop : (0 : ℚ) < 2 ^ F.fractionBits := by positivity
  have hone : (2 : ℚ) ^ (1 - F.bias) = 2 ^ F.fractionBits * F.quantum := by
    rw [quantum, zpow_sub₀ two_ne_zero (1 - F.bias), zpow_natCast]
    field_simp
  simp only [magnitudeToRat, units, Nat.shiftLeft_eq, Nat.one_mul]
  rcases Nat.lt_or_ge pattern (2 ^ F.fractionBits) with hlt | hge
  · rw [if_pos (Nat.div_eq_of_lt hlt), if_pos hlt, Nat.mod_eq_of_lt hlt, hone]
    field_simp
  · have hfield : 0 < pattern / 2 ^ F.fractionBits := Nat.div_pos hge (Nat.two_pow_pos _)
    have hstep : (2 : ℚ) ^ ((pattern / 2 ^ F.fractionBits : ℕ) - F.bias : ℤ) =
        2 ^ (pattern / 2 ^ F.fractionBits - 1) * 2 ^ (1 - F.bias) := by
      rw [← zpow_natCast, ← zpow_add₀ two_ne_zero]
      congr 1
      omega
    rw [if_neg hfield.ne', if_neg hge.not_gt, hstep, hone]
    push_cast
    field_simp

/-! ## Units of a pattern -/

/-- Before a carry and after it, a significand counts in the spacing of its binade. -/
theorem units_of_significand {m b : Nat} (upper : m ≤ 2 * 2 ^ F.fractionBits)
    (lower : b ≠ 0 → 2 ^ F.fractionBits ≤ m) :
    F.units (b * 2 ^ F.fractionBits + m) = m * 2 ^ b := by
  have hpos : 0 < 2 ^ F.fractionBits := Nat.two_pow_pos _
  simp only [units, Nat.shiftLeft_eq, Nat.one_mul]
  generalize 2 ^ F.fractionBits = top at *
  rcases Nat.lt_or_ge m top with hsub | hnormal
  · -- A subnormal magnitude.
    obtain rfl : b = 0 := by
      by_contra hb
      exact hsub.not_ge (lower hb)
    rw [Nat.zero_mul, Nat.zero_add, if_pos hsub, Nat.pow_zero, Nat.mul_one]
  · have hge : ¬b * top + m < top := by
      have hb : 0 ≤ b * top := Nat.zero_le _
      omega
    rw [if_neg hge]
    rcases Nat.lt_or_eq_of_le upper with hlt | rfl
    · have hsplit : b * top + m = (m - top) + top * (b + 1) := by
        rw [Nat.mul_add, Nat.mul_comm b top]
        omega
      rw [hsplit, Nat.add_mul_mod_self_left, Nat.add_mul_div_left _ _ hpos,
        Nat.mod_eq_of_lt (by omega), Nat.div_eq_of_lt (by omega), Nat.add_sub_cancel' hnormal,
        Nat.zero_add, Nat.add_sub_cancel]
    · -- The carry into the next binade.
      have hsplit : b * top + 2 * top = top * (b + 2) := by ring
      rw [hsplit, Nat.mul_mod_right, Nat.mul_div_cancel_left _ hpos, Nat.add_zero,
        Nat.add_sub_assoc (by omega), Nat.pow_succ]
      ring

theorem exists_significand (pattern : Nat) :
    ∃ m b, m < 2 * 2 ^ F.fractionBits ∧ (b ≠ 0 → 2 ^ F.fractionBits ≤ m) ∧
      pattern = b * 2 ^ F.fractionBits + m := by
  have hpos : 0 < 2 ^ F.fractionBits := Nat.two_pow_pos _
  generalize 2 ^ F.fractionBits = top at *
  have hdiv := Nat.div_add_mod' pattern top
  have hmod := Nat.mod_lt pattern hpos
  rcases Nat.eq_zero_or_pos (pattern / top) with hzero | hfield
  · exact ⟨pattern % top, 0, by omega, fun h ↦ absurd rfl h, by simpa [hzero] using hdiv.symm⟩
  · refine ⟨top + pattern % top, pattern / top - 1, by omega, fun _ ↦ by omega, ?_⟩
    obtain ⟨k, hk⟩ : ∃ k, pattern / top = k + 1 := ⟨pattern / top - 1, by omega⟩
    rw [hk, Nat.add_sub_cancel]
    rw [hk, Nat.add_mul] at hdiv
    omega

/-- Every pattern counts in the spacing of a binade, or is below it. -/
theorem units_grid (pattern b : Nat) :
    (0 < b ∧ F.units pattern < 2 ^ F.fractionBits * 2 ^ b) ∨
      ∃ k, F.units pattern = k * 2 ^ b := by
  obtain ⟨m, e, upper, lower, rfl⟩ := F.exists_significand pattern
  rw [F.units_of_significand upper.le lower]
  rcases Nat.lt_or_ge e b with hlt | hge
  · left
    refine ⟨by omega, ?_⟩
    calc m * 2 ^ e < 2 * 2 ^ F.fractionBits * 2 ^ e :=
          Nat.mul_lt_mul_of_pos_right upper (Nat.two_pow_pos _)
      _ = 2 ^ F.fractionBits * 2 ^ (e + 1) := by rw [Nat.pow_succ]; ring
      _ ≤ 2 ^ F.fractionBits * 2 ^ b :=
        Nat.mul_le_mul_left _ (Nat.pow_le_pow_right Nat.two_pos hlt)
  · right
    refine ⟨m * 2 ^ (e - b), ?_⟩
    rw [Nat.mul_assoc, ← Nat.pow_add, Nat.sub_add_cancel hge]

theorem units_lt_units_succ (pattern : Nat) : F.units pattern < F.units (pattern + 1) := by
  obtain ⟨m, b, upper, lower, rfl⟩ := F.exists_significand pattern
  rw [Nat.add_assoc, F.units_of_significand upper.le lower,
    F.units_of_significand upper fun hb ↦ (lower hb).trans (Nat.le_succ m)]
  exact Nat.mul_lt_mul_of_pos_right (Nat.lt_succ_self m) (Nat.two_pow_pos _)

@[simp] theorem units_zero : F.units 0 = 0 := by simp [units, Nat.shiftLeft_eq]

theorem units_strictMono : StrictMono F.units := strictMono_nat_of_lt_succ F.units_lt_units_succ

/-- Whatever a significand can count is the magnitude of a pattern. -/
theorem exists_units_eq {k : Nat} (hk : k ≤ 2 * 2 ^ F.fractionBits) (e : Nat) :
    ∃ pattern, F.units pattern = k * 2 ^ e := by
  induction e generalizing k with
  | zero => exact ⟨0 * 2 ^ F.fractionBits + k, F.units_of_significand hk fun h ↦ absurd rfl h⟩
  | succ e ih =>
    rcases Nat.lt_or_ge k (2 ^ F.fractionBits) with hsmall | hlarge
    · -- A significand that is too short is doubled.
      obtain ⟨pattern, hpattern⟩ := ih (k := 2 * k) (by omega)
      refine ⟨pattern, ?_⟩
      rw [hpattern, Nat.pow_succ]
      ring
    · exact ⟨_, F.units_of_significand hk fun _ ↦ hlarge⟩

/-! ## Rounding without a largest number -/

/-- The pattern that a magnitude is rounded to if no pattern is infinity. -/
def unbounded (n d : Nat) : Nat := F.binade n d * 2 ^ F.fractionBits + F.significand n d

theorem round_eq_min : F.round n d = min F.infinity (F.unbounded n d) := by
  rw [round, unbounded, significand, Nat.shiftLeft_eq]

theorem units_unbounded : F.units (F.unbounded n d) = F.significand n d * 2 ^ F.binade n d :=
  F.units_of_significand F.significand_le fun h ↦ F.le_significand (Nat.pos_of_ne_zero h)

theorem even_unbounded (hfraction : 0 < F.fractionBits) (h : Even (F.significand n d)) :
    Even (F.unbounded n d) :=
  ((Nat.even_pow.mpr ⟨even_two, hfraction.ne'⟩).mul_left _).add h

theorem le_of_binade_pos (hd : 0 < d) (h : 0 < F.binade n d) :
    (2 ^ F.fractionBits * 2 ^ F.binade n d : ℚ) ≤ n / d := by
  have hlog : (n / d).log2 = F.binade n d + F.fractionBits := by unfold binade at h ⊢; omega
  have hne : n / d ≠ 0 := fun hzero ↦ by simp [binade, hzero] at h
  have hle : 2 ^ F.fractionBits * 2 ^ F.binade n d * d ≤ n := by
    rw [← Nat.le_div_iff_mul_le hd, ← Nat.pow_add, Nat.add_comm, ← hlog]
    exact Nat.log2_self_le hne
  rw [le_div_iff₀ (Nat.cast_pos.mpr hd)]
  exact_mod_cast hle

theorem binade_le {b : Nat} (h : n / d < 2 ^ (b + F.fractionBits + 1)) : F.binade n d ≤ b := by
  unfold binade
  rcases Nat.eq_zero_or_pos (n / d) with hzero | hsome
  · simp [hzero]
  · have hlog := (Nat.log2_lt hsome.ne').mpr h
    omega

theorem abs_units_sub {k b : Nat} (x : ℚ) :
    |((k * 2 ^ b : ℕ) : ℚ) - x| = 2 ^ b * |(k : ℚ) - x / 2 ^ b| := by
  have hpos : (0 : ℚ) < 2 ^ b := by positivity
  rw [← abs_of_pos hpos, ← abs_mul, abs_of_pos hpos]
  congr 1
  push_cast
  field_simp

/-- The significand is the integer nearest to a magnitude, in the spacing of its binade. -/
theorem significand_near (hd : 0 < d) :
    |(F.significand n d : ℚ) - (n / d : ℚ) / 2 ^ F.binade n d| < 1 / 2 ∨
      |(F.significand n d : ℚ) - (n / d : ℚ) / 2 ^ F.binade n d| = 1 / 2 ∧
        Even (F.significand n d) := by
  have hpos : 0 < d * 2 ^ F.binade n d := Nat.mul_pos hd (Nat.two_pow_pos _)
  have hnear := roundHalfEven_near (n := n) hpos
  rw [significand, Nat.shiftLeft_eq, div_div]
  push_cast at hnear ⊢
  exact hnear

theorem abs_significand_sub_le (hd : 0 < d) :
    |(F.significand n d : ℚ) - (n / d : ℚ) / 2 ^ F.binade n d| ≤ 1 / 2 := by
  rcases F.significand_near (n := n) hd with hlt | ⟨heq, -⟩
  · exact hlt.le
  · exact heq.le

theorem abs_units_unbounded_sub_le (hd : 0 < d) :
    |(F.units (F.unbounded n d) : ℚ) - n / d| ≤ 2 ^ F.binade n d / 2 := by
  have hhalf := F.abs_significand_sub_le (n := n) hd
  rw [units_unbounded, abs_units_sub]
  calc (2 : ℚ) ^ F.binade n d * |(F.significand n d : ℚ) - (n / d : ℚ) / 2 ^ F.binade n d| ≤
        2 ^ F.binade n d * (1 / 2) := by gcongr
    _ = 2 ^ F.binade n d / 2 := by ring

/-- What is below the binade of a quotient is farther off than what the quotient is rounded to. -/
theorem abs_units_unbounded_sub_lt (hd : 0 < d) (hlater : 0 < F.binade n d) {other : Nat}
    (hbelow : F.units other < 2 ^ F.fractionBits * 2 ^ F.binade n d) :
    |(F.units (F.unbounded n d) : ℚ) - n / d| < |(F.units other : ℚ) - n / d| := by
  have hhalf := F.abs_significand_sub_le (n := n) hd
  have hstart : ((2 ^ F.fractionBits * 2 ^ F.binade n d : ℕ) : ℚ) ≤ n / d := by
    push_cast
    exact F.le_of_binade_pos hd hlater
  have hlt : (F.units other : ℚ) < (2 ^ F.fractionBits * 2 ^ F.binade n d : ℕ) :=
    Nat.cast_lt.mpr hbelow
  have hbeginning : |(F.units (F.unbounded n d) : ℚ) - n / d| ≤
      |((2 ^ F.fractionBits * 2 ^ F.binade n d : ℕ) : ℚ) - n / d| := by
    rw [units_unbounded, abs_units_sub, abs_units_sub]
    rcases eq_or_ne (2 ^ F.fractionBits) (F.significand n d) with heq | hne
    · rw [heq]
    · exact mul_le_mul_of_nonneg_left (hhalf.trans (half_le_of_ne hhalf hne)) (by positivity)
  refine hbeginning.trans_lt ?_
  rw [abs_of_nonpos (by linarith), abs_of_nonpos (by linarith)]
  linarith

/-- Rounding without a largest number finds the nearest magnitude. -/
theorem unbounded_nearest (hfraction : 0 < F.fractionBits) (hd : 0 < d) {other : Nat}
    (hother : F.units other ≠ F.units (F.unbounded n d)) :
    |(F.units (F.unbounded n d) : ℚ) - n / d| < |(F.units other : ℚ) - n / d| ∨
      |(F.units (F.unbounded n d) : ℚ) - n / d| = |(F.units other : ℚ) - n / d| ∧
        Even (F.unbounded n d) := by
  have hspacing : (0 : ℚ) < 2 ^ F.binade n d := by positivity
  have hhalf := F.abs_significand_sub_le (n := n) hd
  rcases F.units_grid other (F.binade n d) with ⟨hlater, hbelow⟩ | ⟨k, hk⟩
  · exact .inl (F.abs_units_unbounded_sub_lt hd hlater hbelow)
  · rw [units_unbounded] at hother ⊢
    rw [hk] at hother ⊢
    have hne : k ≠ F.significand n d := fun heq ↦ hother (by rw [heq])
    have hfar := half_le_of_ne hhalf hne
    rw [abs_units_sub, abs_units_sub]
    rcases F.significand_near (n := n) hd with hlt | ⟨heq, heven⟩
    · left
      exact mul_lt_mul_of_pos_left (hlt.trans_le hfar) hspacing
    · rcases hfar.lt_or_eq with hlt | htie
      · left
        rw [heq]
        exact mul_lt_mul_of_pos_left hlt hspacing
      · right
        rw [heq, htie]
        exact ⟨rfl, F.even_unbounded hfraction heven⟩

/-! ## Rounding with infinity -/

theorem even_infinity (hfraction : 0 < F.fractionBits) : Even F.infinity := by
  rw [infinity, Nat.shiftLeft_eq]
  exact (Nat.even_pow.mpr ⟨even_two, hfraction.ne'⟩).mul_left _

theorem infinity_le_of_lt_unbounded (hfraction : 0 < F.fractionBits) (hd : 0 < d)
    (h : F.infinity < F.unbounded n d) : (F.units F.infinity : ℚ) ≤ n / d := by
  by_contra hlt
  rw [not_le] at hlt
  have hunits : (F.units F.infinity : ℚ) < F.units (F.unbounded n d) :=
    Nat.cast_lt.mpr (F.units_strictMono h)
  have hcloser := F.unbounded_nearest hfraction hd (F.units_strictMono h).ne
  rw [abs_of_pos (by linarith), abs_of_pos (by linarith)] at hcloser
  rcases hcloser with hcloser | ⟨hcloser, -⟩ <;> linarith

/-- Rounding finds the nearest of the magnitudes up to infinity. -/
theorem round_nearest (hfraction : 0 < F.fractionBits) (hd : 0 < d) {other : Nat}
    (hle : other ≤ F.infinity) (hother : F.units other ≠ F.units (F.round n d)) :
    |(F.units (F.round n d) : ℚ) - n / d| < |(F.units other : ℚ) - n / d| ∨
      |(F.units (F.round n d) : ℚ) - n / d| = |(F.units other : ℚ) - n / d| ∧
        Even (F.round n d) := by
  rw [round_eq_min] at hother ⊢
  rcases Nat.lt_or_ge F.infinity (F.unbounded n d) with hbeyond | hwithin
  · left
    rw [Nat.min_eq_left hbeyond.le] at hother ⊢
    have hge := F.infinity_le_of_lt_unbounded hfraction hd hbeyond
    have hbelow : (F.units other : ℚ) < F.units F.infinity :=
      Nat.cast_lt.mpr (lt_of_le_of_ne (F.units_mono hle) hother)
    rw [abs_of_nonpos (by linarith), abs_of_nonpos (by linarith)]
    linarith
  · rw [Nat.min_eq_right hwithin] at hother ⊢
    exact F.unbounded_nearest hfraction hd hother

theorem round_units (hfraction : 0 < F.fractionBits) (hd : 0 < d) {pattern : Nat}
    (h : pattern ≤ F.infinity) : F.round (F.units pattern * d) d = pattern := by
  have hne : (d : ℚ) ≠ 0 := Nat.cast_ne_zero.mpr hd.ne'
  have hexact : ((F.units pattern * d : ℕ) / d : ℚ) = F.units pattern := by
    push_cast
    field_simp
  by_contra hother
  have hnearest := F.round_nearest hfraction hd (n := F.units pattern * d) h
    fun heq ↦ hother (F.units_strictMono.injective heq).symm
  have hpositive : 0 < |(F.units (F.round (F.units pattern * d) d) : ℚ) - F.units pattern| :=
    abs_pos.mpr (sub_ne_zero.mpr fun heq ↦
      hother (F.units_strictMono.injective (Nat.cast_injective heq)))
  rw [hexact, sub_self, abs_zero] at hnearest
  rcases hnearest with hlt | ⟨heq, -⟩
  · exact hpositive.not_gt hlt
  · exact hpositive.ne' heq

/-- What is below infinity is rounded by at most half a spacing that its binade does not exceed. -/
theorem abs_units_round_sub_le (hfraction : 0 < F.fractionBits) (hd : 0 < d) {b : Nat}
    (hbinade : F.binade n d ≤ b) (hbelow : (n / d : ℚ) < F.units F.infinity) :
    |(F.units (F.round n d) : ℚ) - n / d| ≤ 2 ^ b / 2 := by
  have hwithin : F.unbounded n d ≤ F.infinity := by
    by_contra hbeyond
    exact hbelow.not_ge (F.infinity_le_of_lt_unbounded hfraction hd (Nat.lt_of_not_ge hbeyond))
  rw [round_eq_min, Nat.min_eq_right hwithin]
  calc |(F.units (F.unbounded n d) : ℚ) - n / d| ≤ 2 ^ F.binade n d / 2 :=
        F.abs_units_unbounded_sub_le hd
    _ ≤ 2 ^ b / 2 := by
      have hpow : (2 : ℚ) ^ F.binade n d ≤ 2 ^ b := pow_le_pow_right₀ one_le_two hbinade
      linarith

/-- The larger of two numbers is the nearer one from the middle on. -/
theorem abs_sub_le_abs_sub_iff_middle {x y z : ℚ} (h : x < y) :
    |y - z| ≤ |x - z| ↔ (x + y) / 2 ≤ z := by
  rw [← sq_le_sq]
  constructor
  · intro hle
    nlinarith
  · intro hle
    nlinarith

/-- Two numbers are equally near only to the middle. -/
theorem eq_middle {x y z : ℚ} (h : x < y) (heq : |x - z| = |y - z|) : (x + y) / 2 = z := by
  rcases abs_eq_abs.mp heq with hsame | hopposite <;> linarith

/-- A magnitude overflows from the middle between the largest finite one and infinity on. -/
theorem round_eq_infinity_iff (hfraction : 0 < F.fractionBits) (hexponent : 0 < F.exponentBits)
    (hd : 0 < d) :
    F.round n d = F.infinity ↔
      ((F.units (F.infinity - 1) : ℚ) + F.units F.infinity) / 2 ≤ n / d := by
  have hpositive : 0 < F.infinity := by
    rw [infinity, Nat.shiftLeft_eq, Nat.shiftLeft_eq, Nat.one_mul]
    have hfield : 2 ≤ 2 ^ F.exponentBits := Nat.le_self_pow hexponent.ne' 2
    exact Nat.mul_pos (by omega) (Nat.two_pow_pos _)
  have hunits {p : Nat} (h : p < F.infinity) : (F.units p : ℚ) < F.units F.infinity :=
    Nat.cast_lt.mpr (F.units_strictMono h)
  have hlargest : F.infinity - 1 < F.infinity := by omega
  rw [← abs_sub_le_abs_sub_iff_middle (hunits hlargest)]
  constructor
  · intro h
    have hnearest := F.round_nearest hfraction hd (n := n) (Nat.sub_le F.infinity 1)
      (by rw [h]; exact (F.units_strictMono hlargest).ne)
    rw [h] at hnearest
    rcases hnearest with hlt | ⟨heq, -⟩
    · exact hlt.le
    · exact heq.le
  · intro h
    by_contra hne
    have hround : F.round n d < F.infinity := lt_of_le_of_ne F.round_le_infinity hne
    have hle : (F.units (F.round n d) : ℚ) ≤ F.units (F.infinity - 1) :=
      Nat.cast_le.mpr (F.units_mono (by omega))
    have hmiddle := (abs_sub_le_abs_sub_iff_middle (hunits hlargest)).mp h
    have hback : |(F.units F.infinity : ℚ) - n / d| ≤ |(F.units (F.round n d) : ℚ) - n / d| :=
      (abs_sub_le_abs_sub_iff_middle (hunits hround)).mpr (by linarith)
    rcases F.round_nearest hfraction hd (n := n) le_rfl (F.units_strictMono hround).ne' with
      hlt | ⟨heq, heven⟩
    · exact hback.not_gt hlt
    · -- Only the middle itself is left, where the largest finite pattern is odd.
      have hself := eq_middle (hunits hround) heq
      have hge : F.units (F.infinity - 1) ≤ F.units (F.round n d) := by
        have hcast : (F.units (F.infinity - 1) : ℚ) ≤ F.units (F.round n d) := by linarith
        exact_mod_cast hcast
      have hodd := F.units_strictMono.le_iff_le.mp hge
      have hinfinity := F.even_infinity hfraction
      rw [Nat.even_iff] at heven hinfinity
      omega

/-! ## Words with a sign -/

/-- The word with the given sign and magnitude pattern. -/
def word (negative : Bool) (pattern : Nat) : Nat := pattern + if negative then F.signBit else 0

/-- The number that has the given sign and counts so many of the smallest positive one. -/
def amount (negative : Bool) (count : ℚ) : ℚ :=
  (if negative then -1 else 1) * (count * F.quantum)

@[simp] theorem amount_false (count : ℚ) : F.amount false count = count * F.quantum := by
  simp [amount]

@[simp] theorem amount_true (count : ℚ) : F.amount true count = -(count * F.quantum) := by
  simp [amount]

theorem infinity_lt_signBit : F.infinity < F.signBit := by
  have hfield : 0 < 2 ^ F.exponentBits := Nat.two_pow_pos _
  rw [infinity, signBit, Nat.shiftLeft_eq, Nat.shiftLeft_eq, Nat.shiftLeft_eq, Nat.one_mul,
    Nat.one_mul, Nat.pow_add]
  exact Nat.mul_lt_mul_of_pos_right (by omega) (Nat.two_pow_pos _)

theorem even_signBit (hfraction : 0 < F.fractionBits) : Even F.signBit := by
  rw [signBit, Nat.shiftLeft_eq, Nat.one_mul]
  exact Nat.even_pow.mpr ⟨even_two, by omega⟩

theorem signBit_le_word_iff (negative : Bool) {pattern : Nat} (h : pattern ≤ F.infinity) :
    F.signBit ≤ F.word negative pattern ↔ negative := by
  have hbound := F.infinity_lt_signBit
  unfold word
  cases negative
  · simp only [Bool.false_eq_true, if_false, Nat.add_zero, iff_false]
    omega
  · simp

theorem word_mod_signBit (negative : Bool) {pattern : Nat} (h : pattern ≤ F.infinity) :
    F.word negative pattern % F.signBit = pattern := by
  have hbound := F.infinity_lt_signBit
  unfold word
  split_ifs
  · rw [Nat.add_mod_right, Nat.mod_eq_of_lt (by omega)]
  · rw [Nat.add_zero, Nat.mod_eq_of_lt (by omega)]

variable {F} in
/-- Numbers are the words with a sign and a pattern up to infinity. -/
theorem isNumber_iff {w : Nat} :
    F.IsNumber w ↔ ∃ negative, ∃ pattern ≤ F.infinity, w = F.word negative pattern := by
  have hbound := F.infinity_lt_signBit
  constructor
  · rintro ⟨hword, hpattern⟩
    refine ⟨decide (F.signBit ≤ w), w % F.signBit, hpattern, ?_⟩
    unfold word
    split_ifs with hsign
    · rw [decide_eq_true_eq] at hsign
      rw [Nat.mod_eq_sub_mod hsign, Nat.mod_eq_of_lt (by omega)]
      omega
    · rw [decide_eq_true_eq, Nat.not_le] at hsign
      rw [Nat.mod_eq_of_lt hsign, Nat.add_zero]
  · rintro ⟨negative, pattern, hpattern, rfl⟩
    refine ⟨?_, (F.word_mod_signBit negative hpattern).trans_le hpattern⟩
    unfold word
    split_ifs <;> omega

theorem toRat_word (negative : Bool) {pattern : Nat} (h : pattern ≤ F.infinity) :
    F.toRat (F.word negative pattern) = F.amount negative (F.units pattern) := by
  have hsign := F.signBit_le_word_iff negative h
  rw [toRat, F.word_mod_signBit negative h, magnitudeToRat_eq]
  cases negative
  · rw [if_neg (by simp [hsign]), amount_false]
  · rw [if_pos (by simp [hsign]), amount_true]

theorem abs_amount (negative : Bool) (y : ℚ) : |F.amount negative y| = |y| * F.quantum := by
  cases negative
  · rw [amount_false, abs_mul, abs_of_pos F.quantum_pos]
  · rw [amount_true, abs_neg, abs_mul, abs_of_pos F.quantum_pos]

theorem abs_amount_sub (negative : Bool) (y z : ℚ) :
    |F.amount negative y - F.amount negative z| = |y - z| * F.quantum := by
  rw [amount, amount, ← mul_sub, ← sub_mul, ← abs_amount, amount]

theorem amount_inj {negative : Bool} {y z : ℚ} :
    F.amount negative y = F.amount negative z ↔ y = z := by
  rw [← sub_eq_zero, ← abs_eq_zero, abs_amount_sub, mul_eq_zero_iff_right F.quantum_pos.ne',
    abs_eq_zero, sub_eq_zero]

/-- How far two amounts of different signs are apart. -/
theorem abs_amount_not_sub (negative : Bool) {y z : ℚ} (hy : 0 ≤ y) (hz : 0 ≤ z) :
    |F.amount (!negative) y - F.amount negative z| = (y + z) * F.quantum := by
  have hsum : 0 ≤ (y + z) * F.quantum := mul_nonneg (by linarith) F.quantum_pos.le
  cases negative
  · have hneg : F.amount (!false) y - F.amount false z = -((y + z) * F.quantum) := by
      rw [Bool.not_false, amount_true, amount_false]
      ring
    rw [hneg, abs_neg, abs_of_nonneg hsum]
  · have hpos : F.amount (!true) y - F.amount true z = (y + z) * F.quantum := by
      rw [Bool.not_true, amount_true, amount_false]
      ring
    rw [hpos, abs_of_nonneg hsum]

/-- An amount is rounded to no word but the nearest, and to an even one of two. -/
theorem word_round_nearest (hfraction : 0 < F.fractionBits) (hd : 0 < d) (negative : Bool)
    {other : Nat} (hnumber : F.IsNumber other)
    (hother : F.toRat other ≠ F.toRat (F.word negative (F.round n d))) :
    |F.toRat (F.word negative (F.round n d)) - F.amount negative (n / d)| <
        |F.toRat other - F.amount negative (n / d)| ∨
      |F.toRat (F.word negative (F.round n d)) - F.amount negative (n / d)| =
          |F.toRat other - F.amount negative (n / d)| ∧ Even (F.round n d) := by
  have hquantum := F.quantum_pos
  have hx : (0 : ℚ) ≤ n / d := by positivity
  obtain ⟨sign, pattern, hpattern, rfl⟩ := isNumber_iff.mp hnumber
  rw [F.toRat_word sign hpattern, F.toRat_word negative F.round_le_infinity] at *
  rw [F.abs_amount_sub]
  rcases Bool.eq_or_eq_not sign negative with rfl | rfl
  · rw [F.abs_amount_sub]
    have hunits : F.units pattern ≠ F.units (F.round n d) := fun heq ↦ hother (by rw [heq])
    rcases F.round_nearest hfraction hd hpattern hunits with hlt | ⟨heq, heven⟩
    · exact .inl (mul_lt_mul_of_pos_right hlt hquantum)
    · exact .inr ⟨by rw [heq], heven⟩
  · -- Zero lies between the signs, and is no nearer than the nearest.
    rw [F.abs_amount_not_sub negative (Nat.cast_nonneg _) hx]
    have hdistance : |(F.units 0 : ℚ) - n / d| = n / d := by
      rw [units_zero, Nat.cast_zero, zero_sub, abs_neg, abs_of_nonneg hx]
    by_cases hround : F.units (F.round n d) = 0
    · have hpositive : (0 : ℚ) < F.units pattern := by
        rw [Nat.cast_pos, Nat.pos_iff_ne_zero]
        intro hnone
        exact hother (by rw [hround, hnone]; simp [amount])
      left
      rw [hround, ← F.units_zero, hdistance]
      exact mul_lt_mul_of_pos_right (by linarith) hquantum
    · have hunits : (0 : ℚ) ≤ F.units pattern := Nat.cast_nonneg _
      have hnearest := F.round_nearest hfraction hd (n := n) (Nat.zero_le _)
        (by rw [units_zero]; exact Ne.symm hround)
      rw [hdistance] at hnearest
      rcases hnearest with hlt | ⟨heq, heven⟩
      · exact .inl (mul_lt_mul_of_pos_right (by linarith) hquantum)
      · rcases hunits.eq_or_lt with hnone | hsome
        · exact .inr ⟨by rw [heq, ← hnone, zero_add], heven⟩
        · exact .inl (mul_lt_mul_of_pos_right (by linarith) hquantum)

/-- Rounding an amount is rounding correctly. -/
theorem isNearest_round (hfraction : 0 < F.fractionBits) (hd : 0 < d) (negative : Bool) :
    F.IsNearest (F.amount negative (n / d)) (F.word negative (F.round n d)) where
  isNumber := isNumber_iff.mpr ⟨negative, _, F.round_le_infinity, rfl⟩
  le other hnumber := by
    by_cases hsame : F.toRat other = F.toRat (F.word negative (F.round n d))
    · rw [hsame]
    · rcases F.word_round_nearest hfraction hd negative hnumber hsame with hlt | ⟨heq, -⟩
      · exact hlt.le
      · exact heq.le
  even other hnumber hother htie := by
    rcases F.word_round_nearest hfraction hd negative hnumber hother with hlt | ⟨-, heven⟩
    · exact absurd htie hlt.ne'
    · unfold word
      split_ifs
      · exact heven.add (F.even_signBit hfraction)
      · exact heven

theorem round_zero (hd : 0 < d) : F.round 0 d = 0 := by
  have hnearest : roundHalfEven 0 d = 0 := by simpa using roundHalfEven_mul (q := 0) hd
  simp [round, binade, hnearest]

theorem units_round_mono {m : Nat} (hd : 0 < d) (h : (m / d : ℚ) ≤ n / d) :
    (F.units (F.round m d) : ℚ) ≤ F.units (F.round n d) := by
  rw [div_le_div_iff_of_pos_right (Nat.cast_pos.mpr hd)] at h
  exact Nat.cast_le.mpr (F.units_mono (F.round_mono (Nat.cast_le.mp h)))

/-- Rounding keeps the order of amounts, whatever their signs. -/
theorem toRat_word_round_mono {m : Nat} (hd : 0 < d) {s t : Bool}
    (h : F.amount s (m / d) ≤ F.amount t (n / d)) :
    F.toRat (F.word s (F.round m d)) ≤ F.toRat (F.word t (F.round n d)) := by
  have hquantum := F.quantum_pos
  rw [F.toRat_word s F.round_le_infinity, F.toRat_word t F.round_le_infinity]
  match s, t with
  | false, false =>
    rw [amount_false, amount_false] at h ⊢
    exact mul_le_mul_of_nonneg_right
      (F.units_round_mono hd (le_of_mul_le_mul_right h hquantum)) hquantum.le
  | true, true =>
    rw [amount_true, amount_true, neg_le_neg_iff] at h ⊢
    exact mul_le_mul_of_nonneg_right
      (F.units_round_mono hd (le_of_mul_le_mul_right h hquantum)) hquantum.le
  | true, false =>
    have hm : (0 : ℚ) ≤ F.units (F.round m d) * F.quantum := by positivity
    have hn : (0 : ℚ) ≤ F.units (F.round n d) * F.quantum := by positivity
    rw [amount_true, amount_false]
    linarith
  | false, true =>
    -- Of different signs in this order, both are zero.
    have hm : (0 : ℚ) ≤ m / d * F.quantum := by positivity
    have hn : (0 : ℚ) ≤ n / d * F.quantum := by positivity
    rw [amount_false, amount_true] at h
    have hzero {k : Nat} (hk : (k / d * F.quantum : ℚ) = 0) : F.units (F.round k d) = 0 := by
      have hcast : (k : ℚ) = 0 := by
        simpa [hquantum.ne', hd.ne'] using hk
      rw [Nat.cast_eq_zero.mp hcast, F.round_zero hd, units_zero]
    rw [hzero (by linarith), hzero (by linarith)]
    simp

/-! ## What is rounded correctly -/

namespace IsNearest

variable {F} {x y : ℚ} {v w : Nat}

theorem toRat_eq (h : F.IsNearest (F.toRat v) w) (hv : F.IsNumber v) : F.toRat w = F.toRat v := by
  have hle := h.le v hv
  rw [sub_self, abs_zero] at hle
  exact sub_eq_zero.mp (abs_nonpos_iff.mp hle)

theorem toRat_le (h : F.IsNearest x w) (hv : F.IsNumber v) (hx : x ≤ F.toRat v) :
    F.toRat w ≤ F.toRat v := by
  by_contra hlt
  have hle := h.le v hv
  rw [abs_of_pos (by linarith), abs_of_nonneg (by linarith)] at hle
  linarith

theorem le_toRat (h : F.IsNearest x w) (hv : F.IsNumber v) (hx : F.toRat v ≤ x) :
    F.toRat v ≤ F.toRat w := by
  by_contra hlt
  have hle := h.le v hv
  rw [abs_of_neg (by linarith), abs_of_nonpos (by linarith)] at hle
  linarith

end IsNearest

end BinaryFormat

end Scanline
