import Scanline.Proofs.Numbers

/-!
# Half precision

Converting a sample to half precision is one correct rounding (`Sample.isNearest_toHalf`): the
units of a sample are rounded in the spacing of the shorter format, so that subnormal results,
carries and overflow need no cases of their own.  Every half-precision number is a sample, and is
what this sample is converted to (`Sample.exists_toRat_eq`, `Sample.toHalf_eq`).
-/

namespace Scanline.Sample

open BinaryFormat (half)

variable {a b : Sample}

theorem quantum_half : half.quantum = 2 ^ 125 * BinaryFormat.single.quantum := by
  norm_num [BinaryFormat.quantum, BinaryFormat.bias, BinaryFormat.single, half]

theorem toRat_infinity_half : half.toRat half.infinity = 2 ^ 16 := by
  have hunits : half.units half.infinity = 2 ^ 16 * 2 ^ 24 := by decide
  have hword : half.infinity = half.word false half.infinity := rfl
  rw [hword, half.toRat_word false le_rfl, hunits, BinaryFormat.amount_false]
  norm_num [BinaryFormat.quantum, BinaryFormat.bias, half]

theorem toNat_toHalf (number : ¬a.isNaN) :
    a.toHalf.toNat = half.word a.isNegative (half.round a.units (1 <<< 125)) := by
  have hround := half.round_le_infinity (n := a.units) (d := 1 <<< 125)
  have hinfinity : half.infinity = 31744 := rfl
  have hbit : half.signBit = 32768 := rfl
  rw [toHalf, if_neg number, UInt16.toNat_ofNat', BinaryFormat.word, hbit]
  split_ifs <;> omega

theorem toRat_eq_amount_half (a : Sample) :
    a.toRat = half.amount a.isNegative (a.units / (1 <<< 125 : ℕ)) := by
  have hspacing : ((1 <<< 125 : ℕ) : ℚ) = 2 ^ 125 := by norm_num [Nat.shiftLeft_eq]
  have hunits : (a.units / 2 ^ 125 * half.quantum : ℚ) =
      a.units * BinaryFormat.single.quantum := by
    rw [quantum_half]
    field_simp
  rw [toRat_eq_amount, hspacing]
  cases a.isNegative
  · rw [BinaryFormat.amount_false, BinaryFormat.amount_false, hunits]
  · rw [BinaryFormat.amount_true, BinaryFormat.amount_true, hunits]

/-- A number is rounded correctly to half precision. -/
theorem isNearest_toHalf (number : ¬a.isNaN) : half.IsNearest a.toRat a.toHalf.toNat := by
  rw [toNat_toHalf number, toRat_eq_amount_half]
  exact half.isNearest_round (by decide) (by decide) _

theorem signBit_le_toHalf_iff (number : ¬a.isNaN) :
    half.signBit ≤ a.toHalf.toNat ↔ a.isNegative := by
  rw [toNat_toHalf number, half.signBit_le_word_iff _ half.round_le_infinity]

/-- Every half-precision number is a sample. -/
theorem exists_toRat_eq {w : UInt16} (hw : half.IsNumber w.toNat) :
    ∃ a : Sample, ¬a.isNaN ∧ (a.isNegative ↔ half.signBit ≤ w.toNat) ∧
      a.toRat = half.toRat w.toNat := by
  obtain ⟨negative, pattern, hpattern, hword⟩ := BinaryFormat.isNumber_iff.mp hw
  obtain ⟨m, b, upper, lower, hsplit⟩ := half.exists_significand pattern
  have hunits : half.units pattern = m * 2 ^ b := by
    rw [hsplit, half.units_of_significand upper.le lower]
  -- The significand fits the wider format, in a binade that comes as much later.
  obtain ⟨wide, hwide⟩ := BinaryFormat.single.exists_units_eq (k := m)
    (upper.le.trans (by decide)) (b + 125)
  have hcount : BinaryFormat.single.units wide = half.units pattern * 2 ^ 125 := by
    rw [hwide, hunits, Nat.pow_add, Nat.mul_assoc]
  have hle : wide ≤ BinaryFormat.single.infinity := by
    have hlast : half.units half.infinity = 2 ^ 40 := by decide
    have hone : unitsPerOne = 2 ^ 24 * 2 ^ 125 := by decide
    rw [← BinaryFormat.single.units_strictMono.le_iff_le, hcount, units_infinity, hone,
      ← Nat.mul_assoc]
    exact Nat.mul_le_mul_right _ ((half.units_mono hpattern).trans (hlast.trans_le (by norm_num)))
  refine ⟨ofMagnitude negative wide, ?_, ?_, ?_⟩
  · rw [isNaN, magnitude_ofMagnitude _ hle, decide_eq_true_eq, Nat.not_lt]
    exact hle
  · rw [isNegative_ofMagnitude _ hle, hword, half.signBit_le_word_iff _ hpattern]
  · have hnumber : (half.units pattern * half.quantum : ℚ) =
        BinaryFormat.single.units wide * BinaryFormat.single.quantum := by
      rw [hcount, quantum_half]
      push_cast
      ring
    rw [toRat, toNat_bits_ofMagnitude _ hle, BinaryFormat.toRat_word _ _ hle, hword,
      half.toRat_word _ hpattern]
    cases negative
    · rw [BinaryFormat.amount_false, BinaryFormat.amount_false, hnumber]
    · rw [BinaryFormat.amount_true, BinaryFormat.amount_true, hnumber]

/-- A sample that has the number and the sign of a half-precision word is converted to this word. -/
theorem toHalf_eq {w : UInt16} (hw : half.IsNumber w.toNat) (number : ¬a.isNaN)
    (hsign : a.isNegative ↔ half.signBit ≤ w.toNat) (h : a.toRat = half.toRat w.toNat) :
    a.toHalf = w := by
  obtain ⟨negative, pattern, hpattern, hword⟩ := BinaryFormat.isNumber_iff.mp hw
  rw [hword, half.signBit_le_word_iff _ hpattern, ← Bool.eq_iff_iff] at hsign
  -- The quotient that is rounded is a whole number of units, and they are those of a pattern.
  have hunits : a.units = half.units pattern * (1 <<< 125) := by
    rw [toRat_eq_amount_half, hword, half.toRat_word _ hpattern, hsign, half.amount_inj,
      div_eq_iff (Nat.cast_ne_zero.mpr (by decide))] at h
    exact_mod_cast h
  rw [← UInt16.toNat_inj, toNat_toHalf number, hunits, half.round_units (by decide)
    (by decide) hpattern, hsign, hword]

/-- A sample overflows from the middle between the largest half-precision number and `2 ^ 16` on. -/
theorem toHalf_eq_infinity_iff (number : ¬a.isNaN) :
    a.toHalf.toNat % half.signBit = half.infinity ↔ 65520 ≤ |a.toRat| := by
  have hmiddle : ((half.units (half.infinity - 1) : ℚ) + half.units half.infinity) / 2 =
      65520 * 2 ^ 24 := by
    have hlargest : half.units (half.infinity - 1) = 65504 * 2 ^ 24 := by decide
    have hinfinity : half.units half.infinity = 65536 * 2 ^ 24 := by decide
    rw [hlargest, hinfinity]
    norm_num
  have hquantum : half.quantum * 2 ^ 24 = 1 := by
    norm_num [BinaryFormat.quantum, BinaryFormat.bias, half]
  have hnumber : (a.units / (1 <<< 125 : ℕ) : ℚ) = |a.toRat| * 2 ^ 24 := by
    rw [toRat_eq_amount_half, half.abs_amount, abs_of_nonneg (by positivity), mul_assoc, hquantum,
      mul_one]
  rw [toNat_toHalf number, half.word_mod_signBit _ half.round_le_infinity,
    half.round_eq_infinity_iff (by decide) (by decide) (by decide), hmiddle, hnumber]
  exact mul_le_mul_iff_left₀ (by positivity)

theorem toRat_toHalf_mono (ha : ¬a.isNaN) (hb : ¬b.isNaN) (h : a.toRat ≤ b.toRat) :
    half.toRat a.toHalf.toNat ≤ half.toRat b.toHalf.toNat := by
  rw [toRat_eq_amount_half, toRat_eq_amount_half] at h
  rw [toNat_toHalf ha, toNat_toHalf hb]
  exact half.toRat_word_round_mono (by decide) h

theorem infinity_lt_toHalf (h : a.isNaN) : half.infinity < a.toHalf.toNat % half.signBit := by
  rw [toHalf, if_pos h]
  decide

/-- Conversion to half precision is correct rounding.  The sign is kept, and no half-precision
number is nearer, where `2 ^ 16` stands for infinity; of two that are equally near, the even one is
taken.  So infinity is reached from `65520` on.  Larger samples have no smaller results, each
half-precision number is a sample and the result for it, and no number stays none. -/
theorem halves_nearest :
    half.toRat half.infinity = 2 ^ 16 ∧
    (∀ a : Sample, a.isNaN → half.infinity < a.toHalf.toNat % half.signBit) ∧
    (∀ a : Sample, ¬a.isNaN →
      half.IsNearest a.toRat a.toHalf.toNat ∧
      (half.signBit ≤ a.toHalf.toNat ↔ a.isNegative) ∧
      (a.toHalf.toNat % half.signBit = half.infinity ↔ 65520 ≤ |a.toRat|)) ∧
    (∀ a b : Sample, ¬a.isNaN → ¬b.isNaN → a.toRat ≤ b.toRat →
      half.toRat a.toHalf.toNat ≤ half.toRat b.toHalf.toNat) ∧
    ∀ w : UInt16, half.IsNumber w.toNat →
      (∃ a : Sample, ¬a.isNaN ∧ (a.isNegative ↔ half.signBit ≤ w.toNat) ∧
        a.toRat = half.toRat w.toNat) ∧
      ∀ a : Sample, ¬a.isNaN → (a.isNegative ↔ half.signBit ≤ w.toNat) →
        a.toRat = half.toRat w.toNat → a.toHalf = w := by
  refine ⟨toRat_infinity_half, fun a h ↦ infinity_lt_toHalf h, fun a number ↦ ?_,
    fun a b ha hb h ↦ toRat_toHalf_mono ha hb h, fun w hw ↦ ⟨exists_toRat_eq hw, ?_⟩⟩
  · exact ⟨isNearest_toHalf number, signBit_le_toHalf_iff number, toHalf_eq_infinity_iff number⟩
  · intro a number hsign h
    exact toHalf_eq hw number hsign h

/-- No number, the middle between the largest subnormal number and the one after it, which is even,
and the smallest negative number. -/
theorem halves_nearest_carry :
    nan.isNaN ∧ half.infinity < nan.toHalf.toNat % half.signBit ∧
      ¬isNaN ⟨0x387fe000⟩ ∧ half.IsNearest (toRat ⟨0x387fe000⟩) 0x400 ∧
      toRat ⟨0x387fe000⟩ ≤ one.toRat ∧ half.toRat 0x400 ≤ half.toRat one.toHalf.toNat ∧
      half.IsNumber 0x8001 ∧
      ∃ a : Sample, ¬a.isNaN ∧ a.toRat = half.toRat 0x8001 ∧ a.toHalf = 0x8001 := by
  obtain ⟨-, hnan, hnumber, hmono, hexact⟩ := halves_nearest
  have number : ¬isNaN ⟨0x387fe000⟩ := by decide
  have hword : (toHalf ⟨0x387fe000⟩).toNat = 0x400 := by decide
  have hle : toRat ⟨0x387fe000⟩ ≤ one.toRat := toRat_le_iff.mpr (by decide)
  have hnearest := (hnumber _ number).1
  have hordered := hmono _ _ number (by decide) hle
  rw [hword] at hnearest hordered
  have hsmallest : half.IsNumber (0x8001 : UInt16).toNat := ⟨by decide, by decide⟩
  obtain ⟨⟨a, ha, hsign, htoRat⟩, hback⟩ := hexact _ hsmallest
  exact ⟨by decide, hnan nan (by decide), number, hnearest, hle, hordered, hsmallest, a, ha, htoRat,
    hback a ha hsign htoRat⟩

end Scanline.Sample
