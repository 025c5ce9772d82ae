import Scanline.Proofs.Numbers

/-!
# How far a code is off

A code is rounded twice, once when a sample is scaled and once to an integer.  The first error is at
most half the spacing of the binade that the largest code lies in, the second at most a half
(`Sample.abs_code_sub_le`).  Both roundings keep the order, and so do codes (`Sample.code_mono`).
-/

namespace Scanline.Sample

variable {a b : Sample} {largest : Nat}

theorem abs_nearest_sub_le (a : Sample) : |(a.nearest : ℚ) - (|a.toRat|)| ≤ 1 / 2 := by
  have hnearest := abs_roundHalfEven_sub_le (n := a.units) unitsPerOne_pos
  rw [abs_toRat, quantum_single, mul_one_div]
  exact hnearest

theorem code_le (largest : Nat) (a : Sample) : a.code largest ≤ largest := by
  unfold code saturate
  split_ifs
  · exact Nat.zero_le _
  · exact Nat.min_le_left _ _

theorem value_clampUnit_bounds (number : ¬a.isNaN) :
    0 ≤ a.clampUnit.value ∧ a.clampUnit.value ≤ one.value := by
  have hone : 0 < one.value := by decide
  have hvalue := value_clampUnit number
  omega

theorem IsScale.code_eq (scale : IsScale largest) (number : ¬a.isNaN) :
    a.code largest = (a.clampUnit * ofNat largest).nearest := by
  obtain ⟨lower, upper⟩ := value_clampUnit_bounds number
  exact scale.saturate_eq lower upper

/-- A larger number has no smaller code. -/
theorem IsScale.code_mono (scale : IsScale largest) (ha : ¬a.isNaN) (hb : ¬b.isNaN)
    (h : a.toRat ≤ b.toRat) : a.code largest ≤ b.code largest := by
  obtain ⟨lowerA, upperA⟩ := value_clampUnit_bounds ha
  obtain ⟨lowerB, upperB⟩ := value_clampUnit_bounds hb
  have hunits : a.clampUnit.units ≤ b.clampUnit.units := by
    rw [toRat_le_iff] at h
    have hvalueA := value_clampUnit ha
    have hvalueB := value_clampUnit hb
    rw [units_eq_natAbs, units_eq_natAbs]
    omega
  rw [scale.code_eq ha, scale.code_eq hb]
  exact nearest_mul_mono (isFinite_of_value lowerA upperA) (isFinite_of_value lowerB upperB)
    scale.finite hunits

theorem units_ofNat (h : largest ≤ 2 ^ 24) : (ofNat largest).units = largest * unitsPerOne := by
  have htoRat := abs_toRat (ofNat largest)
  rw [toRat_ofNat h, Nat.abs_cast, quantum_single, mul_one_div,
    eq_div_iff (Nat.cast_ne_zero.mpr unitsPerOne_pos.ne')] at htoRat
  exact_mod_cast htoRat.symm

theorem units_clampUnit_le (number : ¬a.isNaN) : a.clampUnit.units ≤ unitsPerOne := by
  obtain ⟨lower, upper⟩ := value_clampUnit_bounds number
  have hone : one.value = unitsPerOne := by decide
  rw [units_eq_natAbs]
  omega

theorem unitRat_eq (number : ¬a.isNaN) :
    a.unitRat = a.clampUnit.units * BinaryFormat.single.quantum := by
  rw [← abs_toRat, toRat_clampUnit number, abs_of_nonneg (unitRat_nonneg a)]

theorem IsScale.units_scaled (scale : IsScale largest) (h : largest ≤ 2 ^ 24)
    (number : ¬a.isNaN) :
    (a.clampUnit * ofNat largest).units = BinaryFormat.single.units
      (BinaryFormat.single.round (a.clampUnit.units * largest * unitsPerOne) unitsPerOne) := by
  obtain ⟨lower, upper⟩ := value_clampUnit_bounds number
  rw [mul_of_isFinite (isFinite_of_value lower upper) scale.finite, units,
    magnitude_ofMagnitude _ BinaryFormat.single.round_le_infinity, units_ofNat h, Nat.mul_assoc]

theorem units_clampUnit_mul_lt {k : Nat} (h : largest < 2 ^ k) (number : ¬a.isNaN) :
    a.clampUnit.units * largest < 2 ^ k * unitsPerOne := by
  calc a.clampUnit.units * largest ≤ unitsPerOne * largest :=
        Nat.mul_le_mul_right _ (units_clampUnit_le number)
    _ < unitsPerOne * 2 ^ k := Nat.mul_lt_mul_of_pos_left h unitsPerOne_pos
    _ = 2 ^ k * unitsPerOne := Nat.mul_comm _ _

/-- Scaling a clamped sample is off by at most half the spacing of the binade of the scale. -/
theorem IsScale.abs_scaled_sub_le (scale : IsScale largest) {k : Nat} (hk : k ≤ 24)
    (hlargest : largest < 2 ^ k) (number : ¬a.isNaN) :
    |(|(a.clampUnit * ofNat largest).toRat|) - largest * a.unitRat| ≤ 2 ^ k / 2 ^ 25 := by
  have hone : unitsPerOne = 2 ^ 149 := by decide
  have hfits : largest ≤ 2 ^ 24 := hlargest.le.trans (Nat.pow_le_pow_right Nat.two_pos hk)
  have hrounded := scale.units_scaled hfits number
  have hlt := units_clampUnit_mul_lt hlargest number
  have hexact : largest * a.unitRat =
      (a.clampUnit.units * largest : ℕ) * BinaryFormat.single.quantum := by
    rw [unitRat_eq number]
    push_cast
    ring
  -- From here on, the product is no more than so many units.
  generalize a.clampUnit.units * largest = count at *
  have hquotient : ((count * unitsPerOne : ℕ) / unitsPerOne : ℚ) = count := by
    rw [Nat.cast_mul, mul_div_cancel_right₀ _ (Nat.cast_ne_zero.mpr unitsPerOne_pos.ne')]
  have hbinade : BinaryFormat.single.binade (count * unitsPerOne) unitsPerOne ≤ k + 125 := by
    refine BinaryFormat.single.binade_le ?_
    rw [Nat.mul_div_cancel _ unitsPerOne_pos]
    exact hlt.trans_eq (by rw [hone, ← Nat.pow_add]; rfl)
  have hbelow : ((count * unitsPerOne : ℕ) / unitsPerOne : ℚ) <
      BinaryFormat.single.units BinaryFormat.single.infinity := by
    rw [hquotient, units_infinity, Nat.cast_lt]
    exact hlt.trans_le
      (Nat.mul_le_mul_right _ (Nat.pow_le_pow_right Nat.two_pos (hk.trans (by decide))))
  have herror := BinaryFormat.single.abs_units_round_sub_le (by decide) unitsPerOne_pos hbinade
    hbelow
  have hpos := BinaryFormat.single.quantum_pos
  rw [hquotient] at herror
  rw [abs_toRat, hrounded, hexact, ← sub_mul, abs_mul, abs_of_pos hpos]
  calc _ ≤ 2 ^ (k + 125) / 2 * BinaryFormat.single.quantum :=
        mul_le_mul_of_nonneg_right herror hpos.le
    _ = 2 ^ k / 2 ^ 25 := by
      rw [quantum_single, hone, pow_add]
      push_cast
      ring

/-- A code is off by at most a half and half the spacing of the binade of the scale. -/
theorem IsScale.abs_code_sub_le (scale : IsScale largest) {k : Nat} (hk : k ≤ 24)
    (hlargest : largest < 2 ^ k) (number : ¬a.isNaN) :
    |(a.code largest : ℚ) - largest * a.unitRat| ≤ 1 / 2 + 2 ^ k / 2 ^ 25 := by
  rw [scale.code_eq number]
  calc _ ≤ |((a.clampUnit * ofNat largest).nearest : ℚ) -
          (|(a.clampUnit * ofNat largest).toRat|)| +
        |(|(a.clampUnit * ofNat largest).toRat|) - largest * a.unitRat| := abs_sub_le _ _ _
    _ ≤ 1 / 2 + 2 ^ k / 2 ^ 25 :=
      add_le_add (abs_nearest_sub_le _) (scale.abs_scaled_sub_le hk hlargest number)

theorem IsScale.isNearest_scaled (scale : IsScale largest) (h : largest ≤ 2 ^ 24)
    (number : ¬a.isNaN) : BinaryFormat.single.IsNearest (largest * a.unitRat)
      (a.clampUnit * ofNat largest).bits.toNat := by
  obtain ⟨lower, upper⟩ := value_clampUnit_bounds number
  have hnearest := isNearest_mul (isFinite_of_value lower upper) scale.finite
  rwa [toRat_clampUnit number, toRat_ofNat h, mul_comm] at hnearest

theorem toNat_toByte (a : Sample) : a.toByte.toNat = a.code 255 := by
  have hle := code_le 255 a
  rw [toByte, UInt8.toNat_ofNat']
  omega

theorem toNat_toWord (a : Sample) : a.toWord.toNat = a.code 65535 := by
  have hle := code_le 65535 a
  rw [toWord, UInt16.toNat_ofNat']
  omega

/-- A code that is less than one off is less than one step off when it is read back. -/
theorem abs_code_div_sub_le {code : Nat} {x : ℚ} (hlargest : 0 < largest)
    (h : |(code : ℚ) - largest * x| ≤ 1) : |(code : ℚ) / largest - x| ≤ 1 / largest := by
  have hpos : (0 : ℚ) < largest := Nat.cast_pos.mpr hlargest
  have hstep : (code : ℚ) / largest - x = (code - largest * x) / largest := by field_simp
  rw [hstep, abs_div, abs_of_pos hpos]
  exact div_le_div_of_nonneg_right h hpos.le

/-- Codes are precise and keep the order.  The product is the exact one, rounded correctly; a code
is off by at most a half and half the last place of the product, so that it reads back with an error
of less than a step; a larger number has no smaller code; and no number has the code zero. -/
theorem codes_precise :
    (∀ a : Sample, a.isNaN → a.toByte = 0 ∧ a.toWord = 0) ∧
    (∀ a : Sample, ¬a.isNaN →
      BinaryFormat.single.IsNearest (255 * a.unitRat) (a.clampUnit * ofNat 255).bits.toNat ∧
      BinaryFormat.single.IsNearest (65535 * a.unitRat) (a.clampUnit * ofNat 65535).bits.toNat ∧
      |(a.toByte.toNat : ℚ) - 255 * a.unitRat| ≤ 1 / 2 + 1 / 2 ^ 17 ∧
      |(a.toWord.toNat : ℚ) - 65535 * a.unitRat| ≤ 1 / 2 + 1 / 2 ^ 9 ∧
      |(a.toByte.toNat : ℚ) / 255 - a.unitRat| ≤ 1 / 255 ∧
      |(a.toWord.toNat : ℚ) / 65535 - a.unitRat| ≤ 1 / 65535) ∧
    ∀ a b : Sample, ¬a.isNaN → ¬b.isNaN → a.toRat ≤ b.toRat →
      a.toByte ≤ b.toByte ∧ a.toWord ≤ b.toWord := by
  refine ⟨fun a h ↦ ⟨?_, ?_⟩, fun a number ↦ ?_, fun a b ha hb h ↦ ⟨?_, ?_⟩⟩
  · rw [toByte, code_of_isNaN h]
    rfl
  · rw [toWord, code_of_isNaN h]
    rfl
  · have hbyte : |(a.toByte.toNat : ℚ) - (255 : ℕ) * a.unitRat| ≤ 1 / 2 + 1 / 2 ^ 17 := by
      rw [toNat_toByte]
      exact (isScale_byte.abs_code_sub_le (k := 8) (by decide) (by decide) number).trans_eq
        (by norm_num)
    have hword : |(a.toWord.toNat : ℚ) - (65535 : ℕ) * a.unitRat| ≤ 1 / 2 + 1 / 2 ^ 9 := by
      rw [toNat_toWord]
      exact (isScale_word.abs_code_sub_le (k := 16) (by decide) (by decide) number).trans_eq
        (by norm_num)
    exact ⟨isScale_byte.isNearest_scaled (by decide) number,
      isScale_word.isNearest_scaled (by decide) number, hbyte, hword,
      abs_code_div_sub_le (by decide) (hbyte.trans (by norm_num)),
      abs_code_div_sub_le (by decide) (hword.trans (by norm_num))⟩
  · rw [UInt8.le_iff_toNat_le, toNat_toByte, toNat_toByte]
    exact isScale_byte.code_mono ha hb h
  · rw [UInt16.le_iff_toNat_le, toNat_toWord, toNat_toWord]
    exact isScale_word.code_mono ha hb h

/-- A sample that the 8-bit bound is reached at, and no number. -/
theorem codes_precise_reached :
    ¬(⟨0x3f7f7f80⟩ : Sample).isNaN ∧ nan.isNaN ∧ toRat ⟨0x3f7f7f80⟩ ≤ one.toRat ∧
      |(254 : ℚ) - 255 * unitRat ⟨0x3f7f7f80⟩| = 1 / 2 + 1 / 2 ^ 17 ∧
      |((toByte ⟨0x3f7f7f80⟩).toNat : ℚ) - 255 * unitRat ⟨0x3f7f7f80⟩| ≤ 1 / 2 + 1 / 2 ^ 17 ∧
      nan.toByte = 0 ∧ toByte ⟨0x3f7f7f80⟩ ≤ one.toByte := by
  have number : ¬(⟨0x3f7f7f80⟩ : Sample).isNaN := by decide
  have hle : toRat ⟨0x3f7f7f80⟩ ≤ one.toRat := toRat_le_iff.mpr (by decide)
  have hunits : (clampUnit ⟨0x3f7f7f80⟩).units = 16744320 * 2 ^ 125 := by decide
  have hone : unitsPerOne = 2 ^ 149 := by decide
  refine ⟨number, by decide, hle, ?_, (codes_precise.2.1 _ number).2.2.1,
    (codes_precise.1 nan (by decide)).1, (codes_precise.2.2 _ one number (by decide) hle).1⟩
  rw [unitRat_eq number, hunits, quantum_single, hone]
  norm_num [abs_of_neg]

end Scanline.Sample
