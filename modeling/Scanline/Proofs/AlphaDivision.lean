import Scanline.Proofs.Numbers
import Scanline.Sample.AlphaDivision

/-!
# What dividing through alpha can lose

The divisor of a pixel is a number of at least `leastAlpha`, whatever its alpha is, and so the
colors are multiplied by a finite number from zero to `2 ^ 26` (`alphaMultiplier_bounds`).  A finite
color thus never becomes no number, but a large one may overflow
(`isFinite_mul_alphaMultiplier_iff`): none below `2 ^ 102 - 2 ^ 77`, and none at an alpha of one or
more.
-/

namespace Scanline

namespace Sample

variable {a b : Sample}

theorem units_pos (h : ¬a.isZero) : 0 < a.units := by
  simp only [isZero, decide_eq_true_eq] at h
  rw [units, ← BinaryFormat.single.units_zero]
  exact BinaryFormat.single.units_strictMono (Nat.pos_of_ne_zero h)

theorem isNearest_div (ha : a.isFinite) (hb : b.isFinite) (hzero : ¬b.isZero) :
    BinaryFormat.single.IsNearest (a.toRat / b.toRat) (a / b).bits.toNat := by
  have hdiv : a / b = ofMagnitude (a.isNegative != b.isNegative)
      (BinaryFormat.single.round (a.units * unitsPerOne) b.units) := by
    simp only [isFinite, decide_eq_true_eq] at ha hb
    have hdef : a / b = div a b := rfl
    rw [hdef, div, if_neg (by simp [isNaN]; omega), if_neg (by simp [isInfinite]; omega),
      if_neg (by simp [isInfinite]; omega), if_neg hzero]
  have hquotient : a.toRat / b.toRat = BinaryFormat.single.amount (a.isNegative != b.isNegative)
      ((a.units * unitsPerOne : ℕ) / b.units) := by
    have hone : (unitsPerOne : ℚ) ≠ 0 := Nat.cast_ne_zero.mpr unitsPerOne_pos.ne'
    have hunits : (b.units : ℚ) ≠ 0 := Nat.cast_ne_zero.mpr (units_pos hzero).ne'
    rw [toRat_eq_amount, toRat_eq_amount]
    cases a.isNegative <;> cases b.isNegative <;> simp [quantum_single] <;> field_simp
  rw [hquotient, hdiv]
  exact isNearest_ofMagnitude _ (units_pos hzero)

end Sample

/-! ## The multiplier of a pixel -/

theorem toRat_leastAlpha : leastAlpha.toRat = 1 / 2 ^ 26 :=
  (Sample.toRat_of_value (n := 1) (d := 2 ^ 26) (by norm_num) (by decide)).trans
    (by norm_num)

/-- The largest multiplier. -/
def largestMultiplier : Sample := ⟨0x4c800000⟩

theorem toRat_largestMultiplier : largestMultiplier.toRat = 2 ^ 26 :=
  (Sample.toRat_of_value (n := 2 ^ 26) one_ne_zero (by decide)).trans (by norm_num)

variable {alpha : Sample}

theorem max_leastAlpha_of_isNaN (h : alpha.isNaN) : alpha.max leastAlpha = leastAlpha := by
  rw [Sample.max, if_pos h]

theorem max_leastAlpha_of_number (h : ¬alpha.isNaN) :
    ¬(alpha.max leastAlpha).isNaN ∧
      (alpha.max leastAlpha).toRat = max alpha.toRat leastAlpha.toRat := by
  obtain ⟨hnumber, hvalue⟩ := VectorUnit.lawful_plain.max_of_number h (b := leastAlpha) (by decide)
  refine ⟨hnumber, ?_⟩
  have hmax : (alpha.max leastAlpha).value = max alpha.value leastAlpha.value := hvalue
  rw [Sample.toRat_eq, Sample.toRat_eq, Sample.toRat_eq, hmax, Int.cast_max,
    max_mul_of_nonneg _ _ BinaryFormat.single.quantum_pos.le]

theorem leastAlpha_le_max (alpha : Sample) :
    ¬(alpha.max leastAlpha).isNaN ∧ leastAlpha.toRat ≤ (alpha.max leastAlpha).toRat := by
  by_cases h : alpha.isNaN
  · rw [max_leastAlpha_of_isNaN h]
    exact ⟨by decide, le_rfl⟩
  · obtain ⟨hnumber, hmax⟩ := max_leastAlpha_of_number h
    exact ⟨hnumber, hmax.symm ▸ le_max_right _ _⟩

theorem max_leastAlpha_pos (alpha : Sample) : 0 < (alpha.max leastAlpha).toRat := by
  refine lt_of_lt_of_le ?_ (leastAlpha_le_max alpha).2
  rw [toRat_leastAlpha]
  positivity

/-- A finite divisor is inverted with one correct rounding. -/
theorem isNearest_alphaMultiplier (h : (alpha.max leastAlpha).isFinite) :
    BinaryFormat.single.IsNearest (1 / (alpha.max leastAlpha).toRat)
      (alphaMultiplier alpha).bits.toNat := by
  have hpositive : ¬(alpha.max leastAlpha).isZero := by
    intro hzero
    simp only [Sample.isZero, decide_eq_true_eq] at hzero
    have hnone := Sample.abs_toRat (alpha.max leastAlpha)
    rw [Sample.units, hzero, BinaryFormat.units_zero, Nat.cast_zero, zero_mul, abs_eq_zero] at hnone
    exact (max_leastAlpha_pos alpha).ne' hnone
  have hnearest := Sample.isNearest_div (a := Sample.one) (by decide) h hpositive
  rwa [Sample.toRat_one] at hnearest

/-- An infinite divisor has the multiplier zero. -/
theorem alphaMultiplier_of_not_isFinite (h : ¬(alpha.max leastAlpha).isFinite) :
    alphaMultiplier alpha = Sample.zero := by
  have hnumber := (leastAlpha_le_max alpha).1
  have hsign : (alpha.max leastAlpha).isNegative = false := by
    rw [Bool.eq_false_iff]
    intro hnegative
    have hpositive := max_leastAlpha_pos alpha
    have hquantum := BinaryFormat.single.quantum_pos
    rw [Sample.toRat_eq_amount, hnegative, BinaryFormat.amount_true, neg_pos] at hpositive
    exact hpositive.not_ge (by positivity)
  have hinfinite : (alpha.max leastAlpha).isInfinite := by
    simp only [Sample.isFinite, Sample.isNaN, Sample.isInfinite, decide_eq_true_eq] at *
    omega
  have hdiv : alphaMultiplier alpha = Sample.div Sample.one (alpha.max leastAlpha) := rfl
  rw [hdiv, Sample.div, if_neg (by simp [hnumber]; decide), if_neg (by decide), if_pos hinfinite,
    hsign]
  decide

/-- Colors are multiplied by a finite number from zero to `2 ^ 26`. -/
theorem alphaMultiplier_bounds (alpha : Sample) :
    (alphaMultiplier alpha).isFinite ∧ 0 ≤ (alphaMultiplier alpha).toRat ∧
      (alphaMultiplier alpha).toRat ≤ 2 ^ 26 := by
  by_cases h : (alpha.max leastAlpha).isFinite
  · -- Both bounds are samples themselves, and so rounding does not pass them.
    have hnearest := isNearest_alphaMultiplier h
    have hpositive := max_leastAlpha_pos alpha
    have hleast := (leastAlpha_le_max alpha).2
    have hlower : 0 ≤ (alphaMultiplier alpha).toRat := by
      have hzero : BinaryFormat.single.toRat Sample.zero.bits.toNat = 0 := Sample.toRat_zero
      rw [← hzero]
      exact hnearest.le_toRat (Sample.isNumber_bits (by decide)) (by rw [hzero]; positivity)
    have hupper : (alphaMultiplier alpha).toRat ≤ 2 ^ 26 := by
      rw [← toRat_largestMultiplier]
      refine hnearest.toRat_le (Sample.isNumber_bits (by decide)) ?_
      have hinverse : 1 / (alpha.max leastAlpha).toRat ≤ largestMultiplier.toRat := by
        rw [toRat_leastAlpha] at hleast
        rw [toRat_largestMultiplier, div_le_iff₀ hpositive]
        linarith
      exact hinverse
    refine ⟨Sample.isFinite_of_abs_toRat_lt ?_, hlower, hupper⟩
    rw [abs_of_nonneg hlower]
    exact hupper.trans_lt (by norm_num)
  · rw [alphaMultiplier_of_not_isFinite h, Sample.toRat_zero]
    exact ⟨by decide, le_rfl, by norm_num⟩

/-- At an alpha of one or more, colors do not grow. -/
theorem alphaMultiplier_le_one (number : ¬alpha.isNaN) (hone : 1 ≤ alpha.toRat) :
    (alphaMultiplier alpha).toRat ≤ 1 := by
  by_cases h : (alpha.max leastAlpha).isFinite
  · have hpositive := max_leastAlpha_pos alpha
    have hinverse : 1 / (alpha.max leastAlpha).toRat ≤ Sample.one.toRat := by
      rw [Sample.toRat_one, div_le_one hpositive, (max_leastAlpha_of_number number).2]
      exact hone.trans (le_max_left _ _)
    have hle := (isNearest_alphaMultiplier h).toRat_le (v := Sample.one.bits.toNat)
      (Sample.isNumber_bits (by decide)) hinverse
    exact hle.trans_eq Sample.toRat_one
  · rw [alphaMultiplier_of_not_isFinite h, Sample.toRat_zero]
    exact zero_le_one

/-- At an alpha that is raised to the smallest divisor, colors grow the most. -/
theorem alphaMultiplier_of_le_leastAlpha (h : alpha.isNaN ∨ alpha.toRat ≤ leastAlpha.toRat) :
    (alphaMultiplier alpha).toRat = 2 ^ 26 := by
  have hdivisor : (alpha.max leastAlpha).toRat = 1 / 2 ^ 26 := by
    rw [← toRat_leastAlpha]
    by_cases hnumber : alpha.isNaN
    · rw [max_leastAlpha_of_isNaN hnumber]
    · rw [(max_leastAlpha_of_number hnumber).2, max_eq_right (h.resolve_left hnumber)]
  have hfinite : (alpha.max leastAlpha).isFinite := by
    refine Sample.isFinite_of_abs_toRat_lt ?_
    rw [hdivisor]
    norm_num
  have hnearest := isNearest_alphaMultiplier hfinite
  have hexact : 1 / (alpha.max leastAlpha).toRat = largestMultiplier.toRat := by
    rw [hdivisor, toRat_largestMultiplier]
    norm_num
  rw [hexact] at hnearest
  exact (hnearest.toRat_eq (Sample.isNumber_bits (by decide))).trans toRat_largestMultiplier

/-! ## Colors and alphas -/

variable {color : Sample}

theorem isNaN_mul_alphaMultiplier (h : color.isFinite) :
    ¬(color * alphaMultiplier alpha).isNaN :=
  Sample.isNaN_mul_of_isFinite h (alphaMultiplier_bounds alpha).1

/-- A finite color overflows where the exact product is beyond the middle between the largest finite
sample and infinity. -/
theorem isFinite_mul_alphaMultiplier_iff (h : color.isFinite) :
    (color * alphaMultiplier alpha).isFinite ↔
      |color.toRat| * (alphaMultiplier alpha).toRat < 2 ^ 128 - 2 ^ 103 := by
  obtain ⟨hfinite, hnonneg, -⟩ := alphaMultiplier_bounds alpha
  rw [Sample.isFinite_mul_iff h hfinite, abs_mul, abs_of_nonneg hnonneg]

/-- Colors below `2 ^ 102 - 2 ^ 77` stay finite at every alpha. -/
theorem isFinite_mul_alphaMultiplier_of_lt (h : color.isFinite)
    (hlt : |color.toRat| < 2 ^ 102 - 2 ^ 77) : (color * alphaMultiplier alpha).isFinite := by
  obtain ⟨-, hnonneg, hle⟩ := alphaMultiplier_bounds alpha
  rw [isFinite_mul_alphaMultiplier_iff h]
  calc |color.toRat| * (alphaMultiplier alpha).toRat ≤ |color.toRat| * 2 ^ 26 :=
        mul_le_mul_of_nonneg_left hle (abs_nonneg _)
    _ < (2 ^ 102 - 2 ^ 77) * 2 ^ 26 := mul_lt_mul_of_pos_right hlt (by positivity)
    _ = 2 ^ 128 - 2 ^ 103 := by norm_num

/-- Finite colors stay finite at an alpha of one or more. -/
theorem isFinite_mul_alphaMultiplier_of_one_le (h : color.isFinite) (number : ¬alpha.isNaN)
    (hone : 1 ≤ alpha.toRat) : (color * alphaMultiplier alpha).isFinite := by
  rw [isFinite_mul_alphaMultiplier_iff h]
  calc |color.toRat| * (alphaMultiplier alpha).toRat ≤ |color.toRat| * 1 :=
        mul_le_mul_of_nonneg_left (alphaMultiplier_le_one number hone) (abs_nonneg _)
    _ ≤ 2 ^ 128 - 2 ^ 104 := by
      rw [mul_one]
      exact Sample.abs_toRat_le_of_isFinite h
    _ < 2 ^ 128 - 2 ^ 103 := by norm_num

theorem isFinite_mul_alphaMultiplier_iff_lt (h : color.isFinite)
    (hsmall : alpha.isNaN ∨ alpha.toRat ≤ leastAlpha.toRat) :
    (color * alphaMultiplier alpha).isFinite ↔ |color.toRat| < 2 ^ 102 - 2 ^ 77 := by
  have hproduct : (2 ^ 128 - 2 ^ 103 : ℚ) = (2 ^ 102 - 2 ^ 77) * 2 ^ 26 := by norm_num
  rw [isFinite_mul_alphaMultiplier_iff h, alphaMultiplier_of_le_leastAlpha hsmall, hproduct]
  exact mul_lt_mul_iff_left₀ (by positivity)

/-! ## Interleaved pixels -/

variable {colors : Nat} {samples : Row}

theorem getElem?_unpremultiply_of_kept {i : Nat}
    (h : i % (colors + 1) = colors ∨
      samples.size ≤ i / (colors + 1) * (colors + 1) + colors) :
    (unpremultiply colors samples)[i]? = samples[i]? := by
  rw [unpremultiply, Array.getElem?_mapIdx]
  rcases h with halpha | htrailing
  · simp [halpha]
  · simp [htrailing]

theorem getElem?_unpremultiply_of_color {pixel index : Nat} (hindex : index < colors)
    (halpha : samples[pixel * (colors + 1) + colors]? = some alpha) :
    (unpremultiply colors samples)[pixel * (colors + 1) + index]? =
      samples[pixel * (colors + 1) + index]?.map (· * alphaMultiplier alpha) := by
  have hmod : (pixel * (colors + 1) + index) % (colors + 1) = index := by
    rw [Nat.mul_add_mod_of_lt (by omega)]
  have hdiv : (pixel * (colors + 1) + index) / (colors + 1) = pixel := by
    rw [Nat.mul_comm, Nat.mul_add_div (by omega), Nat.div_eq_of_lt (by omega), Nat.add_zero]
  simp only [unpremultiply, Array.getElem?_mapIdx, hmod, hdiv, halpha, if_neg hindex.ne]

/-- What becomes of a finite color. -/
structure Divided (color alpha result : Sample) : Prop where
  /-- It is the exact product with the multiplier, rounded correctly. -/
  isNearest : BinaryFormat.single.IsNearest (color.toRat * (alphaMultiplier alpha).toRat)
    result.bits.toNat
  /-- It is a number. -/
  number : ¬result.isNaN
  /-- It is finite unless the product is beyond the finite samples. -/
  isFinite_iff : result.isFinite ↔
    |color.toRat| * (alphaMultiplier alpha).toRat < 2 ^ 128 - 2 ^ 103
  /-- For a transparent pixel, this depends on the color alone. -/
  isFinite_iff_lt : alpha.isNaN ∨ alpha.toRat ≤ leastAlpha.toRat →
    (result.isFinite ↔ |color.toRat| < 2 ^ 102 - 2 ^ 77)
  /-- Such a color stays finite at every alpha. -/
  isFinite_of_lt : |color.toRat| < 2 ^ 102 - 2 ^ 77 → result.isFinite
  /-- At an alpha of one or more every color stays finite. -/
  isFinite_of_one_le : ¬alpha.isNaN → 1 ≤ alpha.toRat → result.isFinite

theorem divided_mul (h : color.isFinite) :
    Divided color alpha (color * alphaMultiplier alpha) where
  isNearest := Sample.isNearest_mul h (alphaMultiplier_bounds alpha).1
  number := isNaN_mul_alphaMultiplier h
  isFinite_iff := isFinite_mul_alphaMultiplier_iff h
  isFinite_iff_lt := isFinite_mul_alphaMultiplier_iff_lt h
  isFinite_of_lt := isFinite_mul_alphaMultiplier_of_lt h
  isFinite_of_one_le := isFinite_mul_alphaMultiplier_of_one_le h

/-- Dividing finite colors through any alphas gives numbers, which are finite unless a product is
beyond the finite samples; alphas and an incomplete last pixel stay as they are.  Only pixels whose
samples cannot be counted are refused. -/
theorem unpremultiplyPixels_finite (colors : Nat) (samples : Row)
    (finite : ∀ pixel index color, index < colors → pixel * (colors + 1) + colors < samples.size →
      samples[pixel * (colors + 1) + index]? = some color → color.isFinite) :
    (Size.bound ≤ colors + 1 → unpremultiplyPixels colors samples = .error .overflow) ∧
    (colors + 1 < Size.bound → ∃ divided, unpremultiplyPixels colors samples = .ok divided ∧
      divided.size = samples.size ∧
      (∀ i, i % (colors + 1) = colors ∨ samples.size ≤ i / (colors + 1) * (colors + 1) + colors →
        divided[i]? = samples[i]?) ∧
      ∀ pixel index, index < colors → pixel * (colors + 1) + colors < samples.size →
        ∃ color alpha result, samples[pixel * (colors + 1) + index]? = some color ∧
          samples[pixel * (colors + 1) + colors]? = some alpha ∧
          divided[pixel * (colors + 1) + index]? = some result ∧ Divided color alpha result) := by
  refine ⟨fun hbeyond ↦ ?_, fun hfits ↦ ⟨unpremultiply colors samples, ?_, ?_, ?_, ?_⟩⟩
  · rw [unpremultiplyPixels, Size.ofNat_of_le hbeyond]
    rfl
  · rw [unpremultiplyPixels, Size.ofNat_of_lt hfits]
    rfl
  · exact size_unpremultiply colors samples
  · intro i hkept
    exact getElem?_unpremultiply_of_kept hkept
  · intro pixel index hindex hpixel
    obtain ⟨alpha, halpha⟩ : ∃ alpha, samples[pixel * (colors + 1) + colors]? = some alpha :=
      ⟨_, Array.getElem?_eq_getElem hpixel⟩
    obtain ⟨color, hcolor⟩ : ∃ color, samples[pixel * (colors + 1) + index]? = some color :=
      ⟨_, Array.getElem?_eq_getElem (by omega)⟩
    refine ⟨color, alpha, color * alphaMultiplier alpha, hcolor, halpha, ?_,
      divided_mul (finite pixel index color hindex hpixel hcolor)⟩
    rw [getElem?_unpremultiply_of_color hindex halpha, hcolor, Option.map_some]

/-- The largest color that stays finite in a transparent pixel. -/
theorem unpremultiplyPixels_finite_largest :
    ∃ divided, unpremultiplyPixels 1 #[⟨0x727fffff⟩, Sample.zero, ⟨0x72800000⟩] = .ok divided ∧
      divided[2]? = some ⟨0x72800000⟩ ∧
      ∃ result, divided[0]? = some result ∧ ¬result.isNaN ∧ result.isFinite := by
  have finite : ∀ pixel index color, index < 1 → pixel * (1 + 1) + 1 < 3 →
      (#[⟨0x727fffff⟩, Sample.zero, ⟨0x72800000⟩] : Row)[pixel * (1 + 1) + index]? = some color →
      color.isFinite := by
    intro pixel index color hindex hpixel hcolor
    obtain rfl : pixel = 0 := by omega
    obtain rfl : index = 0 := by omega
    obtain rfl : ⟨0x727fffff⟩ = color := Option.some.inj hcolor
    decide
  obtain ⟨divided, hdivided, -, hkept, hcolors⟩ :=
    (unpremultiplyPixels_finite 1 #[⟨0x727fffff⟩, Sample.zero, ⟨0x72800000⟩] finite).2 (by decide)
  obtain ⟨color, alpha, result, hcolor, halpha, hresult, hsound⟩ :=
    hcolors 0 0 (by decide) (by decide)
  obtain rfl : ⟨0x727fffff⟩ = color := Option.some.inj hcolor
  obtain rfl : Sample.zero = alpha := Option.some.inj halpha
  have hlarge : (⟨0x727fffff⟩ : Sample).toRat = 2 ^ 102 - 2 ^ 78 :=
    (Sample.toRat_of_value (n := 2 ^ 102 - 2 ^ 78) one_ne_zero (by decide)).trans
      (by norm_num)
  refine ⟨divided, hdivided, hkept 2 (.inr (by decide)), result, hresult, hsound.number, ?_⟩
  rw [hsound.isFinite_iff_lt (.inr ?_), hlarge]
  · norm_num
  · rw [Sample.toRat_zero, toRat_leastAlpha]
    positivity

/-- The largest finite color overflows in a transparent pixel, and one color fewer than there are
sizes is one too many. -/
theorem unpremultiplyPixels_overflows :
    (⟨0x7f7fffff⟩ : Sample).isFinite ∧
      unpremultiplyPixels 1 #[⟨0x7f7fffff⟩, Sample.zero] = .ok #[⟨0x7f800000⟩, Sample.zero] ∧
      ¬(⟨0x7f800000⟩ : Sample).isFinite ∧
      unpremultiplyPixels Size.largest #[Sample.one] = .error .overflow := by
  decide

end Scanline
