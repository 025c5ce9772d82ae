import Scanline.Proofs.Rounding
import Scanline.Sample.Code

/-!
# Codes on a vector unit

A vector unit clamps with comparisons of its own, which may pick either zero, and rounds to signed
integers that nothing cuts off.  None of this can be seen in a code: clamped samples are compared by
value alone, and a product with the largest code never exceeds it
(`VectorUnit.Lawful.laneCode_eq_code`).  So every lawful coder codes a run sample by sample
(`Coder.Lawful.toBytes_eq`, `Coder.Lawful.toWords_eq`).
-/

namespace Scanline

namespace Sample

/-! ## Parts of a result -/

variable {a b s : Sample}

theorem magnitude_ofMagnitude (negative : Bool) {pattern : Nat}
    (h : pattern ≤ BinaryFormat.single.infinity) :
    (ofMagnitude negative pattern).magnitude = pattern := by
  have hbound : pattern < BinaryFormat.single.signBit := Nat.lt_of_le_of_lt h (by decide)
  have hbit : BinaryFormat.single.signBit = 2 ^ 31 := rfl
  rw [hbit] at hbound
  simp only [magnitude, ofMagnitude, hbit, UInt32.toNat_ofNat']
  split <;> omega

theorem isNegative_ofMagnitude (negative : Bool) {pattern : Nat}
    (h : pattern ≤ BinaryFormat.single.infinity) :
    (ofMagnitude negative pattern).isNegative = negative := by
  have hbound : pattern < BinaryFormat.single.signBit := Nat.lt_of_le_of_lt h (by decide)
  have hbit : BinaryFormat.single.signBit = 2 ^ 31 := rfl
  rw [hbit] at hbound
  simp only [isNegative, ofMagnitude, hbit, UInt32.toNat_ofNat']
  cases negative
  · simp
    omega
  · simp
    omega

theorem units_eq_natAbs (a : Sample) : a.units = a.value.natAbs := by
  unfold value
  split <;> simp

theorem isFinite_of_value (lower : 0 ≤ a.value) (upper : a.value ≤ one.value) : a.isFinite := by
  by_contra hinfinite
  simp only [isFinite, decide_eq_true_eq, Nat.not_lt] at hinfinite
  have hle : BinaryFormat.single.units BinaryFormat.single.infinity ≤ a.units :=
    BinaryFormat.single.units_mono hinfinite
  have hone : one.value < BinaryFormat.single.units BinaryFormat.single.infinity := by
    decide +kernel
  rw [units_eq_natAbs] at hle
  omega

/-! ## Products with a scale -/

theorem mul_of_isFinite (ha : a.isFinite) (hs : s.isFinite) :
    a * s = ofMagnitude (a.isNegative != s.isNegative)
      (BinaryFormat.single.round (a.units * s.units) unitsPerOne) := by
  simp only [isFinite, decide_eq_true_eq] at ha hs
  have hmul : a * s = mul a s := rfl
  rw [hmul, mul, if_neg (by simp [isNaN]; omega), if_neg (by simp [isInfinite]; omega)]

theorem isNaN_mul_of_isFinite (ha : a.isFinite) (hs : s.isFinite) : ¬(a * s).isNaN := by
  rw [mul_of_isFinite ha hs]
  simp only [isNaN, decide_eq_true_eq, Nat.not_lt]
  rw [magnitude_ofMagnitude _ BinaryFormat.single.round_le_infinity]
  exact BinaryFormat.single.round_le_infinity

theorem nearest_mul_mono (ha : a.isFinite) (hb : b.isFinite) (hs : s.isFinite)
    (h : a.units ≤ b.units) : (a * s).nearest ≤ (b * s).nearest := by
  have hround : BinaryFormat.single.round (a.units * s.units) unitsPerOne ≤
      BinaryFormat.single.round (b.units * s.units) unitsPerOne :=
    BinaryFormat.single.round_mono (Nat.mul_le_mul_right _ h)
  rw [mul_of_isFinite ha hs, mul_of_isFinite hb hs]
  unfold nearest units
  rw [magnitude_ofMagnitude _ BinaryFormat.single.round_le_infinity,
    magnitude_ofMagnitude _ BinaryFormat.single.round_le_infinity]
  exact roundHalfEven_mono (BinaryFormat.single.units_mono hround)

theorem nearest_mul_of_zero (ha : a.isFinite) (hs : s.isFinite) (hzero : a.units = 0) :
    (a * s).nearest = 0 := by
  have hround : BinaryFormat.single.round 0 unitsPerOne = 0 := by decide +kernel
  rw [mul_of_isFinite ha hs, hzero, Nat.zero_mul, hround]
  unfold nearest units
  rw [magnitude_ofMagnitude _ (Nat.zero_le _)]
  decide +kernel

/-- A largest code that is a sample, and that one is coded as. -/
structure IsScale (largest : Nat) : Prop where
  /-- It is a finite sample. -/
  finite : (ofNat largest).isFinite
  /-- One is coded as it. -/
  nearest_one : (one * ofNat largest).nearest = largest

theorem isScale_byte : IsScale 255 := ⟨by decide +kernel, by decide +kernel⟩

theorem isScale_word : IsScale 65535 := ⟨by decide +kernel, by decide +kernel⟩

namespace IsScale

variable {largest : Nat} (scale : IsScale largest) (lower : 0 ≤ a.value)
  (upper : a.value ≤ one.value)
include scale lower upper

theorem nearest_le : (a * ofNat largest).nearest ≤ largest := by
  have hunits : a.units ≤ one.units := by
    rw [units_eq_natAbs, units_eq_natAbs]
    omega
  exact (nearest_mul_mono (isFinite_of_value lower upper) (by decide) scale.finite
    hunits).trans_eq scale.nearest_one

theorem nearest_of_isNegative (h : (a * ofNat largest).isNegative) :
    (a * ofNat largest).nearest = 0 := by
  have hfinite := isFinite_of_value lower upper
  have hsign : (ofNat largest).isNegative = false :=
    isNegative_ofMagnitude false BinaryFormat.single.round_le_infinity
  rw [mul_of_isFinite hfinite scale.finite,
    isNegative_ofMagnitude _ BinaryFormat.single.round_le_infinity, hsign] at h
  refine nearest_mul_of_zero hfinite scale.finite ?_
  have hnegative : a.isNegative = true := by simpa using h
  rw [value, if_pos hnegative] at lower
  omega

/-- The code of a sample of `[0, 1]` is the integer nearest to its product. -/
theorem saturate_eq : (a * ofNat largest).saturate largest = (a * ofNat largest).nearest := by
  have hnumber := isNaN_mul_of_isFinite (isFinite_of_value lower upper) scale.finite
  unfold saturate
  rw [Bool.eq_false_iff.mpr hnumber, Bool.false_or]
  split
  case isTrue hsign => exact (scale.nearest_of_isNegative lower upper hsign).symm
  case isFalse => exact Nat.min_eq_right (scale.nearest_le lower upper)

theorem signed_eq :
    (if (a * ofNat largest).isNegative then -((a * ofNat largest).nearest : Int)
      else (a * ofNat largest).nearest) = (a * ofNat largest).nearest := by
  split
  case isTrue hsign =>
    rw [scale.nearest_of_isNegative lower upper hsign]
    rfl
  case isFalse => rfl

end IsScale

/-! ## Clamping -/

theorem code_of_isNaN (h : a.isNaN) (largest : Nat) : a.code largest = 0 := by
  have hclamp : a.clampUnit = a := by simp [clampUnit, below, h]
  have hproduct : (a * ofNat largest).isNaN = true := by
    have hmul : a * ofNat largest = mul a (ofNat largest) := rfl
    rw [hmul, mul, h, Bool.true_or, if_pos rfl]
    decide
  rw [code, hclamp, saturate, hproduct, Bool.true_or, if_pos rfl]

/-- Clamping a number moves its value into `[0, 1]`. -/
theorem value_clampUnit (number : ¬a.isNaN) :
    a.clampUnit.value = Min.min (Max.max a.value 0) one.value := by
  have hzero : zero.value = 0 := by decide
  have hone : 0 < one.value := by decide +kernel
  have hzeroNumber : zero.isNaN = false := by decide
  have honeNumber : one.isNaN = false := by decide
  rw [Bool.not_eq_true] at number
  unfold clampUnit below
  simp only [number, hzeroNumber, honeNumber, hzero, Bool.not_false, Bool.true_and,
    decide_eq_true_eq]
  split_ifs <;> omega

end Sample

namespace VectorUnit.Lawful

variable {unit : VectorUnit} (h : unit.Lawful) {a b : Sample}
include h

theorem max_of_number (ha : ¬a.isNaN) (hb : ¬b.isNaN) :
    ¬(unit.max a b).isNaN ∧ (unit.max a b).value = Max.max a.value b.value := by
  have hle := h.le_max a b ha hb
  rcases h.max_mem a b ha hb with hmem | hmem <;> rw [hmem] at hle ⊢
  · exact ⟨ha, by omega⟩
  · exact ⟨hb, by omega⟩

theorem value_min (ha : ¬a.isNaN) (hb : ¬b.isNaN) :
    (unit.min a b).value = Min.min a.value b.value := by
  have hle := h.min_le a b ha hb
  rcases h.min_mem a b ha hb with hmem | hmem <;> rw [hmem] at hle ⊢ <;> omega

/-- A lane clamps a number to the value that a single sample is clamped to. -/
theorem value_clamp (ha : ¬a.isNaN) :
    (unit.min (unit.max a Sample.zero) Sample.one).value =
      Min.min (Max.max a.value 0) Sample.one.value := by
  have hzero : Sample.zero.value = 0 := by decide
  obtain ⟨hmax, hvalue⟩ := h.max_of_number ha (b := Sample.zero) (by decide)
  rw [h.value_min hmax (by decide), hvalue, hzero]

/-- A lane has the code of a single sample. -/
theorem laneCode_eq_code {largest : Nat} (scale : Sample.IsScale largest) (a : Sample) :
    unit.laneCode largest a = a.code largest := by
  have hone : 0 < Sample.one.value := by decide +kernel
  have hzero : Sample.zero.value = 0 := by decide
  by_cases hnumber : a.isNaN = true
  · -- No number is coded as zero, and so is the zero that a lane puts in its place.
    have hvalue := h.value_clamp (a := Sample.zero) (by decide)
    rw [hzero] at hvalue
    rw [Sample.code_of_isNaN hnumber]
    simp only [laneCode, if_pos hnumber]
    rw [scale.signed_eq (by omega) (by omega), Sample.nearest_mul_of_zero
      (Sample.isFinite_of_value (by omega) (by omega)) scale.finite
      (by rw [Sample.units_eq_natAbs]; omega)]
  · have hlane := h.value_clamp hnumber
    have hsingle := Sample.value_clampUnit hnumber
    have hunits : (unit.min (unit.max a Sample.zero) Sample.one).units = a.clampUnit.units := by
      rw [Sample.units_eq_natAbs, Sample.units_eq_natAbs, hlane, hsingle]
    have hlaneFinite : (unit.min (unit.max a Sample.zero) Sample.one).isFinite :=
      Sample.isFinite_of_value (by omega) (by omega)
    have hsingleFinite : a.clampUnit.isFinite := Sample.isFinite_of_value (by omega) (by omega)
    simp only [laneCode, Sample.code, if_neg hnumber]
    rw [scale.signed_eq (by omega) (by omega),
      scale.saturate_eq (by omega) (by omega)]
    exact congrArg Int.ofNat (Nat.le_antisymm
      (Sample.nearest_mul_mono hlaneFinite hsingleFinite scale.finite (Nat.le_of_eq hunits))
      (Sample.nearest_mul_mono hsingleFinite hlaneFinite scale.finite (Nat.le_of_eq hunits.symm)))

end VectorUnit.Lawful

/-! ## Coding runs -/

/-- A vector unit whose comparisons are those of single samples is lawful. -/
theorem VectorUnit.lawful_plain : VectorUnit.plain.Lawful where
  max_mem a b ha hb := by
    simp only [plain, Sample.max, ha, hb]
    split_ifs <;> simp
  le_max a b ha hb := by
    simp only [plain, Sample.max, Sample.below, ha, hb]
    split_ifs <;> simp_all
    omega
  min_mem a b ha hb := by
    simp only [plain, Sample.min, ha, hb]
    split_ifs <;> simp
  min_le a b ha hb := by
    simp only [plain, Sample.min, Sample.below, ha, hb]
    split_ifs <;> simp_all
    omega

theorem byVectors_eq_map {α : Type} {single : Sample → α} (samples : List Sample) :
    byVectors (List.map single) single samples = samples.map single := by
  fun_induction byVectors (List.map single) single samples with
  | case1 samples hfull ih => rw [ih, ← List.map_append, List.take_append_drop]
  | case2 samples _ => rfl

namespace Coder

/-- A coder that relies on a lawful vector unit, or on none. -/
def Lawful : Coder → Prop
  | single => True
  | vector unit => unit.Lawful

theorem lawful_standard : standard.Lawful := VectorUnit.lawful_plain

variable {coder : Coder} (row : Row)

/-- A run is coded sample by sample if the lanes of a vector unit do what is done to one sample. -/
theorem codes_eq_map {α : Type} {lane : VectorUnit → Sample → α} {one : Sample → α}
    (h : ∀ unit, coder = vector unit → lane unit = one) :
    coder.codes lane one row = row.map one := by
  cases coder with
  | single => rfl
  | vector unit =>
    rw [codes, h unit rfl, byVectors_eq_map, ← Array.toList_map, Array.toArray_toList]

/-- A lawful coder codes a run byte by byte. -/
theorem Lawful.toBytes_eq (h : coder.Lawful) : coder.toBytes row = row.map Sample.toByte := by
  refine codes_eq_map row ?_
  rintro unit rfl
  funext a
  have hcode : ((a.code 255 : Int) % 2 ^ 8).toNat = a.code 255 % 2 ^ 8 := by omega
  rw [VectorUnit.Lawful.laneCode_eq_code h Sample.isScale_byte, UInt8.ofInt, hcode]
  exact UInt8.ofNat_mod_size

/-- A lawful coder codes a run word by word. -/
theorem Lawful.toWords_eq (h : coder.Lawful) : coder.toWords row = row.map Sample.toWord := by
  refine codes_eq_map row ?_
  rintro unit rfl
  funext a
  have hcode : ((a.code 65535 : Int) % 2 ^ 16).toNat = a.code 65535 % 2 ^ 16 := by omega
  rw [VectorUnit.Lawful.laneCode_eq_code h Sample.isScale_word, UInt16.ofInt, hcode]
  exact UInt16.ofNat_mod_size

theorem toHalves_eq : coder.toHalves row = row.map Sample.toHalf := rfl

end Coder

end Scanline
