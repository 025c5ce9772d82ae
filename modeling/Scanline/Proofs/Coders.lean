import Mathlib.Order.MinMax
import Scanline.Proofs.Codes

/-!
# Coders fill a destination

A coder walks a run and the places that its codes go to side by side: full vectors of both, and
then what is left of the run over what is left of the places.  Where there are as many places as
samples, what they held is gone, and they hold the codes of the run (`Coder.fill_eq`).  So
nothing shows which coder filled them, as long as its vector unit is lawful
(`Coder.vector_eq_single`).
-/

namespace Scanline

variable {α : Type}

/-! ## Filling places -/

/-- Lays codes over places, one after another, until either runs out. -/
def layOver : List α → List α → List α
  | code :: codes, _ :: places => code :: layOver codes places
  | _, places => places

theorem layOver_of_length_eq {codes places : List α} (h : codes.length = places.length) :
    layOver codes places = codes := by
  induction codes generalizing places with
  | nil => exact List.eq_nil_of_length_eq_zero h.symm
  | cons code codes ih =>
    cases places with
    | nil => simp at h
    | cons _ places => rw [layOver, ih (Nat.succ.inj h)]

/-- Lays the codes of full vectors over full vectors of places, and the codes of the incomplete
vector that ends the run over the incomplete vector that ends the places. -/
def fillByVectors (vector : List Sample → List α) (single : Sample → α) (samples : List Sample)
    (places : List α) : List α :=
  if vectorWidth ≤ samples.length ∧ vectorWidth ≤ places.length then
    layOver (vector (samples.take vectorWidth)) (places.take vectorWidth) ++
      fillByVectors vector single (samples.drop vectorWidth) (places.drop vectorWidth)
  else
    let coded := samples.length / vectorWidth * vectorWidth
    let filled := places.length / vectorWidth * vectorWidth
    places.take filled ++ layOver ((samples.drop coded).map single) (places.drop filled)
termination_by samples.length
decreasing_by simp only [List.length_drop, vectorWidth] at *; omega

/-- Places for all codes of a run hold these codes, vector by vector. -/
theorem fillByVectors_eq {vector : List Sample → List α} {single : Sample → α}
    (hvector : ∀ samples, (vector samples).length = samples.length) {samples : List Sample}
    {places : List α} (h : places.length = samples.length) :
    fillByVectors vector single samples places = byVectors vector single samples := by
  fun_induction byVectors vector single samples generalizing places with
  | case1 samples hfull ih =>
    rw [List.length_take, min_eq_left_iff] at hfull
    have hlaid : (vector (samples.take vectorWidth)).length =
        (places.take vectorWidth).length := by
      rw [hvector, List.length_take, List.length_take, h]
    rw [fillByVectors, if_pos ⟨hfull, h ▸ hfull⟩, layOver_of_length_eq hlaid,
      ih (by rw [List.length_drop, List.length_drop, h])]
  | case2 samples hrest =>
    -- Run and places come to their ends together, and neither has a full vector left.
    rw [List.length_take, min_eq_left_iff] at hrest
    have hnone : samples.length / vectorWidth = 0 := Nat.div_eq_of_lt (Nat.lt_of_not_le hrest)
    rw [fillByVectors, if_neg fun hfull ↦ hrest hfull.1]
    dsimp only
    rw [h, hnone, Nat.zero_mul, List.take_zero, List.nil_append, List.drop_zero, List.drop_zero,
      layOver_of_length_eq (by rw [List.length_map, h])]

namespace Coder

/-- Fills places with what is made of the samples of a run, one at a time or in the lanes of a
vector unit. -/
def fill (coder : Coder) (lane : VectorUnit → Sample → α) (one : Sample → α) (row : Row)
    (places : List α) : List α :=
  match coder with
  | single => layOver (row.toList.map one) places
  | vector unit => fillByVectors (List.map (lane unit)) one row.toList places

/-- Fills places with 8-bit codes. -/
def fillBytes (coder : Coder) : Row → List UInt8 → List UInt8 :=
  coder.fill (fun unit a ↦ UInt8.ofInt (unit.laneCode 255 a)) Sample.toByte

/-- Fills places with 16-bit codes. -/
def fillWords (coder : Coder) : Row → List UInt16 → List UInt16 :=
  coder.fill (fun unit a ↦ UInt16.ofInt (unit.laneCode 65535 a)) Sample.toWord

/-- Fills places with half-precision patterns; every coder converts sample by sample. -/
def fillHalves (_ : Coder) (row : Row) (places : List UInt16) : List UInt16 :=
  layOver (row.toList.map Sample.toHalf) places

variable {coder : Coder} {row : Row}

/-- Places for all samples of a run hold what is made of the run. -/
theorem fill_eq {lane : VectorUnit → Sample → α} {one : Sample → α} {places : List α}
    (h : places.length = row.size) :
    coder.fill lane one row places = (coder.codes lane one row).toList := by
  cases coder with
  | single => exact (layOver_of_length_eq (by simp [h])).trans Array.toList_map.symm
  | vector unit => exact fillByVectors_eq (by simp) (by simpa using h)

theorem fillBytes_eq {places : List UInt8} (h : places.length = row.size) :
    coder.fillBytes row places = (coder.toBytes row).toList := fill_eq h

theorem fillWords_eq {places : List UInt16} (h : places.length = row.size) :
    coder.fillWords row places = (coder.toWords row).toList := fill_eq h

theorem fillHalves_eq {places : List UInt16} (h : places.length = row.size) :
    coder.fillHalves row places = (coder.toHalves row).toList :=
  (layOver_of_length_eq (by simp [h])).trans Array.toList_map.symm

/-- A lawful vector unit codes every run as if its samples were taken one at a time, and fills the
same number of places with the same codes, whatever they held. -/
theorem vector_eq_single {unit : VectorUnit} (h : unit.Lawful) (row : Row) :
    (vector unit).toBytes row = single.toBytes row ∧
    (vector unit).toWords row = single.toWords row ∧
    (vector unit).toHalves row = single.toHalves row ∧
    (∀ places : List UInt8, places.length = row.size →
      (vector unit).fillBytes row places = row.toList.map Sample.toByte ∧
      single.fillBytes row places = row.toList.map Sample.toByte) ∧
    ∀ places : List UInt16, places.length = row.size →
      (vector unit).fillWords row places = row.toList.map Sample.toWord ∧
      single.fillWords row places = row.toList.map Sample.toWord ∧
      (vector unit).fillHalves row places = row.toList.map Sample.toHalf ∧
      single.fillHalves row places = row.toList.map Sample.toHalf := by
  have hvector : (vector unit).Lawful := h
  have hsingle : single.Lawful := trivial
  refine ⟨?_, ?_, rfl, fun places hplaces ↦ ⟨?_, ?_⟩, fun places hplaces ↦ ⟨?_, ?_, ?_, ?_⟩⟩
  · rw [hvector.toBytes_eq, hsingle.toBytes_eq]
  · rw [hvector.toWords_eq, hsingle.toWords_eq]
  · rw [fillBytes_eq hplaces, hvector.toBytes_eq, Array.toList_map]
  · rw [fillBytes_eq hplaces, hsingle.toBytes_eq, Array.toList_map]
  · rw [fillWords_eq hplaces, hvector.toWords_eq, Array.toList_map]
  · rw [fillWords_eq hplaces, hsingle.toWords_eq, Array.toList_map]
  · rw [fillHalves_eq hplaces, toHalves_eq, Array.toList_map]
  · rw [fillHalves_eq hplaces, toHalves_eq, Array.toList_map]

end Coder

/-- A unit that gives its second operand where neither is the larger or the smaller one. -/
def VectorUnit.second : VectorUnit where
  max a b := if b.below a then a else b
  min a b := if a.below b then a else b

theorem VectorUnit.lawful_second : VectorUnit.second.Lawful where
  max_mem a b _ _ := by
    simp only [second]
    split_ifs <;> simp
  le_max a b ha hb := by
    simp only [second, Sample.below, ha, hb]
    split_ifs <;> simp_all
    omega
  min_mem a b _ _ := by
    simp only [second]
    split_ifs <;> simp
  min_le a b ha hb := by
    simp only [second, Sample.below, ha, hb]
    split_ifs <;> simp_all
    omega

/-- Zeros of both signs, infinities, no number, a subnormal number and a half, with one sample
beyond the first vector. -/
theorem Coder.vector_eq_single_second :
    VectorUnit.second.Lawful ∧
      (vector .second).toBytes #[⟨0x80000000⟩, ⟨0⟩, ⟨0x7f800000⟩, ⟨0xff800000⟩, ⟨0x7fc00000⟩,
        ⟨0x80000001⟩, ⟨0x3f000000⟩, ⟨0x3f7f7f80⟩, ⟨0x80000000⟩] =
      single.toBytes #[⟨0x80000000⟩, ⟨0⟩, ⟨0x7f800000⟩, ⟨0xff800000⟩, ⟨0x7fc00000⟩,
        ⟨0x80000001⟩, ⟨0x3f000000⟩, ⟨0x3f7f7f80⟩, ⟨0x80000000⟩] ∧
      (vector .second).fillWords #[⟨0x80000000⟩, ⟨0x3f800000⟩] [7, 9] = [0, 65535] := by
  refine ⟨VectorUnit.lawful_second, (vector_eq_single VectorUnit.lawful_second _).1, ?_⟩
  have hwords := (vector_eq_single VectorUnit.lawful_second #[⟨0x80000000⟩, ⟨0x3f800000⟩]).2.2.2.2
    [7, 9] (by decide)
  rw [hwords.1]
  decide

end Scanline
