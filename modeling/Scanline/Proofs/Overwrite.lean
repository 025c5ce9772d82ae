import Scanline.Row.Window

/-!
# Overwriting pieces of an array

Sinks and workers write into arrays one piece after another.  What has been written is read back
(`extract_overwrite`), adjoining pieces are one piece (`overwrite_overwrite_adjacent`), and pieces
apart from each other may be written in either order (`overwrite_comm`).
-/

namespace Scanline

variable {α : Type}

@[simp] theorem overwrite_empty (target : Array α) (start : Nat) :
    overwrite target start #[] = target := by
  simp [overwrite, overwriteFrom]

theorem getElem?_overwrite_of_outside {target source : Array α} {start i : Nat}
    (h : i < start ∨ start + source.size ≤ i) :
    (overwrite target start source)[i]? = target[i]? := by
  rw [getElem?_overwrite, if_neg (by omega)]

theorem getElem?_overwrite_of_inside {target source : Array α} {start k : Nat}
    (h : k < source.size) (room : start + source.size ≤ target.size) :
    (overwrite target start source)[start + k]? = source[k]? := by
  rw [getElem?_overwrite, if_pos (by omega), Nat.add_sub_cancel_left]

/-- What was written is read back. -/
theorem extract_overwrite {target source : Array α} {start : Nat}
    (room : start + source.size ≤ target.size) :
    (overwrite target start source).extract start (start + source.size) = source := by
  apply Array.ext_getElem?
  intro i
  rw [Array.getElem?_extract, size_overwrite]
  by_cases inside : i < source.size
  · rw [if_pos (by omega), getElem?_overwrite_of_inside inside room]
  · rw [if_neg (by omega), Array.getElem?_eq_none (by omega)]

theorem extract_overwrite_zero {target source : Array α} {n : Nat} (hsource : source.size = n)
    (room : n ≤ target.size) : (overwrite target 0 source).extract 0 n = source := by
  subst hsource
  have hread : (overwrite target 0 source).extract 0 (0 + source.size) = source :=
    extract_overwrite (by omega)
  rwa [Nat.zero_add] at hread

theorem overwrite_all {target source : Array α} (h : source.size = target.size) :
    overwrite target 0 source = source := by
  have hread : (overwrite target 0 source).extract 0 target.size = source :=
    extract_overwrite_zero h (Nat.le_refl _)
  rwa [← size_overwrite target 0 source, Array.extract_size] at hread

/-- Two adjoining pieces are one piece. -/
theorem overwrite_overwrite_adjacent (target left right : Array α) (start : Nat) :
    overwrite (overwrite target start left) (start + left.size) right =
      overwrite target start (left ++ right) := by
  apply Array.ext_getElem?
  intro i
  simp only [getElem?_overwrite, size_overwrite, Array.size_append, Array.getElem?_append]
  rcases Nat.lt_or_ge i start with before | after
  · rw [if_neg (by omega), if_neg (by omega), if_neg (by omega)]
  · rcases Nat.lt_or_ge i (start + left.size) with inLeft | inRight
    · rw [if_neg (by omega)]
      by_cases inside : i < target.size
      · rw [if_pos (by omega), if_pos (by omega), if_pos (by omega)]
      · rw [if_neg (by omega), if_neg (by omega)]
    · by_cases inside : i < start + left.size + right.size ∧ i < target.size
      · rw [if_pos (by omega), if_pos (by omega), if_neg (by omega)]
        congr 1
        omega
      · rw [if_neg (by omega), if_neg (by omega), if_neg (by omega)]

/-- Pieces apart from each other may be written in either order. -/
theorem overwrite_comm {target a b : Array α} {i j : Nat}
    (apart : i + a.size ≤ j ∨ j + b.size ≤ i) :
    overwrite (overwrite target i a) j b = overwrite (overwrite target j b) i a := by
  apply Array.ext_getElem?
  intro k
  simp only [getElem?_overwrite, size_overwrite]
  by_cases inA : i ≤ k ∧ k < i + a.size ∧ k < target.size
  · rw [if_neg (by omega), if_pos inA, if_pos inA]
  · rw [if_neg inA, if_neg inA]

/-- Spans of rows that lie one after another: without a common place in one row they have none at
all. -/
theorem spans_disjoint {stride i j a b m n : Nat} (ha : a + m ≤ stride) (hb : b + n ≤ stride)
    (apart : i ≠ j ∨ a + m ≤ b ∨ b + n ≤ a) :
    i * stride + a + m ≤ j * stride + b ∨ j * stride + b + n ≤ i * stride + a := by
  rcases Nat.lt_trichotomy i j with hlt | rfl | hgt
  · have hle : (i + 1) * stride ≤ j * stride := Nat.mul_le_mul_right _ hlt
    rw [Nat.add_mul, Nat.one_mul] at hle
    exact .inl (by omega)
  · omega
  · have hle : (j + 1) * stride ≤ i * stride := Nat.mul_le_mul_right _ hgt
    rw [Nat.add_mul, Nat.one_mul] at hle
    exact .inr (by omega)

end Scanline
