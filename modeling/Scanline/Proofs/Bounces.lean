import Mathlib.Logic.Function.Iterate
import Scanline.Proofs.Reflection

/-!
# Bouncing between the edges of a row

`reflect` turns a position at one edge of a row and then at the other, until it lies in the row;
`bounce` is one such turn.  Cut into copies of the row, the line has position `x` in copy
`x / width`, where copy zero is the row itself.  A turn may lead from one side of the row to the
other, but always to a copy that is one closer to it (`natAbs_bounce_ediv`).  So there are as many
turns as copies to go, and as none changes what `reflect` finds, the last position is that
column (`Settles`).

Main statement: every position settles on the column that its remainder modulo twice the width
tells, and a run of columns holds the samples of the columns that its positions settle on, copied
straight or not (`reflection_settles`).
-/

namespace Scanline

/-- A position turned at the edge that it lies beyond.  In the row it stays where it is. -/
def bounce (width : Nat) (x : Int) : Int :=
  if x < 0 then -x - 1 else if width ≤ x then 2 * width - 1 - x else x

/-- Position `x` comes to rest on a column of the row. -/
structure Settles (width : Nat) (x : Int) (column : Nat) : Prop where
  /-- It is in the row once it was turned as often as it is copies away from it, and not before. -/
  inside_iff (n : Nat) :
    0 ≤ (bounce width)^[n] x ∧ (bounce width)^[n] x < width ↔ (x / width).natAbs ≤ n
  /-- There it lies at the column. -/
  column_eq : (bounce width)^[(x / width).natAbs] x = column
  /-- On its way it is never further from column zero than it was at first. -/
  natAbs_le (n : Nat) : ((bounce width)^[n] x).natAbs ≤ x.natAbs

section Bounce

variable {width : Nat}

theorem natAbs_bounce_le (positive : 0 < width) (x : Int) :
    (bounce width x).natAbs ≤ x.natAbs := by
  unfold bounce
  split_ifs <;> omega

theorem natAbs_iterate_bounce_le (positive : 0 < width) (x : Int) (n : Nat) :
    ((bounce width)^[n] x).natAbs ≤ x.natAbs := by
  induction n with
  | zero => exact le_rfl
  | succ n ih =>
    rw [Function.iterate_succ_apply']
    exact (natAbs_bounce_le positive _).trans ih

/-- Positions in the row are those no copy away from it. -/
theorem inside_iff_natAbs_ediv (positive : 0 < width) (x : Int) :
    0 ≤ x ∧ x < width ↔ (x / width).natAbs = 0 := by
  have hge : 0 ≤ x / (width : Int) ↔ 0 ≤ x := Int.ediv_nonneg_iff_of_pos (by omega)
  have hlt : x / (width : Int) < 1 ↔ x < 1 * width := Int.ediv_lt_iff_lt_mul (by omega)
  omega

/-- Turned at the first column, copy `q` of the row becomes copy `-q - 1`. -/
theorem before_ediv (positive : 0 < width) (x : Int) :
    (-x - 1) / (width : Int) = -(x / width) - 1 := by
  have hlt : x % width < width := Int.emod_lt_of_pos x (by omega)
  have hge : 0 ≤ x % width := Int.emod_nonneg x (by omega)
  have hx := Int.emod_add_mul_ediv x width
  refine ((Int.ediv_emod_unique (r := width - 1 - x % width) (by omega)).2 ⟨?_, ?_, ?_⟩).1
  · linear_combination -hx
  · omega
  · omega

/-- Turned at the last column, copy `q` of the row becomes copy `1 - q`. -/
theorem after_ediv (positive : 0 < width) (x : Int) :
    (2 * width - 1 - x) / (width : Int) = 1 - x / width := by
  have hshift : (2 * width - 1 - x : Int) = -x - 1 + 2 * width := by omega
  rw [hshift, Int.add_mul_ediv_right _ _ (by omega), before_ediv positive]
  omega

/-- A turn leads one copy closer to the row. -/
theorem natAbs_bounce_ediv (positive : 0 < width) (x : Int) :
    (bounce width x / width).natAbs = (x / width).natAbs - 1 := by
  have hwidth : (0 : Int) < width := by omega
  unfold bounce
  split_ifs with before after
  · have hneg : x / width < 0 := Int.ediv_neg_of_neg_of_pos before hwidth
    rw [before_ediv positive]
    omega
  · have hone : 1 ≤ x / width := (Int.le_ediv_iff_mul_le hwidth).2 (by omega)
    rw [after_ediv positive]
    omega
  · rw [(inside_iff_natAbs_ediv positive x).1 (by omega)]

/-- Any number of turns leads as many copies closer to the row. -/
theorem natAbs_iterate_bounce_ediv (positive : 0 < width) (x : Int) (n : Nat) :
    ((bounce width)^[n] x / width).natAbs = (x / width).natAbs - n := by
  induction n with
  | zero => rfl
  | succ n ih => rw [Function.iterate_succ_apply', natAbs_bounce_ediv positive, ih, Nat.sub_sub]

theorem reflect_bounce (positive : 0 < width) (x : Int) :
    reflect width positive (bounce width x) = reflect width positive x := by
  rw [reflect.eq_def width positive x, bounce]
  split_ifs with before after
  · rfl
  · rfl
  · rw [reflect, if_neg before, if_neg after]

theorem reflect_iterate_bounce (positive : 0 < width) (x : Int) (n : Nat) :
    reflect width positive ((bounce width)^[n] x) = reflect width positive x := by
  induction n with
  | zero => rfl
  | succ n ih => rw [Function.iterate_succ_apply', reflect_bounce, ih]

/-- A position comes to rest on the column that reflecting finds. -/
theorem settles_reflect (positive : 0 < width) (x : Int) :
    Settles width x (reflect width positive x) := by
  have inside_iff : ∀ n, 0 ≤ (bounce width)^[n] x ∧ (bounce width)^[n] x < width ↔
      (x / width).natAbs ≤ n := fun n ↦ by
    rw [inside_iff_natAbs_ediv positive, natAbs_iterate_bounce_ediv positive,
      Nat.sub_eq_zero_iff_le]
  refine ⟨inside_iff, ?_, natAbs_iterate_bounce_le positive x⟩
  obtain ⟨hge, hlt⟩ := (inside_iff _).2 le_rfl
  rw [← reflect_iterate_bounce positive x (x / width).natAbs, reflect_eq_mirrorColumn,
    mirrorColumn_of_inside hge hlt, Int.toNat_of_nonneg hge]

theorem cast_reflect (positive : 0 < width) (x : Int) :
    (reflect width positive x : Int) =
      if x % (2 * width) < width then x % (2 * width) else 2 * width - 1 - x % (2 * width) := by
  have hlt : x % (2 * width) < 2 * width := Int.emod_lt_of_pos x (by omega)
  have hge : 0 ≤ x % (2 * width) := Int.emod_nonneg x (by omega)
  rw [reflect_eq_mirrorColumn, mirrorColumn]
  split_ifs <;> omega

end Bounce

/-- Every position settles on a column, the one that its remainder modulo twice the width tells.  So
every run of columns of a row that is not empty holds the samples of the columns that its positions
settle on, and where it would be copied straight, bouncing gives the same. -/
theorem reflection_settles :
    (∀ (width : Nat) (positive : 0 < width) (x : Int),
      Settles width x (reflect width positive x) ∧
        (reflect width positive x : Int) =
          if x % (2 * width) < width then x % (2 * width)
          else 2 * width - 1 - x % (2 * width)) ∧
    ∀ (source : Row) (positive : 0 < source.size) (start : Int) (length : Nat),
      (reflectedRun source start length).size = length ∧
        (∀ i < length, ∃ h : reflect source.size positive (start + i) < source.size,
          (reflectedRun source start length)[i]? =
            some source[reflect source.size positive (start + i)]) ∧
        (0 ≤ start → start + length ≤ source.size →
          source.extract start.toNat (start.toNat + length) =
            Array.ofFn fun i : Fin length ↦
              source[reflect source.size positive (start + i)]?.getD .zero) := by
  refine ⟨fun width positive x ↦ ⟨settles_reflect positive x, cast_reflect positive x⟩, ?_⟩
  intro source positive start length
  have hrun := reflectedRun_eq_ofFn source start length
  simp only [Row.extended, ← reflect_eq_mirrorColumn positive] at hrun
  refine ⟨by rw [hrun, Array.size_ofFn], fun i hi ↦ ?_, fun hge hle ↦ ?_⟩
  · have hlt : reflect source.size positive (start + i) < source.size := by
      rw [reflect_eq_mirrorColumn]
      exact mirrorColumn_lt positive _
    refine ⟨hlt, ?_⟩
    rw [hrun, Array.getElem?_ofFn, dif_pos hi, Array.getElem?_eq_getElem hlt, Option.getD_some]
  · rw [← hrun, reflectedRun, if_pos ⟨hge, hle⟩]

/-- Column `7` of two comes to rest on column `0` after three turns, and three columns with two more
before them and one after are those of the row, turned at its edges. -/
theorem reflection_settles_short :
    Settles 2 7 0 ∧
      reflectedRun #[.zero, .one, .two] (-2) 6 = #[.one, .zero, .zero, .one, .two, .two] := by
  obtain ⟨hsettles, hruns⟩ := reflection_settles
  have hcolumn : ∀ (width : Nat) (positive : 0 < width) (x : Int) (column : Nat),
      (if x % (2 * width) < width then x % (2 * width)
        else 2 * width - 1 - x % (2 * width)) = column →
      reflect width positive x = column := fun width positive x column h ↦
    Int.ofNat_inj.1 ((hsettles width positive x).2.trans h)
  refine ⟨hcolumn 2 (by decide) 7 0 (by decide) ▸ (hsettles 2 (by decide) 7).1, ?_⟩
  obtain ⟨hsize, hsamples, -⟩ := hruns #[.zero, .one, .two] (by decide) (-2) 6
  have hshown : ∀ (i column : Nat) (_ : i < 6) (_ : column < 3),
      (if (-2 + i : Int) % 6 < 3 then (-2 + i : Int) % 6 else 5 - (-2 + i : Int) % 6) = column →
      (reflectedRun #[.zero, .one, .two] (-2) 6)[i]? =
        some (#[Sample.zero, .one, .two][column]) := by
    intro i column hi h hclosed
    obtain ⟨_, hsample⟩ := hsamples i hi
    obtain rfl := hcolumn 3 (by decide) (-2 + i) column hclosed
    exact hsample
  refine Array.ext_getElem? fun i ↦ ?_
  match i with
  | 0 => exact hshown 0 1 (by decide) (by decide) (by decide)
  | 1 => exact hshown 1 0 (by decide) (by decide) (by decide)
  | 2 => exact hshown 2 0 (by decide) (by decide) (by decide)
  | 3 => exact hshown 3 1 (by decide) (by decide) (by decide)
  | 4 => exact hshown 4 2 (by decide) (by decide) (by decide)
  | 5 => exact hshown 5 2 (by decide) (by decide) (by decide)
  | i + 6 => rw [Array.getElem?_eq_none (by omega), Array.getElem?_eq_none (by simp)]

end Scanline
