import Mathlib.Tactic.LinearCombination
import Mathlib.Tactic.Ring
import Scanline.Row.Reflection
import Scanline.Row.Window

/-!
# Rows without ends

A row that is reflected at its edges, as often as needed, repeats with twice its width.
`mirrorColumn` says in closed form which column of the row such a position shows, and
`Row.extended` is the row without ends.  Main statements: the reflecting recursion has that closed
form (`reflect_eq_mirrorColumn`), and a reflected run is a piece of the extended row whether or not
it is copied straight (`reflectedRun_eq_ofFn`).
-/

namespace Scanline

/-- The column of a row of the given width that position `x` shows: within a period of twice the
width, the first half runs forth and the second half runs back. -/
def mirrorColumn (width : Nat) (x : Int) : Nat :=
  if (x % (2 * width)).toNat < width then (x % (2 * width)).toNat
  else 2 * width - 1 - (x % (2 * width)).toNat

section MirrorColumn

variable {width : Nat}

theorem mirrorColumn_of_inside {x : Int} (h0 : 0 ≤ x) (h1 : x < width) :
    mirrorColumn width x = x.toNat := by
  have hm : x % (2 * width) = x := Int.emod_eq_of_lt h0 (by omega)
  rw [mirrorColumn, hm, if_pos (by omega)]

theorem mirrorColumn_lt (positive : 0 < width) (x : Int) : mirrorColumn width x < width := by
  have hlt : x % (2 * width) < 2 * width := Int.emod_lt_of_pos x (by omega)
  have hge : 0 ≤ x % (2 * width) := Int.emod_nonneg x (by omega)
  unfold mirrorColumn
  split <;> omega

/-- What lies before the row is the row, seen from column `-1` outwards. -/
theorem mirrorColumn_before (positive : 0 < width) (x : Int) :
    mirrorColumn width (-x - 1) = mirrorColumn width x := by
  have hlt : x % (2 * width) < 2 * width := Int.emod_lt_of_pos x (by omega)
  have hge : 0 ≤ x % (2 * width) := Int.emod_nonneg x (by omega)
  have hback : (-x - 1) % (2 * width) = 2 * width - 1 - x % (2 * width) := by
    have hx := Int.mul_ediv_add_emod x (2 * width)
    calc (-x - 1) % (2 * (width : Int))
        = (2 * width - 1 - x % (2 * width) + 2 * width * (-(x / (2 * width)) - 1))
            % (2 * width) := by congr 1; linear_combination hx
      _ = (2 * width - 1 - x % (2 * width)) % (2 * width) := Int.add_mul_emod_self_left ..
      _ = _ := Int.emod_eq_of_lt (by omega) (by omega)
  unfold mirrorColumn
  rw [hback]
  split <;> split <;> omega

/-- What lies after the row is the row, seen from column `width` outwards. -/
theorem mirrorColumn_after (positive : 0 < width) (x : Int) :
    mirrorColumn width (2 * width - 1 - x) = mirrorColumn width x := by
  have hshift : (2 * width - 1 - x : Int) = -x - 1 + 2 * width := by omega
  have hperiod : mirrorColumn width (2 * width - 1 - x) = mirrorColumn width (-x - 1) := by
    rw [mirrorColumn, mirrorColumn, hshift, Int.add_emod_right]
  rw [hperiod, mirrorColumn_before positive]

/-- Reflecting until a position lies in the row finds the column that it shows. -/
theorem reflect_eq_mirrorColumn (positive : 0 < width) (x : Int) :
    reflect width positive x = mirrorColumn width x := by
  fun_induction reflect width positive x with
  | case1 x before ih => rw [ih, mirrorColumn_before positive]
  | case2 x before after ih => rw [ih, mirrorColumn_after positive]
  | case3 x before after => rw [mirrorColumn_of_inside (by omega) (by omega)]

end MirrorColumn

namespace Row

/-- A row extended to all columns by mirroring it at its edges; an empty row is extended by
zeros. -/
def extended (row : Row) (x : Int) : Sample := row[mirrorColumn row.size x]?.getD .zero

theorem extended_of_inside {row : Row} {i : Nat} (h : i < row.size) :
    row.extended i = row[i] := by
  rw [extended, mirrorColumn_of_inside (by omega) (by omega)]
  simp [h]

end Row

/-- A reflected run is a piece of the extended row.  Where it is copied straight, no column of it
would be reflected. -/
theorem reflectedRun_eq_ofFn (source : Row) (start : Int) (length : Nat) :
    reflectedRun source start length =
      Array.ofFn fun i : Fin length ↦ source.extended (start + i) := by
  unfold reflectedRun
  split
  next inside =>
    obtain ⟨hstart, hstop⟩ := inside
    refine Array.ext (by simp; omega) ?_
    intro i hi hi'
    have hlt : i < length := by simpa using hi'
    have hin : start.toNat + i < source.size := by omega
    have hcast : start + (i : Int) = ((start.toNat + i : Nat) : Int) := by omega
    rw [Array.getElem_ofFn, Array.getElem_extract]
    simp only [hcast, Row.extended_of_inside hin]
  next =>
    split
    next positive =>
      simp only [reflect_eq_mirrorColumn]
      rfl
    next empty =>
      have hnil : source = #[] := Array.eq_empty_of_size_eq_zero (by omega)
      subst hnil
      refine Array.ext (by simp) ?_
      intro i _ _
      simp [Row.extended]

end Scanline
