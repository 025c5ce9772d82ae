import Scanline.Sample

/-!
# Reflection at the edges of a row

Samples beside a frame are those of the frame itself, reflected at its edges: column `-1` is
column `0` again and column `width` is column `width - 1`, as often as it takes to get inside.
-/

namespace Scanline

/-- Reflects a column at the edges until it lies in `[0, width)`.  Each reflection brings it closer
to the middle of the row. -/
def reflect (width : Nat) (positive : 0 < width) (x : Int) : Nat :=
  if x < 0 then reflect width positive (-x - 1)
  else if width ≤ x then reflect width positive (2 * width - 1 - x)
  else x.toNat
termination_by (2 * x - width + 1).natAbs
decreasing_by all_goals omega

/-- The columns of a row from `start` on, `length` of them, reflected where they lie outside. -/
def reflectedRun (source : Row) (start : Int) (length : Nat) : Row :=
  if 0 ≤ start ∧ start + length ≤ source.size then
    source.extract start.toNat (start.toNat + length)
  else if positive : 0 < source.size then
    Array.ofFn fun i : Fin length ↦
      source[reflect source.size positive (start + i)]?.getD .zero
  else Array.replicate length .zero

end Scanline
