import Scanline.Pipeline.Basic
import Scanline.Proofs.Strip

/-!
# Windows of a row

A sink that is handed rows directly meets windows of any kind: rows with more padding than a segment
needs and with more samples than it has, and extra samples, on either side, that the frame has or
not.  `Rows.Covers` says what a segment needs of them.

Such rows are windows of a strip, of which they show the columns of the segment and of its extra
samples (`Rows.Shows`).  A slice of a row is then a run of the strip (`Rows.Shows.slice_eq`).
-/

namespace Scanline

/-! ## Columns of a segment -/

namespace Segment

variable (s : Segment)

/-- The first column that a segment and its extra samples have in the frame. -/
def first : Nat := s.column - s.extra

/-- A segment as a step. -/
def body : Pipeline.Step := ⟨s.column, s.length, s.row, 0⟩

/-- A segment and its extra samples, from the first column that the frame has, as a step. -/
def span : Pipeline.Step := ⟨s.first, s.reach - s.first, s.row, 0⟩

@[simp] theorem column_span : s.span.column = s.first := rfl
@[simp] theorem row_span : s.span.row = s.row := rfl

theorem first_le_reach : s.first ≤ s.reach := by
  unfold first reach
  omega

@[simp] theorem first_add_length_span : s.first + s.span.length = s.reach :=
  Nat.add_sub_cancel' s.first_le_reach

theorem span_of_extra {s : Segment} (h : s.extra = 0) : s.span = s.body := by
  simp only [span, body, first, reach, h, Nat.sub_zero, Nat.add_zero, Nat.add_sub_cancel_left]

end Segment

/-- A segment that is handed over, with its rows. -/
structure Window where
  /-- The rows. -/
  rows : Rows
  /-- The segment. -/
  segment : Segment

/-- Whether a pixel is one of a window, or of its extra samples. -/
def Window.Has (w : Window) (x y : Nat) : Prop :=
  w.segment.row = y ∧ w.segment.first ≤ x ∧ x < w.segment.reach

/-- Whether a window has a pixel can be computed. -/
instance Window.decidableHas (w : Window) (x y : Nat) : Decidable (w.Has x y) :=
  inferInstanceAs (Decidable (_ ∧ _ ∧ _))

/-! ## Rows that cover a segment -/

namespace Rows

variable (r : Rows)

/-- The row of a channel; one without samples if it was not handed over. -/
def rowAt (c : Nat) : Row := (r.get? c).getD #[]

/-- The strip that rows are cut from whose first pixel is that of a column: column `x` is sample
`pad + x - column`. -/
def strip (column : Nat) : Strip := fun c x ↦
  (r.rowAt c)[((r.pad : Int) + x - column).toNat]?.getD .zero

/-- Rows that reach over a segment and its extra samples, those before the frame apart, in every
channel that is read. -/
structure Covers (segment : Segment) (reads : Nat → Prop) : Prop where
  /-- The samples before the segment are there. -/
  le_pad : min segment.extra segment.column ≤ r.pad
  /-- The others are there. -/
  exists_row : ∀ c, reads c → ∃ row, r.row c = .ok row ∧
    r.pad + segment.length + segment.extra ≤ row.size

/-- Rows that show a segment of a strip, with its extra samples, in every channel that is read. -/
structure Shows (strip : Strip) (segment : Segment) (reads : Nat → Prop) : Prop where
  /-- The samples before the segment are there. -/
  le_pad : min segment.extra segment.column ≤ r.pad
  /-- A row is handed over. -/
  row_eq : ∀ c, reads c → r.row c = .ok (r.rowAt c)
  /-- It reaches over all samples. -/
  le_size : ∀ c, reads c → r.pad + segment.length + segment.extra ≤ (r.rowAt c).size
  /-- It is a run of the strip. -/
  rowAt_eq : ∀ c, reads c →
    r.rowAt c = strip.run c ((segment.column : Int) - r.pad) (r.rowAt c).size

variable {r} {strip : Strip} {segment : Segment} {reads : Nat → Prop}

theorem row_eq_rowAt {c : Nat} {row : Row} (h : r.row c = .ok row) : r.rowAt c = row := by
  unfold Rows.row at h
  split at h
  case h_1 there hget =>
    cases h
    rw [rowAt, hget, Option.getD_some]
  case h_2 => cases h

theorem rowAt_eq_run (r : Rows) (column c : Nat) :
    r.rowAt c = (r.strip column).run c ((column : Int) - r.pad) (r.rowAt c).size := by
  refine Array.ext (Strip.size_run _ _ _ _).symm fun i hi _ ↦ ?_
  have hback : ((r.pad : Int) + (column - r.pad + i) - column).toNat = i := by omega
  rw [Strip.getElem_run, Rows.strip, hback, Array.getElem?_eq_getElem hi, Option.getD_some]

theorem Covers.shows (h : r.Covers segment reads) :
    r.Shows (r.strip segment.column) segment reads := by
  have hrow : ∀ c, reads c → r.row c = .ok (r.rowAt c) ∧
      r.pad + segment.length + segment.extra ≤ (r.rowAt c).size := by
    intro c hc
    obtain ⟨row, hrow, hsize⟩ := h.exists_row c hc
    rw [row_eq_rowAt hrow]
    exact ⟨hrow, hsize⟩
  exact ⟨h.le_pad, fun c hc ↦ (hrow c hc).1, fun c hc ↦ (hrow c hc).2,
    fun c _ ↦ r.rowAt_eq_run segment.column c⟩

theorem covers_replicate {n pad : Nat} {row : Row} (hreads : ∀ c, reads c → c < n)
    (le_pad : min segment.extra segment.column ≤ pad)
    (le_size : pad + segment.length + segment.extra ≤ row.size) :
    Covers ⟨Array.replicate n (some row), pad⟩ segment reads := by
  refine ⟨le_pad, fun c hc ↦ ⟨row, ?_, le_size⟩⟩
  have hget : Rows.get? ⟨Array.replicate n (some row), pad⟩ c = some row := by
    simp [Rows.get?, hreads c hc]
  rw [Rows.row, hget]

theorem shows_of_run (pad : r.pad = 0) (extra : segment.extra = 0)
    (delivered : ∀ c, reads c → r.row c = .ok (strip.run c segment.column segment.length)) :
    r.Shows strip segment reads := by
  have hrow : ∀ c, reads c → r.rowAt c = strip.run c segment.column segment.length := fun c hc ↦
    row_eq_rowAt (delivered c hc)
  refine ⟨by omega, fun c hc ↦ ?_, fun c hc ↦ ?_, fun c hc ↦ ?_⟩
  · rw [hrow c hc, delivered c hc]
  · rw [hrow c hc, Strip.size_run, pad, extra, Nat.zero_add, Nat.add_zero]
  · rw [hrow c hc, Strip.size_run, pad, Nat.cast_zero, sub_zero]

namespace Shows

variable (h : r.Shows strip segment reads)
include h

theorem column_le : segment.column ≤ r.pad + segment.first := by
  have hpad := h.le_pad
  unfold Segment.first
  omega

variable {c x n : Nat} (hc : reads c) (hfirst : segment.first ≤ x) (hreach : x + n ≤ segment.reach)
include hc hfirst hreach

theorem place_le_size : r.pad + x - segment.column + n ≤ (r.rowAt c).size := by
  have hcolumn := h.column_le
  have hsize := h.le_size c hc
  unfold Segment.reach at hreach
  omega

/-- What lies at the place of a column is the strip from there on. -/
theorem slice_eq :
    (r.rowAt c).slice (r.pad + x - segment.column) n = .ok (strip.run c x n) := by
  have hcolumn := h.column_le
  have hroom := h.place_le_size hc hfirst hreach
  have hstart : ((segment.column : Int) - r.pad) + (r.pad + x - segment.column : Nat) = x := by
    omega
  rw [Row.slice, if_pos hroom, h.rowAt_eq c hc, Strip.extract_run _ _ _ _ hroom, hstart,
    Nat.add_sub_cancel_left]

end Shows

/-- The sample at the place of a column is that of the strip. -/
theorem Shows.getElem?_rowAt (h : r.Shows strip segment reads) {c x : Nat} (hc : reads c)
    (hfirst : segment.first ≤ x) (hreach : x < segment.reach) :
    (r.rowAt c)[r.pad + x - segment.column]? = some (strip c x) := by
  have hcolumn := h.column_le
  have hroom := h.place_le_size (n := 1) hc hfirst (Nat.succ_le_of_lt hreach)
  have hplace : ((segment.column : Int) - r.pad) + (r.pad + x - segment.column : Nat) = x := by
    omega
  rw [h.rowAt_eq c hc, Strip.getElem?_run, if_pos (Nat.lt_of_succ_le hroom), hplace]

end Rows

end Scanline
