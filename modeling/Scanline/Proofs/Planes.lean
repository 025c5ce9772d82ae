import Scanline.Proofs.Moves
import Scanline.Proofs.Windows

/-!
# Drawing strips on planes

A sink of planes that is handed rows of a strip draws them on each of its planes: `Plane.draw`,
which writes the columns of the step that the plane has, on rows that the plane has.

After any number of steps a sample of a plane is that of the strip of its row, if some step had it,
and else the one that was there before (`Plane.getElem?_drawAll`).  Steps that have no pixel in
common may be drawn in either order (`Plane.draw_comm`).
-/

namespace Scanline

/-- Steps without a common pixel. -/
def Pipeline.Step.Apart (a b : Pipeline.Step) : Prop :=
  a.row ≠ b.row ∨ a.column + a.length ≤ b.column ∨ b.column + b.length ≤ a.column

namespace Plane

/-! ## One step on one plane -/

/-- What a step of a strip leaves on a plane: the columns that the plane has, if it has the row. -/
def patchFrom (s : Strip) (step : Pipeline.Step) (c : Nat) (plane : Plane) : Patch :=
  ⟨step.column, step.row,
    if step.row < plane.presentRows then
      s.run c step.column (min (step.column + step.length) plane.width - step.column)
    else #[]⟩

/-- Draws a step of a strip on a plane. -/
def draw (s : Strip) (step : Pipeline.Step) (c : Nat) (plane : Plane) : Plane :=
  plane.paste (plane.patchFrom s step c)

section Draw

variable (s : Strip) (step : Pipeline.Step) (c : Nat) (plane : Plane)

@[simp] theorem width_draw : (plane.draw s step c).width = plane.width := rfl
@[simp] theorem height_draw : (plane.draw s step c).height = plane.height := rfl
@[simp] theorem stride_draw : (plane.draw s step c).stride = plane.stride := rfl

@[simp] theorem size_samples_draw :
    (plane.draw s step c).samples.size = plane.samples.size := by simp [draw, paste]

@[simp] theorem presentRows_draw : (plane.draw s step c).presentRows = plane.presentRows := by
  simp [presentRows]

@[simp] theorem rowsComplete_draw :
    (plane.draw s step c).rowsComplete = plane.rowsComplete := by simp [rowsComplete]

end Draw

/-- Rows that start within the buffer lie in it, one after the other. -/
theorem rowsComplete_iff (plane : Plane) :
    plane.rowsComplete ↔ ∀ y < plane.presentRows, plane.width ≤ plane.stride ∧
      plane.width ≤ plane.samples.size - y * plane.stride := by
  simp [rowsComplete]

/-- A plane of complete rows has only rows that the buffer has, and those that start in it. -/
theorem lt_presentRows_iff {plane : Plane} (stride : 0 < plane.stride) {y : Nat} :
    y < plane.presentRows ↔ y < plane.height ∧ y * plane.stride < plane.samples.size := by
  unfold presentRows
  rw [lt_min_iff, Nat.lt_div_iff_mul_lt stride]
  omega

/-- The patch that a plane makes of a row that shows a strip. -/
theorem patchOf_eq (plane : Plane) {input : Rows} {s : Strip} {segment : Segment}
    {reads : Nat → Prop} (shown : input.Shows s segment reads)
    (small : segment.row < plane.presentRows → segment.reach < Size.bound) {c : Nat}
    (hc : reads c) :
    plane.patchOf (input.rowAt c) input.pad segment = .ok (plane.patchFrom s segment.span c) := by
  have hcolumn := shown.column_le
  have hle : segment.first ≤ segment.column := Nat.sub_le _ _
  have hfirst : segment.column - segment.extra = segment.first := rfl
  simp only [patchOf, patchFrom, hfirst, Segment.row_span, Segment.column_span,
    Segment.first_add_length_span]
  split
  case isFalse => rfl
  case isTrue hrow =>
    simp only [Size.ofNat_of_lt (small hrow), bind, Except.bind]
    split
    case isTrue inside =>
      have hsub : Size.sub input.pad (segment.column - segment.first) =
          .ok (input.pad + segment.first - segment.column) :=
        Size.sub_eq_ok_iff.2 ⟨by omega, by omega⟩
      have hslice := shown.slice_eq (n := min segment.reach plane.width - segment.first) hc le_rfl
        (by omega)
      simp only [hsub, hslice]
      rfl
    case isFalse outside =>
      rw [Nat.sub_eq_zero_of_le (Nat.le_of_not_lt outside)]
      rfl

theorem patchesOf_eq {planes : List Plane} {input : Rows} {s : Strip} {segment : Segment}
    (shown : input.Shows s segment (· < planes.length))
    (small : ∀ plane ∈ planes, segment.row < plane.presentRows → segment.reach < Size.bound) :
    patchesOf planes input segment =
      .ok (planes.zipIdx.map fun x ↦ x.1.patchFrom s segment.span x.2) := by
  apply mapM_eq_ok
  rintro ⟨plane, c⟩ hmem
  have hget : planes[c]? = some plane := List.mem_zipIdx_iff_getElem?.1 hmem
  have hc : c < planes.length := (List.getElem?_eq_some_iff.1 hget).1
  simp only [shown.row_eq c hc, bind, Except.bind]
  exact plane.patchOf_eq shown (small plane (List.mem_of_getElem? hget)) hc

/-- Planes make no patches of a segment whose end is no size, if one of them has its row. -/
theorem patchesOf_of_bound_le {planes : List Plane} {input : Rows} {s : Strip} {segment : Segment}
    (shown : input.Shows s segment (· < planes.length)) (reach : Size.bound ≤ segment.reach)
    {plane : Plane} (hmem : plane ∈ planes) (hrow : segment.row < plane.presentRows) :
    patchesOf planes input segment = .error .overflow := by
  have hpatch : ∀ (other : Plane) (c : Nat), planes[c]? = some other →
      (do other.patchOf (← input.row c) input.pad segment) =
        if segment.row < other.presentRows then .error .overflow
        else .ok ⟨segment.first, segment.row, #[]⟩ := by
    intro other c hother
    rw [shown.row_eq c (List.getElem?_eq_some_iff.1 hother).1]
    simp only [patchOf, Size.ofNat_of_le reach, bind, Except.bind]
    rfl
  cases hpatches : patchesOf planes input segment with
  | ok patches =>
    obtain ⟨c, hc⟩ := List.mem_iff_getElem?.1 hmem
    obtain ⟨patch, -, hmade⟩ := (of_mapM_eq_ok hpatches).2 c (plane, c) (by simp [hc])
    have hnone := (hpatch plane c hc).symm.trans hmade
    rw [if_pos hrow] at hnone
    cases hnone
  | error misuse =>
    obtain ⟨⟨other, c⟩, hother, hmade⟩ := of_mapM_eq_error hpatches
    have hfail := (hpatch other c (List.mem_zipIdx_iff_getElem?.1 hother)).symm.trans hmade
    split_ifs at hfail
    cases hfail
    rfl

theorem pasteFrom_patches {planes : List Plane} {s : Strip} {step : Pipeline.Step} {c : Nat}
    {plane : Plane} (hplane : planes[c]? = some plane) :
    pasteFrom (planes.zipIdx.map fun x ↦ x.1.patchFrom s step x.2) c plane =
      plane.draw s step c := by
  have hpatch : (planes.zipIdx.map fun x ↦ x.1.patchFrom s step x.2)[c]? =
      some (plane.patchFrom s step c) := by simp [hplane]
  rw [pasteFrom, hpatch]
  rfl

/-- Steps without a common pixel may be drawn in either order. -/
theorem draw_comm {plane : Plane} (hrows : plane.rowsComplete) {a b : Pipeline.Step}
    (apart : a.Apart b) (s t : Strip) (c : Nat) :
    (plane.draw s a c).draw t b c = (plane.draw t b c).draw s a c := by
  have hpatch : ∀ (s : Strip) (step : Pipeline.Step) (q : Plane),
      q.width = plane.width → q.presentRows = plane.presentRows →
        q.patchFrom s step c = plane.patchFrom s step c := by
    intro s step q hwidth hpresent
    simp only [patchFrom, hwidth, hpresent]
  have hsamples : overwrite (overwrite plane.samples
        (a.row * plane.stride + a.column) (plane.patchFrom s a c).samples)
        (b.row * plane.stride + b.column) (plane.patchFrom t b c).samples =
      overwrite (overwrite plane.samples
        (b.row * plane.stride + b.column) (plane.patchFrom t b c).samples)
        (a.row * plane.stride + a.column) (plane.patchFrom s a c).samples := by
    rcases Nat.eq_zero_or_pos (plane.patchFrom s a c).samples.size with hzero | hposA
    · rw [Array.eq_empty_of_size_eq_zero hzero, overwrite_empty, overwrite_empty]
    rcases Nat.eq_zero_or_pos (plane.patchFrom t b c).samples.size with hzero | hposB
    · rw [Array.eq_empty_of_size_eq_zero hzero, overwrite_empty, overwrite_empty]
    refine overwrite_comm ?_
    simp only [patchFrom] at hposA hposB ⊢
    split_ifs at hposA hposB with hrowA hrowB
    · simp only [Strip.size_run] at hposA hposB
      simp only [if_pos hrowA, if_pos hrowB, Strip.size_run]
      have hstride := (plane.rowsComplete_iff.1 hrows _ hrowA).1
      apply spans_disjoint (by omega) (by omega)
      unfold Pipeline.Step.Apart at apart
      omega
    all_goals simp at hposA hposB
  have hb := hpatch t b (plane.draw s a c) rfl (by simp)
  have ha := hpatch s a (plane.draw t b c) rfl (by simp)
  conv_lhs => rw [draw, hb, draw]
  conv_rhs => rw [draw, ha, draw]
  exact congrArg (fun samples ↦ ({ plane with samples } : Plane)) hsamples

/-! ## Many steps on one plane -/

/-- Draws steps one after another, each of the strip of its row. -/
def drawAll (strips : Nat → Strip) (steps : List Pipeline.Step) (c : Nat) (plane : Plane) :
    Plane :=
  steps.foldl (fun plane step ↦ plane.draw (strips step.row) step c) plane

section DrawAll

variable (strips : Nat → Strip) (steps : List Pipeline.Step) (c : Nat) (plane : Plane)

@[simp] theorem drawAll_cons (step : Pipeline.Step) :
    plane.drawAll strips (step :: steps) c =
      (plane.draw (strips step.row) step c).drawAll strips steps c := rfl

theorem sides_drawAll :
    (plane.drawAll strips steps c).size = plane.size ∧
      (plane.drawAll strips steps c).stride = plane.stride ∧
      (plane.drawAll strips steps c).samples.size = plane.samples.size := by
  induction steps generalizing plane with
  | nil => exact ⟨rfl, rfl, rfl⟩
  | cons step rest ih =>
    obtain ⟨hsize, hstride, hsamples⟩ := ih (plane.draw (strips step.row) step c)
    exact ⟨hsize, hstride, by rw [drawAll_cons, hsamples, size_samples_draw]⟩

end DrawAll

/-- One step gives its samples to the pixels it has, and leaves all others. -/
theorem getElem?_draw {plane : Plane} (hrows : plane.rowsComplete) (s : Strip)
    (step : Pipeline.Step) (c : Nat) {x y : Nat} (hx : x < plane.width)
    (hy : y < plane.presentRows) :
    (plane.draw s step c).samples[y * plane.stride + x]? =
      if step.row = y ∧ step.column ≤ x ∧ x < step.column + step.length then some (s c x)
      else plane.samples[y * plane.stride + x]? := by
  obtain ⟨hstride, hroom⟩ := plane.rowsComplete_iff.1 hrows y hy
  simp only [draw, paste, patchFrom]
  by_cases hit : step.row = y ∧ step.column ≤ x ∧ x < step.column + step.length
  · obtain ⟨rfl, hge, hlt⟩ := hit
    rw [if_pos hy, getElem?_overwrite, if_pos (by simp only [Strip.size_run]; omega),
      Strip.getElem?_run, if_pos (by omega), if_pos ⟨rfl, hge, hlt⟩]
    congr 2
    omega
  · rw [if_neg hit]
    split
    case isFalse => rw [overwrite_empty]
    case isTrue hrow =>
      apply getElem?_overwrite_of_outside
      rw [Strip.size_run]
      rcases Nat.le_total plane.width step.column with hout | hin
      · omega
      -- The pixel is a span of its own.
      · have hapart : step.row * plane.stride + step.column +
              (min (step.column + step.length) plane.width - step.column) ≤
              y * plane.stride + x ∨
            y * plane.stride + x + 1 ≤ step.row * plane.stride + step.column :=
          spans_disjoint (by omega) (by omega) (by omega)
        omega

theorem getElem?_draw_of_beside {plane : Plane} (s : Strip) (step : Pipeline.Step) (c : Nat)
    {i : Nat} (beside : ∀ y < plane.presentRows, ∀ x < plane.width, i ≠ y * plane.stride + x) :
    (plane.draw s step c).samples[i]? = plane.samples[i]? := by
  simp only [draw, paste, patchFrom]
  split
  case isFalse => rw [overwrite_empty]
  case isTrue hrow =>
    refine getElem?_overwrite_of_outside ?_
    rw [Strip.size_run]
    by_contra hin
    exact beside step.row hrow (i - step.row * plane.stride) (by omega) (by omega)

/-- After all steps a pixel that some step had has its sample, and any other the old one. -/
theorem getElem?_drawAll {plane : Plane} (hrows : plane.rowsComplete) (strips : Nat → Strip)
    (steps : List Pipeline.Step) (c : Nat) {x y : Nat} (hx : x < plane.width)
    (hy : y < plane.presentRows) :
    (plane.drawAll strips steps c).samples[y * plane.stride + x]? =
      if ∃ step ∈ steps, step.row = y ∧ step.column ≤ x ∧ x < step.column + step.length then
        some (strips y c x)
      else plane.samples[y * plane.stride + x]? := by
  induction steps generalizing plane with
  | nil => simp [drawAll]
  | cons step rest ih =>
    have hlater : ((plane.draw (strips step.row) step c).drawAll strips rest c).samples[
          y * (plane.draw (strips step.row) step c).stride + x]? = _ :=
      ih (by simpa using hrows) hx (by simpa using hy)
    rw [stride_draw] at hlater
    rw [drawAll_cons, hlater, getElem?_draw hrows _ step c hx hy]
    by_cases hrest : ∃ step ∈ rest, step.row = y ∧ step.column ≤ x ∧ x < step.column + step.length
    · rw [if_pos hrest, if_pos]
      obtain ⟨other, hmem, hhit⟩ := hrest
      exact ⟨other, List.mem_cons_of_mem _ hmem, hhit⟩
    · rw [if_neg hrest]
      by_cases hhit : step.row = y ∧ step.column ≤ x ∧ x < step.column + step.length
      · rw [if_pos hhit, if_pos ⟨step, List.mem_cons_self, hhit⟩, hhit.1]
      · rw [if_neg hhit, if_neg]
        rintro ⟨other, hmem, hother⟩
        rcases List.mem_cons.1 hmem with rfl | hmem
        · exact hhit hother
        · exact hrest ⟨other, hmem, hother⟩

theorem getElem?_drawAll_of_beside {plane : Plane} (strips : Nat → Strip)
    (steps : List Pipeline.Step) (c : Nat) {i : Nat}
    (beside : ∀ y < plane.presentRows, ∀ x < plane.width, i ≠ y * plane.stride + x) :
    (plane.drawAll strips steps c).samples[i]? = plane.samples[i]? := by
  induction steps generalizing plane with
  | nil => rfl
  | cons step rest ih =>
    rw [drawAll_cons, ih (by simpa using beside), getElem?_draw_of_beside _ _ _ beside]

end Plane

end Scanline
