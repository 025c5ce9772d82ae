import Scanline.Proofs.Reuse

/-!
# Windows that overlap

A sink of planes that was bound may be handed windows in any order, of any rows and columns: they
may overlap, stick out of the frame on either side, or lie beside it.  `Plane.Overlaid` says what
they leave on a plane: a pixel has the sample of the last window that has it, and everything else is
as it was.

Main statement: that is what windows leave on every plane of a target, and nothing else of it
changes (`Sink.take_overlays`).  Only the end of a window must be a size; one whose end is none
stops the sink where it is.
-/

namespace Scanline

/-! ## Windows on one plane -/

namespace Plane

/-- Draws windows one after another, each of the strip that its rows are cut from. -/
def overlay (windows : List Window) (c : Nat) (plane : Plane) : Plane :=
  windows.foldl
    (fun plane w ↦ plane.draw (w.rows.strip w.segment.column) w.segment.span c) plane

section Overlay

variable (c : Nat) (plane : Plane)

@[simp] theorem overlay_cons (w : Window) (rest : List Window) :
    plane.overlay (w :: rest) c =
      (plane.draw (w.rows.strip w.segment.column) w.segment.span c).overlay rest c := rfl

theorem overlay_append (windows later : List Window) :
    plane.overlay (windows ++ later) c = (plane.overlay windows c).overlay later c :=
  List.foldl_append

theorem overlay_eq (windows : List Window) :
    plane.overlay windows c = { plane with samples := (plane.overlay windows c).samples } := by
  induction windows generalizing plane with
  | nil => rfl
  | cons w rest ih => exact ih (plane.draw (w.rows.strip w.segment.column) w.segment.span c)

variable (windows : List Window)

@[simp] theorem width_overlay : (plane.overlay windows c).width = plane.width := by
  rw [overlay_eq]

@[simp] theorem height_overlay : (plane.overlay windows c).height = plane.height := by
  rw [overlay_eq]

@[simp] theorem stride_overlay : (plane.overlay windows c).stride = plane.stride := by
  rw [overlay_eq]

@[simp] theorem size_samples_overlay :
    (plane.overlay windows c).samples.size = plane.samples.size := by
  induction windows generalizing plane with
  | nil => rfl
  | cons w rest ih => rw [overlay_cons, ih, size_samples_draw]

@[simp] theorem presentRows_overlay :
    (plane.overlay windows c).presentRows = plane.presentRows := by simp [presentRows]

end Overlay

/-- What windows leave of a plane. -/
structure Overlaid (windows : List Window) (c : Nat) (base after : Plane) : Prop where
  /-- Its sides and the places of its rows are those it had. -/
  same : after = { base with samples := after.samples }
  /-- So is the length of its buffer. -/
  size_eq : after.samples.size = base.samples.size
  /-- A pixel has the sample of the last window that has it. -/
  last : ∀ before w later, windows = before ++ w :: later → ∀ x < base.width, ∀ y < base.height,
    w.Has x y → (∀ other ∈ later, ¬other.Has x y) →
      after.samples[y * base.stride + x]? =
        (w.rows.rowAt c)[w.rows.pad + x - w.segment.column]?
  /-- A pixel that no window has is as it was. -/
  old : ∀ x < base.width, ∀ y < base.height, (∀ w ∈ windows, ¬w.Has x y) →
    after.samples[y * base.stride + x]? = base.samples[y * base.stride + x]?
  /-- What is beside the rows is as it was. -/
  beside : ∀ i, (∀ y < base.height, ∀ x < base.width, i ≠ y * base.stride + x) →
    after.samples[i]? = base.samples[i]?

section Overlaid

variable {plane : Plane} (holds : plane.HoldsRows) (c : Nat)
include holds

theorem HoldsRows.draw (s : Strip) (step : Pipeline.Step) : (plane.draw s step c).HoldsRows := by
  refine ⟨holds.1, fun y hy ↦ ?_⟩
  rw [size_samples_draw]
  exact holds.2 y hy

theorem HoldsRows.overlay (windows : List Window) : (plane.overlay windows c).HoldsRows := by
  refine ⟨by simpa using holds.1, fun y hy ↦ ?_⟩
  rw [stride_overlay, width_overlay, size_samples_overlay]
  exact holds.2 y (by simpa using hy)

theorem getElem?_draw_window (w : Window) {x y : Nat} (hx : x < plane.width)
    (hy : y < plane.height) :
    (w.Has x y → (plane.draw (w.rows.strip w.segment.column) w.segment.span c).samples[
        y * plane.stride + x]? = some (w.rows.strip w.segment.column c x)) ∧
      (¬w.Has x y → (plane.draw (w.rows.strip w.segment.column) w.segment.span c).samples[
        y * plane.stride + x]? = plane.samples[y * plane.stride + x]?) := by
  have hstored : plane.Stores x y := holds.stores_iff.2 ⟨hx, hy⟩
  rw [getElem?_draw holds.rowsComplete _ _ _ hx hstored.2, Segment.row_span, Segment.column_span,
    Segment.first_add_length_span]
  exact ⟨fun h ↦ if_pos h, fun h ↦ if_neg h⟩

theorem getElem?_overlay_of_missed {windows : List Window} {x y : Nat} (hx : x < plane.width)
    (hy : y < plane.height) (missed : ∀ w ∈ windows, ¬w.Has x y) :
    (plane.overlay windows c).samples[y * plane.stride + x]? =
      plane.samples[y * plane.stride + x]? := by
  induction windows generalizing plane with
  | nil => rfl
  | cons w rest ih =>
    have hrest := ih (holds.draw c (w.rows.strip w.segment.column) w.segment.span) hx hy
      fun other hother ↦ missed other (List.mem_cons_of_mem _ hother)
    rw [overlay_cons]
    exact hrest.trans
      ((getElem?_draw_window holds c w hx hy).2 (missed w List.mem_cons_self))

omit holds in
theorem getElem?_overlay_of_beside (windows : List Window) {i : Nat}
    (beside : ∀ y < plane.height, ∀ x < plane.width, i ≠ y * plane.stride + x) :
    (plane.overlay windows c).samples[i]? = plane.samples[i]? := by
  induction windows generalizing plane with
  | nil => rfl
  | cons w rest ih =>
    rw [overlay_cons, ih (by simpa using beside)]
    exact getElem?_draw_of_beside _ _ _ fun y hy ↦
      beside y (Nat.lt_of_lt_of_le hy (Nat.min_le_left _ _))

/-- The last window decides: what comes after those that have a pixel leaves it. -/
theorem overlaid_overlay {windows : List Window} {reads : Nat → Prop} (hc : reads c)
    (covered : ∀ w ∈ windows, w.rows.Covers w.segment reads) :
    plane.Overlaid windows c (plane.overlay windows c) where
  same := plane.overlay_eq c windows
  size_eq := plane.size_samples_overlay c windows
  last := by
    rintro before w later rfl x hx y hy hhas hlater
    have hshown := (covered w (by simp)).shows
    have hmid := holds.overlay c before
    have hdrawn := (getElem?_draw_window hmid c w (by simpa using hx) (by simpa using hy)).1 hhas
    have hkept := getElem?_overlay_of_missed
      (hmid.draw c (w.rows.strip w.segment.column) w.segment.span) c (by simpa using hx)
      (by simpa using hy) hlater
    rw [stride_overlay] at hdrawn
    rw [stride_draw, stride_overlay] at hkept
    rw [overlay_append, overlay_cons, hkept, hdrawn, hshown.getElem?_rowAt hc hhas.2.1 hhas.2.2]
  old := fun x hx y hy missed ↦ getElem?_overlay_of_missed holds c hx hy missed
  beside := fun i hi ↦ getElem?_overlay_of_beside c windows hi

end Overlaid

end Plane

/-! ## Windows on a target -/

namespace Sink

/-- Takes a window. -/
def take (w : Window) (s : Sink) : Outcome Sink := s.receive w.rows w.segment

/-- A sink of planes that has been bound to its target. -/
def Taking : Sink → Prop
  | frame s => s.binding = .bound ∧ ∃ color, s.bundle.color = some color
  | planar s => s.binding = .bound ∧ ∃ image, s.image = some image
  | packed _ | stream _ => False

/-- Whether the buffer of some plane has a row. -/
def HasRow (s : Sink) (y : Nat) : Prop := ∃ plane ∈ s.planes, y < plane.presentRows

section MapPlanes

variable (s : Sink) (f g : Nat → Plane → Plane)

theorem mapPlanes_mapPlanes :
    (s.mapPlanes f).mapPlanes g = s.mapPlanes fun c plane ↦ g c (f c plane) := by
  cases s with
  | packed s => rfl
  | stream s => rfl
  | frame s => simp only [mapPlanes, Bundle.mapPlanes_mapPlanes]
  | planar s =>
    simp only [mapPlanes, Option.map_map]
    rfl

theorem mapPlanes_id : (s.mapPlanes fun _ plane ↦ plane) = s := by
  cases s with
  | packed s => rfl
  | stream s => rfl
  | frame s =>
    have hextras : (s.bundle.extras.mapIdx fun _ plane ↦ plane) = s.bundle.extras :=
      List.ext_getElem? fun i ↦ by simp
    have hcolor : s.bundle.color.map (·.mapPlanes fun _ plane ↦ plane) = s.bundle.color :=
      Option.map_id'
    simp only [mapPlanes, Bundle.mapPlanes, hextras, hcolor]
  | planar s =>
    obtain ⟨_ | image, binding⟩ := s <;> rfl

variable {s f}

/-- A sink whose planes are replaced is still bound. -/
theorem Taking.mapPlanes (h : s.Taking) : (s.mapPlanes f).Taking := by
  cases s with
  | packed s => exact h
  | stream s => exact h
  | frame s =>
    obtain ⟨hbinding, color, hcolor⟩ := h
    refine ⟨hbinding, color.mapPlanes f, ?_⟩
    simp only [Bundle.mapPlanes, hcolor, Option.map_some]
  | planar s =>
    obtain ⟨hbinding, image, himage⟩ := h
    refine ⟨hbinding, image.mapPlanes f, ?_⟩
    simp only [himage, Option.map_some]

end MapPlanes

/-- Binding a sink of planes leaves it bound, whatever the sizes. -/
theorem taking_of_bind {s t : Sink} {sizes : List (Nat × Nat)}
    (kind : s.kind = .frame ∨ s.kind = .planar) (h : s.bind sizes = .done t) : t.Taking := by
  cases s with
  | packed s => exact absurd kind (by simp [Sink.kind])
  | stream s => exact absurd kind (by simp [Sink.kind])
  | frame s =>
    obtain ⟨t, ht, rfl⟩ := Outcome.map_eq_done_iff.1 h
    unfold FrameSink.bind at ht
    split at ht
    case h_1 => exact absurd ht (Outcome.faulted_ne_done _ _ _)
    case h_2 size _ =>
      split_ifs at ht
      · dsimp only at ht
        split at ht
        case h_1 => exact absurd ht (Outcome.failed_ne_done _ _ _)
        case h_2 color _ =>
          obtain ⟨mid, hextras, hadopt⟩ := Outcome.next_eq_done_iff.1 ht
          have hcolor := FrameSink.color_of_bindExtras hextras
          rw [(FrameSink.of_adopt hadopt).1]
          exact ⟨rfl, color, hcolor⟩
      · exact absurd ht (Outcome.faulted_ne_done _ _ _)
  | planar s =>
    obtain ⟨t, ht, rfl⟩ := Outcome.map_eq_done_iff.1 h
    unfold PlanarSink.bind at ht
    split at ht
    case h_1 => exact absurd ht (Outcome.faulted_ne_done _ _ _)
    case h_2 size _ =>
      split_ifs at ht
      · split at ht
        case h_1 => exact absurd ht (Outcome.failed_ne_done _ _ _)
        case h_2 image _ =>
          dsimp only at ht
          split_ifs at ht
          · cases ht
            exact ⟨rfl, image, rfl⟩
          · exact absurd ht (Outcome.misused_ne_done _ _ _)
      · exact absurd ht (Outcome.faulted_ne_done _ _ _)

section Take

variable {t : Sink} (taking : t.Taking) {w : Window}
  (covers : w.rows.Covers w.segment (· < t.planes.length))
include taking covers

/-- A window is drawn on every plane, if its end is a size or no plane has its row. -/
theorem take_eq (small : t.HasRow w.segment.row → w.segment.reach < Size.bound) :
    t.take w =
      .done (t.mapPlanes (Plane.draw (w.rows.strip w.segment.column) w.segment.span)) := by
  have hshown := covers.shows
  cases t with
  | packed s => exact taking.elim
  | stream s => exact taking.elim
  | frame s =>
    obtain ⟨hbinding, color, hcolor⟩ := taking
    have hreceive := FrameSink.receive_eq_draw hbinding hcolor hshown
      fun plane hmem hrow ↦ small ⟨plane, hmem, hrow⟩
    rw [take, receive, hreceive]
    rfl
  | planar s =>
    obtain ⟨hbinding, image, himage⟩ := taking
    have hplanes : (planar s).planes = image.planes := by rw [planes, himage]; rfl
    rw [hplanes] at hshown
    have hreceive := PlanarSink.receive_eq_draw hbinding himage hshown
      fun plane hmem hrow ↦ small ⟨plane, by rwa [hplanes], hrow⟩
    rw [take, receive, hreceive]
    rfl

/-- A window whose end is no size is misused as soon as a plane has its row, and nothing is
drawn. -/
theorem take_of_bound_le (row : t.HasRow w.segment.row)
    (reach : Size.bound ≤ w.segment.reach) : t.take w = .misused t .overflow := by
  obtain ⟨plane, hmem, hrow⟩ := row
  have hpatches := Plane.patchesOf_of_bound_le covers.shows reach hmem hrow
  cases t with
  | packed s => exact taking.elim
  | stream s => exact taking.elim
  | frame s =>
    have hreceive : s.receive w.rows w.segment = .misused s .overflow := by
      rw [FrameSink.receive, if_pos taking.1]
      simp only [planes] at hpatches
      rw [hpatches]
    rw [take, receive, hreceive]
    rfl
  | planar s =>
    have hreceive : s.receive w.rows w.segment = .misused s .overflow := by
      rw [PlanarSink.receive, if_pos taking.1]
      simp only [planes] at hpatches
      rw [hpatches]
    rw [take, receive, hreceive]
    rfl

end Take

/-- Planes that keep their rows are replaced by planes with these rows. -/
theorem hasRow_mapPlanes {t : Sink} {f : Nat → Plane → Plane} {y : Nat}
    (hf : ∀ c plane, (f c plane).presentRows = plane.presentRows) :
    (t.mapPlanes f).HasRow y ↔ t.HasRow y := by
  unfold HasRow
  rw [planes_mapPlanes]
  constructor
  · rintro ⟨_, hmem, hrow⟩
    obtain ⟨c, hc, rfl⟩ := List.mem_mapIdx.1 hmem
    rw [hf] at hrow
    exact ⟨_, List.getElem_mem hc, hrow⟩
  · rintro ⟨plane, hmem, hrow⟩
    obtain ⟨c, hc, rfl⟩ := List.mem_iff_getElem.1 hmem
    exact ⟨_, List.mem_mapIdx.2 ⟨c, hc, rfl⟩, by rwa [hf]⟩

/-- Windows are drawn one after another. -/
theorem each_take_eq {t : Sink} (taking : t.Taking) {windows : List Window}
    (covered : ∀ w ∈ windows, w.rows.Covers w.segment (· < t.planes.length))
    (small : ∀ w ∈ windows, t.HasRow w.segment.row → w.segment.reach < Size.bound) :
    Outcome.each take windows t = .done (t.mapPlanes (Plane.overlay windows)) := by
  induction windows generalizing t with
  | nil => exact congrArg Outcome.done t.mapPlanes_id.symm
  | cons w rest ih =>
    obtain ⟨hcovers, hcovered⟩ := List.forall_mem_cons.1 covered
    obtain ⟨hsmall, hrest⟩ := List.forall_mem_cons.1 small
    have hlength : (t.mapPlanes (Plane.draw (w.rows.strip w.segment.column) w.segment.span)
        ).planes.length = t.planes.length := by
      rw [planes_mapPlanes, List.length_mapIdx]
    rw [Outcome.each_cons, take_eq taking hcovers hsmall, Outcome.done_next,
      ih taking.mapPlanes (by rwa [hlength]) fun other hother hrow ↦
        hrest other hother ((hasRow_mapPlanes fun c plane ↦ plane.presentRows_draw _ _ c).1 hrow),
      mapPlanes_mapPlanes]
    rfl

/-- A bound target whose planes hold their rows takes any windows, as long as the end of each is a
size or its row is in no plane.  They leave on every plane, whatever its stride, the sample of the
last window that has a pixel, and change nothing else.  The first window that is otherwise stops the
sink, which is left with what the windows before it drew. -/
theorem take_overlays {s t : Sink} {sizes : List (Nat × Nat)}
    (kind : s.kind = .frame ∨ s.kind = .planar) (h : s.bind sizes = .done t)
    (holds : ∀ plane ∈ t.planes, plane.HoldsRows) {windows : List Window}
    (covered : ∀ w ∈ windows, w.rows.Covers w.segment (· < t.planes.length))
    (small : ∀ w ∈ windows, t.HasRow w.segment.row → w.segment.reach < Size.bound) :
    ∃ f, Outcome.each take windows t = .done (t.mapPlanes f) ∧
      (∀ (c : Nat) (plane : Plane), t.planes[c]? = some plane →
        plane.Overlaid windows c (f c plane)) ∧
      ∀ w later, w.rows.Covers w.segment (· < t.planes.length) → t.HasRow w.segment.row →
        Size.bound ≤ w.segment.reach →
          Outcome.each take (windows ++ w :: later) t = .misused (t.mapPlanes f) .overflow := by
  have htaking := taking_of_bind kind h
  have heach := each_take_eq htaking covered small
  refine ⟨Plane.overlay windows, heach, fun c plane hplane ↦ ?_, fun w later hcovers hrow hend ↦ ?_⟩
  · have hc : c < t.planes.length := (List.getElem?_eq_some_iff.1 hplane).1
    exact Plane.overlaid_overlay (holds plane (List.mem_of_getElem? hplane)) c hc covered
  · have hlength : (t.mapPlanes (Plane.overlay windows)).planes.length = t.planes.length := by
      rw [planes_mapPlanes, List.length_mapIdx]
    have hstill := (hasRow_mapPlanes fun c plane ↦ plane.presentRows_overlay c windows).2 hrow
    rw [Outcome.each_append, heach, Outcome.done_next, Outcome.each_cons,
      take_of_bound_le htaking.mapPlanes (by rwa [hlength]) hstill hend]
    rfl

/-- Two windows of the short last row of planes with gaps: the first sticks out of the frame on
either side, and the second replaces its middle. -/
theorem take_overlays_twice :
    let plane : Plane := ⟨3, 2, 4, Array.replicate 7 .zero, by decide, by decide⟩
    let outer : Window :=
      ⟨⟨Array.replicate 3 (some (Array.replicate 7 .one)), 1⟩,
        { extra := 3, length := 2, row := 1 }⟩
    let inner : Window :=
      ⟨⟨Array.replicate 3 (some #[.zero]), 0⟩, { length := 1, column := 1, row := 1 }⟩
    ∃ t f, (planar ⟨some ⟨plane, plane, plane⟩, .free⟩).bind (List.replicate 3 (3, 2)) = .done t ∧
      Outcome.each take [outer, inner] t = .done (t.mapPlanes f) ∧
      ∀ c < 3, (f c plane).samples[5]? = some .zero ∧ (f c plane).samples[6]? = some .one := by
  intro plane outer inner
  have hcovered : ∀ w ∈ [outer, inner], w.rows.Covers w.segment (· < 3) := by
    simp only [List.forall_mem_cons, List.not_mem_nil, false_implies, implies_true, and_true]
    exact ⟨Rows.covers_replicate (fun _ hc ↦ hc) (by decide) (by decide),
      Rows.covers_replicate (fun _ hc ↦ hc) (by decide) (by decide)⟩
  have hsmall : ∀ w ∈ [outer, inner], w.segment.reach < Size.bound := by decide
  have hbind : (planar ⟨some ⟨plane, plane, plane⟩, .free⟩).bind (List.replicate 3 (3, 2)) =
      .done (planar ⟨some ⟨plane, plane, plane⟩, .bound⟩) := by
    unfold plane
    rfl
  obtain ⟨f, heach, hplanes, -⟩ := take_overlays (.inr rfl) hbind (by decide) hcovered
    fun w hw _ ↦ hsmall w hw
  have hlast : ∀ c < 3, (inner.rows.rowAt c)[0 + 1 - 1]? = some .zero ∧
      (outer.rows.rowAt c)[1 + 2 - 0]? = some .one := by decide
  refine ⟨_, f, hbind, heach, fun c hc ↦ ?_⟩
  have hplane : ∀ c < 3, [plane, plane, plane][c]? = some plane := by decide
  have hoverlaid := hplanes c plane (hplane c hc)
  constructor
  · rw [← (hlast c hc).1]
    exact hoverlaid.last [outer] inner [] rfl 1 (by decide) 1 (by decide) (by decide) (by simp)
  · rw [← (hlast c hc).2]
    exact hoverlaid.last [] outer [inner] rfl 2 (by decide) 1 (by decide) (by decide) (by decide)

/-- Windows whose end is no size are not taken, though no pixel of them is in the frame. -/
theorem take_beyond_sizes :
    let w : Window := ⟨⟨Array.replicate 3 (some #[.one]), 0⟩,
      { length := 1, column := 18446744073709551615 }⟩
    ∃ t, (planar ⟨none, .free⟩).bind (List.replicate 3 (2, 1)) = .done t ∧
      (∀ plane ∈ t.planes, plane.HoldsRows) ∧
      w.rows.Covers w.segment (· < t.planes.length) ∧ (∀ x < 2, ∀ y < 1, ¬w.Has x y) ∧
      Outcome.each take [w] t = .misused t .overflow := by
  refine ⟨_, rfl, by decide, Rows.covers_replicate (fun _ hc ↦ hc) (by decide) (by decide), ?_, rfl⟩
  intro x hx y hy hhas
  have hfirst : 18446744073709551615 ≤ x := hhas.2.1
  omega

end Sink

end Scanline
