import Scanline.Proofs.Frames

/-!
# Targets that are used again

A target that was renewed when it was bound has all its planes, of the size of the frame.  It may
serve as input of any pipeline for that size, and a run leaves it with rows that are those of its
input after all filters, whatever it held before (`Blueprint.build_renews_target`).
-/

namespace Scanline

namespace Sink

/-- Replaces each plane of a target, given its channel. -/
def mapPlanes (f : Nat → Plane → Plane) : Sink → Sink
  | frame s => frame { s with bundle := s.bundle.mapPlanes f }
  | planar s => planar { s with image := s.image.map (·.mapPlanes f) }
  | packed s => packed s
  | stream s => stream s

theorem planes_mapPlanes (s : Sink) (f : Nat → Plane → Plane) :
    (s.mapPlanes f).planes = s.planes.mapIdx f := by
  have himage : ∀ image : Image, (image.mapPlanes f).planes = image.planes.mapIdx f := fun _ ↦ rfl
  cases s with
  | packed s => rfl
  | stream s => rfl
  | frame s =>
    simp only [mapPlanes, planes, Bundle.channels, Bundle.mapPlanes]
    cases s.bundle.color with
    | none => rfl
    | some color =>
      simp only [Option.map_some, himage, List.mapIdx_append]
      simp [Image.planes, Nat.add_comm]
  | planar s =>
    simp only [mapPlanes, planes]
    cases s.image <;> rfl

theorem planes_draw (s : Sink) (strip : Strip) (step : Pipeline.Step) :
    (s.draw strip step).planes = s.planes.mapIdx (Plane.draw strip step) := by
  cases s with
  | packed s => rfl
  | stream s => rfl
  | frame s => exact planes_mapPlanes (frame s) _
  | planar s => exact planes_mapPlanes (planar s) _

theorem planes_drawAll (strips : Nat → Strip) (steps : List Pipeline.Step) (s : Sink) :
    (s.drawAll strips steps).planes = s.planes.mapIdx (Plane.drawAll strips steps) := by
  induction steps generalizing s with
  | nil =>
    refine List.ext_getElem? fun c ↦ ?_
    rw [List.getElem?_mapIdx]
    exact Option.map_id'.symm
  | cons step rest ih =>
    rw [drawAll_cons, ih, planes_draw, List.mapIdx_mapIdx]
    rfl

end Sink

/-! ## Rows that are left -/

/-- The rows of a frame of the given size. -/
def frameRows (size : Nat × Nat) (frame : Nat → Nat → Sample) : List Row :=
  (List.range size.2).map fun y ↦ Array.ofFn fun x : Fin size.1 ↦ frame y x

namespace Plane

theorem HoldsRows.rowsComplete {plane : Plane} (h : plane.HoldsRows) : plane.rowsComplete := by
  refine plane.rowsComplete_iff.2 fun y hy ↦ ⟨h.1, ?_⟩
  have hrow := h.2 y (Nat.lt_of_lt_of_le hy (Nat.min_le_left _ _))
  omega

/-- A plane that shows a frame of its own size has the rows of that frame. -/
theorem Renders.rows_eq {base plane : Plane} {size : Nat × Nat} {frame : Nat → Nat → Sample}
    (h : base.Renders plane size frame) (holds : base.HoldsRows) (hsize : base.size = size)
    (hsamples : plane.samples.size = base.samples.size) :
    plane.rows = .ok (frameRows size frame) := by
  subst hsize
  have hwidth : plane.width = base.width := congrArg Prod.fst h.size_eq
  have hheight : plane.height = base.height := congrArg Prod.snd h.size_eq
  have hheld : ∀ y < base.height, y * base.stride + base.width ≤ plane.samples.size := by
    rw [hsamples]
    exact holds.2
  have hextent : plane.extent ≤ plane.samples.size := by
    refine plane.extent_le_size_iff.2 fun y hy ↦ plane.hasRow_iff.2 ?_
    rw [rowStart, h.stride_eq, hwidth]
    exact hheld y (hheight ▸ hy)
  rw [rows, if_pos hextent, frameRows, hheight]
  refine congrArg Except.ok (List.map_congr_left fun y hmem ↦ ?_)
  have hy : y < base.height := List.mem_range.1 hmem
  have hrow := hheld y hy
  have hlength : (plane.samplesOf y).size = base.width := by
    rw [samplesOf, rowStart, h.stride_eq, hwidth, Array.size_extract]
    omega
  refine Array.ext (by rw [hlength, Array.size_ofFn]; rfl) fun x hx _ ↦ ?_
  rw [hlength] at hx
  have hshown := h.shown y hy x hx (holds.stores_iff.2 ⟨hx, hy⟩)
  simp only [samplesOf, rowStart, h.stride_eq, Array.getElem_extract, Array.getElem_ofFn]
  exact (Array.getElem?_eq_some_iff.1 hshown).2

end Plane

namespace Pipeline

variable {p : Pipeline} {input : List Plane} {b : Blueprint} {sink : Sink}

/-- A sink that a run leaves, be it one that goes through all tiles in order or one whose workers
take turns in any way. -/
def Leaves (p : Pipeline) (input : List Plane) (after : Sink) : Prop :=
  p.run input .inOrder = .done after ∨
    ∃ n moves, p.Schedule n moves ∧ p.interleaved input n moves = .done after

/-- However a run comes about, the target that it leaves is drawn on by all steps in order. -/
theorem eq_drawAll_of_leaves (hyields : b.Yields p sink) (side : p.tileSide < Size.bound)
    (hasRow : ∀ plane ∈ input, ∀ y < plane.height, plane.hasRow y) (hkind : p.sink.kind ≠ .stream)
    {after : Sink} (h : p.Leaves input after) :
    after = p.sink.drawAll (p.rendered input) (p.sinkSteps p.allSteps) := by
  have hscheduled : ∃ n moves, p.Schedule n moves ∧ p.interleaved input n moves = .done after := by
    rcases h with h | h
    · rw [run_inOrder hyields.planned side hasRow] at h
      exact ⟨1, _, schedule_inOrderMoves, h⟩
    · exact h
  obtain ⟨n, moves, hschedule, hrun⟩ := hscheduled
  obtain ⟨hcheck, -, rows, hreserve⟩ := of_interleaved (show
    (p.interleaved input n moves).failure = none by rw [hrun]; rfl)
  have hinOrder := interleaved_eq_of_ne_stream hschedule hyields hasRow hcheck hreserve hkind
  rw [hrun, interleaved_draws schedule_inOrderMoves hyields hasRow (checkRun_one hcheck) hreserve
    hkind, map_step_inOrderMoves] at hinOrder
  exact (congrArg Outcome.state hinOrder).symm

/-- Planes of the size of the frame that are drawn on by all steps have the rows of the frame
without tiles. -/
theorem rows_allSteps (h : p.Planned) {planes : List Plane} {n : Nat}
    (hsizes : planes.map Plane.size = List.replicate n p.size)
    (holds : ∀ plane ∈ planes, plane.HoldsRows) :
    (planes.mapIdx (Plane.drawAll (p.rendered input) (p.sinkSteps p.allSteps))).map Plane.rows =
      (List.range n).map fun c ↦
        .ok (frameRows p.size (filtered p.filters input c)) := by
  have hlength : planes.length = n := by simpa using congrArg List.length hsizes
  refine List.ext_getElem (by simp [hlength]) fun c hc _ ↦ ?_
  have hlt : c < planes.length := by simpa using hc
  have hmem := List.getElem_mem hlt
  have hsize : planes[c].size = p.size :=
    List.eq_of_mem_replicate (hsizes ▸ List.mem_map_of_mem hmem)
  simp only [List.getElem_map, List.getElem_mapIdx, List.getElem_range]
  exact (renders_allSteps h (holds _ hmem).rowsComplete c).rows_eq (holds _ hmem) hsize
    (Plane.sides_drawAll _ _ c _).2.2

end Pipeline

/-- A failure that says that input planes are not those of the frame. -/
def Failure.IsAboutInput : Failure → Prop
  | .fault (.inconsistent _) | .fault (.sizeMismatch ..) => True
  | _ => False

namespace Blueprint

variable {b : Blueprint} {p : Pipeline}

/-- Planes of the sizes that a pipeline was built for pass the checks of its input. -/
theorem not_isAboutInput_of_checkRun {planes : List Plane} (h : b.build.pipeline = .ok p)
    (hsizes : planes.map Plane.size = b.sizes) {workers : Nat} {e : Failure}
    (he : p.checkRun planes workers = .error e) : ¬e.IsAboutInput := by
  obtain ⟨_, hyields⟩ := exists_yields h
  rw [hyields.sizes_eq] at hsizes
  have hlength : planes.length = p.channels := by simpa using congrArg List.length hsizes
  have hnone : planes.findIdx? (·.size ≠ p.size) = none := by
    refine List.findIdx?_eq_none_iff.2 fun plane hmem ↦ ?_
    simpa using List.eq_of_mem_replicate (hsizes ▸ List.mem_map_of_mem hmem)
  rw [Pipeline.checkRun_of_length hlength, hnone] at he
  dsimp only at he
  split_ifs at he
  · cases he
    exact id
  · rcases bind_eq_error_iff.1 he with he | ⟨_, -, he⟩
    · obtain ⟨_, -, rfl⟩ := mapError_eq_error_iff.1 he
      exact id
    · obtain ⟨_, -, rfl⟩ := mapError_eq_error_iff.1 he
      exact id

/-- A target of planes that was bound when a pipeline was built is renewed: marked as its sink says,
with all its planes, of the size of the frame's channels, where colors and further planes are each
kept with all they hold exactly if they fit, and otherwise replaced by zeros.  The planes hold their
rows and may serve as input of any pipeline that is built for their sizes.  Whatever they hold, a
run leaves the rows that the input has after all filters, and a run in order does come to its
end. -/
theorem build_renews_target {filters : List Filter} {sink : Sink}
    (stages : b.stages = filters.map .filter ++ [.sink sink])
    (kind : sink.kind = .frame ∨ sink.kind = .planar) (whole : sink.Whole)
    (h : b.build.pipeline = .ok p) (side : b.tileSide < Size.bound) :
    (b.sizes = List.replicate b.sizes.length p.size ∧
      sink.Renews b.sizes.length p.size p.sink) ∧
    (p.sink.planes.map Plane.size =
        List.replicate (sink.planeCount b.sizes.length) p.size ∧
      ∀ plane ∈ p.sink.planes, plane.HoldsRows) ∧
    (∀ (other : Blueprint) (q : Pipeline), other.build.pipeline = .ok q →
      p.sink.planes.map Plane.size = other.sizes →
        ∀ workers e, q.checkRun p.sink.planes workers = .error e → ¬e.IsAboutInput) ∧
    ∀ input : List Plane, (∀ plane ∈ input, ∀ y < plane.height, plane.hasRow y) →
      (∀ after, p.Leaves input after →
        after.planes.map Plane.rows =
          (List.range (sink.planeCount b.sizes.length)).map fun c ↦
            .ok (frameRows p.size (filtered filters input c))) ∧
      (input.map Plane.size = b.sizes →
        (∃ bytes, p.rowMemory 1 = .ok bytes ∧ p.limits.checkReserved bytes = .ok ()) →
          ∃ after, p.run input .inOrder = .done after) := by
  obtain ⟨bound, hyields⟩ := exists_yields h
  obtain ⟨rfl, rfl⟩ := hyields.filters_eq stages
  have hplanned := hyields.planned
  have hkind : p.sink.kind ≠ .stream := by
    rw [hyields.kind_sink]
    rcases kind with kind | kind <;> rw [kind] <;> decide
  have hbind := hyields.bind_eq
  rw [hyields.sizes_eq] at hbind
  have hrenews := Sink.renews_of_bind hbind kind whole.uniform
  have hsizes := hrenews.map_size_planes hyields.channelsNeeded_le
  have hholds := hrenews.holdsRows whole
  rw [hyields.length_sizes]
  refine ⟨⟨hyields.sizes_eq, hrenews⟩, ⟨hsizes, hholds⟩,
    fun other q hq hfit workers e ↦ not_isAboutInput_of_checkRun hq hfit,
    fun input hasRow ↦ ⟨fun after hleaves ↦ ?_, fun hfit hmemory ↦ ?_⟩⟩
  · rw [Pipeline.eq_drawAll_of_leaves hyields (hyields.side_eq ▸ side) hasRow hkind hleaves,
      Sink.planes_drawAll, Pipeline.rows_allSteps hplanned hsizes hholds]
  · have hcheck := Pipeline.checkRun_of_sizes hyields hfit hmemory
    obtain ⟨rows, hreserve⟩ := Pipeline.exists_reserve_of_checkRun hplanned hasRow hcheck
    rw [Pipeline.run_inOrder hplanned (hyields.side_eq ▸ side) hasRow,
      Pipeline.interleaved_draws Pipeline.schedule_inOrderMoves hyields hasRow hcheck hreserve
        hkind]
    exact ⟨_, rfl⟩

/-- A bundle without colors and with a fourth plane that fits: only the latter is kept, and a run
leaves the rows of the frame in all of them. -/
theorem build_renews_target_without_colors :
    let filters : List Filter := [.smooth .standard]
    let sink : Sink := .frame
      ⟨{ extras := [⟨3, 2, 4, Array.replicate 7 .one, by decide, by decide⟩] }, .srgb, .free⟩
    let b : Blueprint := ⟨List.replicate 4 (3, 2), filters.map .filter ++ [.sink sink], 2, {}⟩
    let input : List Plane :=
      List.replicate 4 ⟨3, 2, 3, Array.replicate 6 .one, by decide, by decide⟩
    ∃ p, b.build.pipeline = .ok p ∧ sink.Renews 4 (3, 2) p.sink ∧
      ∃ after, p.run input .inOrder = .done after ∧
        after.planes.map Plane.rows = (List.range 4).map fun c ↦
          .ok (frameRows (3, 2) (filtered filters input c)) := by
  refine ⟨_, rfl, ?_⟩
  have stages : Blueprint.stages ⟨List.replicate 4 (3, 2), _, 2, {}⟩ =
    [Filter.smooth .standard].map .filter ++ [.sink (.frame
      ⟨{ extras := [⟨3, 2, 4, Array.replicate 7 .one, by decide, by decide⟩] }, .srgb,
        .free⟩)] := rfl
  obtain ⟨⟨-, hrenews⟩, -, -, hrun⟩ := build_renews_target stages (.inl rfl)
    ⟨fun _ himage ↦ (nomatch himage), by decide⟩ rfl (by decide)
  obtain ⟨hleaves, hends⟩ :=
    hrun (List.replicate 4 ⟨3, 2, 3, Array.replicate 6 .one, by decide, by decide⟩) (by decide)
  obtain ⟨after, hafter⟩ := hends rfl ⟨_, rfl, rfl⟩
  exact ⟨hrenews, after, hafter, hleaves after (.inl hafter)⟩

end Blueprint

end Scanline
