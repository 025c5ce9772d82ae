import Scanline.Proofs.Calls
import Scanline.Proofs.Packed
import Scanline.Proofs.Targets

/-!
# Sinks that receive a frame

A sink that is `Ready` takes every step of the frame, whatever strip the step is of: sinks with a
buffer or planes draw it (`receive_eq_draw`), a sink with a consumer offers its calls
(`receive_eq_stepCalls`).  It stays ready, and it fails only where the consumer gives up
(`Ready.receive_keeps`).

Steps without a common pixel may be drawn in either order, so a list of such steps may be drawn in
any order (`drawAll_perm`).
-/

namespace Scanline

/-- The failures of a consumer that gives up on pixels. -/
def Failure.IsGivingUp (e : Failure) : Prop := ∃ x y reason, e = .fault (.consumerFailed x y reason)

theorem Sink.exists_of_kind_stream {s : Sink} (h : s.kind = .stream) : ∃ t, s = .stream t := by
  cases s with
  | stream t => exact ⟨t, rfl⟩
  | packed t => cases h
  | frame t => cases h
  | planar t => cases h

/-- A packed sink reads no channel beyond those that it needs. -/
theorem PackedSink.lt_channelsNeeded {s : PackedSink} {c : Nat} (h : (s.mode c).reads) :
    c < s.channelsNeeded := by
  have hc : c < 3 ∨ s.alpha = some c := by
    by_contra hnot
    rw [not_or] at hnot
    simp [mode, hnot.1, hnot.2, Mode.reads] at h
  unfold channelsNeeded
  rcases hc with hc | hc
  · split <;> omega
  · rw [hc]
    simp only
    omega

/-- A stream sink reads no channel beyond those that it needs. -/
theorem StreamOptions.lt_channelsNeeded {o : StreamOptions} {c : Nat} (h : (o.mode c).reads) :
    c < o.channelsNeeded := by
  have hc : c < o.format.colors ∨ o.alpha = some c := by
    by_contra hnot
    rw [not_or] at hnot
    simp [mode, hnot.1, hnot.2, Mode.reads] at h
  unfold channelsNeeded
  rcases hc with hc | hc
  · split <;> omega
  · rw [hc]
    simp only
    omega

namespace Sink

/-- What a sink must be to take rows of `width` pixels and `channels` channels from `n` workers. -/
def Fits (width channels n : Nat) : Sink → Prop
  | packed s => s.Fits width
  | stream s => s.Opened n
  | frame s => s.Bound channels
  | planar s => s.Bound

/-- A sink that takes the segments of a pipeline from `n` workers. -/
structure Ready (p : Pipeline) (n : Nat) (s : Sink) : Prop where
  /-- It uses channels as the pipeline says. -/
  mode_eq : s.mode = p.sink.mode
  /-- It finds the channels that it needs. -/
  needs_le : s.channelsNeeded ≤ p.channels
  /-- Its target, or its consumer, is ready. -/
  fits : s.Fits p.width p.channels n

/-- Draws a step of a strip, in a sink that has something to draw on. -/
def draw (strip : Strip) (step : Pipeline.Step) : Sink → Sink
  | packed s => packed (s.draw strip step)
  | frame s => frame (s.draw strip step)
  | planar s => planar (s.draw strip step)
  | stream s => stream s

section Draw

variable (strip : Strip) (step : Pipeline.Step) (s : Sink)

@[simp] theorem kind_draw : (s.draw strip step).kind = s.kind := by cases s <;> rfl

@[simp] theorem mode_draw : (s.draw strip step).mode = s.mode := by
  cases s with
  | packed s =>
    simp only [draw, PackedSink.draw]
    split <;> rfl
  | _ => rfl

@[simp] theorem channelsNeeded_draw :
    (s.draw strip step).channelsNeeded = s.channelsNeeded := by
  cases s with
  | packed s =>
    simp only [draw, PackedSink.draw]
    split <;> rfl
  | _ => rfl

@[simp] theorem plane?_draw (c : Nat) :
    (s.draw strip step).plane? c = (s.plane? c).map (Plane.draw strip step c) := by
  cases s with
  | packed s => rfl
  | stream s => rfl
  | frame s => exact Bundle.plane?_mapPlanes s.bundle _ c
  | planar s =>
    simp only [draw, PlanarSink.draw, plane?]
    cases s.image <;> simp [Image.getElem?_planes_mapPlanes]

/-- Drawing keeps what makes a sink fit. -/
theorem Fits.draw {s : Sink} {width channels n : Nat} (h : s.Fits width channels n) :
    (s.draw strip step).Fits width channels n := by
  have hrows : ∀ s : Sink, (∀ c plane, s.plane? c = some plane → plane.rowsComplete) →
      ∀ c plane, (s.draw strip step).plane? c = some plane → plane.rowsComplete := by
    intro s hs c plane hplane
    rw [plane?_draw] at hplane
    obtain ⟨old, hold, rfl⟩ := Option.map_eq_some_iff.1 hplane
    rw [Plane.rowsComplete_draw]
    exact hs c old hold
  cases s with
  | packed s => exact PackedSink.Fits.draw h strip step
  | stream s => exact h
  | frame s =>
    obtain ⟨hbinding, ⟨color, hcolor⟩, hlength, hcomplete⟩ := h
    refine ⟨hbinding, ⟨color.mapPlanes (Plane.draw strip step), ?_⟩, ?_,
      hrows (frame s) hcomplete⟩
    · simp only [FrameSink.draw, Bundle.mapPlanes, hcolor, Option.map_some]
    · simpa only [FrameSink.draw, Bundle.mapPlanes, List.length_mapIdx] using hlength
  | planar s =>
    obtain ⟨hbinding, ⟨image, himage⟩, hcomplete⟩ := h
    refine ⟨hbinding, ⟨image.mapPlanes (Plane.draw strip step), ?_⟩, hrows (planar s) hcomplete⟩
    simp only [PlanarSink.draw, himage, Option.map_some]

theorem Ready.draw {p : Pipeline} {n : Nat} {s : Sink} (h : s.Ready p n) :
    (s.draw strip step).Ready p n :=
  ⟨by rw [mode_draw, h.mode_eq], by rw [channelsNeeded_draw]; exact h.needs_le,
    h.fits.draw strip step⟩

end Draw

variable {p : Pipeline} {n : Nat} {s : Sink} {step : Pipeline.Step}

theorem row_rowsOf (h : p.Planned) (hstage : step.stage = p.filters.length) (strip : Strip)
    {c : Nat} (hc : c < p.channels) (hreads : (p.sink.mode c).reads) :
    (p.rowsOf strip step).row c = .ok (strip.run c step.column step.length) := by
  have hdelivers : p.deliversAt step.stage c = true := by
    rw [h.deliversAt_eq, hstage, h.modeAt_eq Pipeline.stages_of_sink hc]
    exact hreads
  have hget := Pipeline.get?_rowsOf strip step hc
  rw [if_pos hdelivers, h.paddingAt_of_ge (by omega)] at hget
  simp only [Rows.row, hget]
  simp

theorem shows_rowsOf (h : p.Planned) (hstage : step.stage = p.filters.length) (strip : Strip)
    (worker : Nat) {reads : Nat → Prop}
    (hreads : ∀ c, reads c → c < p.channels ∧ (p.sink.mode c).reads) :
    (p.rowsOf strip step).Shows strip (p.segment worker step) reads :=
  Rows.shows_of_run (h.paddingAt_of_ge (by omega)) (h.paddingAt_of_ge (by omega)) fun c hc ↦
    row_rowsOf h hstage strip (hreads c hc).1 (hreads c hc).2

/-- A sink with a buffer or planes draws what it is handed. -/
theorem receive_eq_draw (h : p.Planned) (small : p.width < Size.bound) (hs : s.Ready p n)
    (hkind : s.kind ≠ .stream) (hstep : p.InFrame step) (hstage : step.stage = p.filters.length)
    (strip : Strip) (worker : Nat) :
    s.receive (p.rowsOf strip step) (p.segment worker step) = .done (s.draw strip step) := by
  have hshows : ∀ reads : Nat → Prop,
      (∀ c, reads c → c < p.channels ∧ (s.mode c).reads) →
        (p.rowsOf strip step).Shows strip (p.segment worker step) reads := fun reads hreads ↦
    shows_rowsOf h hstage strip worker fun c hc ↦ by
      rw [← hs.mode_eq]
      exact hreads c hc
  have hextra : (p.segment worker step).extra = 0 := h.paddingAt_of_ge (by omega)
  have hspan : (p.segment worker step).span = (p.segment worker step).body :=
    Segment.span_of_extra hextra
  have hsmall : (p.segment worker step).reach < Size.bound := by
    have hreach := hstep.reach_le
    simp only [Segment.reach, hextra]
    exact Nat.lt_of_le_of_lt hreach small
  obtain ⟨-, hneeds, hfits⟩ := hs
  cases s with
  | stream s => exact absurd rfl hkind
  | packed s =>
    have hreceive : s.receive (p.rowsOf strip step) (p.segment worker step) =
        .done (s.draw strip (p.segment worker step).body) :=
      PackedSink.receive_eq_draw
        (hshows _ fun c hc ↦ ⟨Nat.lt_of_lt_of_le
          (PackedSink.lt_channelsNeeded (PackedSink.reads_of_uses hc)) hneeds,
          PackedSink.reads_of_uses hc⟩)
        (PackedSink.Fits.room hfits hstep.reach_le)
    rw [receive, hreceive]
    rfl
  | frame s =>
    have hchannels : s.bundle.channels.length = p.channels :=
      FrameSink.Bound.length_channels hfits
    obtain ⟨hbinding, ⟨color, hcolor⟩, -, -⟩ := hfits
    have hreceive : s.receive (p.rowsOf strip step) (p.segment worker step) =
        .done (s.draw strip (p.segment worker step).span) :=
      FrameSink.receive_eq_draw hbinding hcolor
        (hshows _ fun c hc ↦ ⟨by rwa [hchannels] at hc, rfl⟩) fun _ _ _ ↦ hsmall
    rw [receive, hreceive, hspan]
    rfl
  | planar s =>
    obtain ⟨hbinding, ⟨image, himage⟩, -⟩ := hfits
    have hneeds : 3 ≤ p.channels := hneeds
    have hreceive : s.receive (p.rowsOf strip step) (p.segment worker step) =
        .done (s.draw strip (p.segment worker step).span) :=
      PlanarSink.receive_eq_draw hbinding himage
        (hshows _ fun c hc ↦ ⟨by omega, by simp [mode, PlanarSink.mode, hc, Mode.reads]⟩)
        fun _ _ _ ↦ hsmall
    rw [receive, hreceive, hspan]
    rfl

theorem Ready.with_log {s : StreamSink} (h : (stream s).Ready p n) (log : Array Event) :
    (stream { s with log }).Ready p n :=
  ⟨h.mode_eq, h.needs_le, StreamSink.Opened.with_log h.fits log⟩

/-- A sink with a consumer offers the calls of what it is handed. -/
theorem receive_eq_stepCalls (h : p.Planned) (small : p.width < Size.bound) {s : StreamSink}
    (hs : (stream s).Ready p n) (hstep : p.InFrame step)
    (hstage : step.stage = p.filters.length) (strip : Strip) {worker : Nat} (hworker : worker < n) :
    ∃ buffers, (stream { s with buffers }).Ready p n ∧
      s.receive (p.rowsOf strip step) (p.segment worker step) =
        Outcome.each StreamSink.offer (s.options.stepCalls worker strip step)
          { s with buffers } := by
  have hreach := hstep.reach_le
  have hpad : (p.rowsOf strip step).pad = 0 := h.paddingAt_of_ge (by omega)
  have hextra : (p.segment worker step).extra = 0 := h.paddingAt_of_ge (by omega)
  have hend : (p.segment worker step).reach = step.column + step.length := by
    rw [Segment.reach, hextra]
    rfl
  have hshown : (p.rowsOf strip step).Shows strip (p.segment worker step)
      fun c ↦ (s.options.mode c).reads := shows_rowsOf h hstage strip worker fun c hc ↦
    ⟨Nat.lt_of_lt_of_le (StreamOptions.lt_channelsNeeded hc) hs.needs_le, by
      rw [← hs.mode_eq]
      exact hc⟩
  obtain ⟨buffers, hopened, hreceive⟩ := StreamSink.receive_eq_offers hs.fits hshown
    (show (p.segment worker step).worker < n from hworker) (by omega) fun batch hbatch ↦ by
      obtain ⟨k, hk, rfl⟩ := List.mem_map.1 hbatch
      obtain ⟨-, hstop, -, -⟩ := StreamSink.batchAt_bounds (List.mem_range.1 hk)
      omega
  rw [Segment.span_of_extra hextra] at hreceive
  exact ⟨buffers, ⟨hs.mode_eq, hs.needs_le, hopened⟩, hreceive⟩

/-- A ready sink stays ready, whatever it is handed, and fails only where its consumer gives up. -/
theorem Ready.receive_keeps (hs : s.Ready p n) (h : p.Planned) (small : p.width < Size.bound)
    (hstep : p.InFrame step) (hstage : step.stage = p.filters.length) (strip : Strip)
    {worker : Nat} (hworker : worker < n) :
    (s.receive (p.rowsOf strip step) (p.segment worker step)).Keeps (Ready p n)
      Failure.IsGivingUp := by
  by_cases hkind : s.kind = .stream
  · obtain ⟨s, rfl⟩ := exists_of_kind_stream hkind
    obtain ⟨buffers, hready, hreceive⟩ :=
      receive_eq_stepCalls h small hs hstep hstage strip hworker
    rw [receive, hreceive]
    obtain ⟨log, hstate⟩ := StreamSink.state_each_offer
      (s.options.stepCalls worker strip step) { s with buffers }
    refine ⟨?_, fun e he ↦ StreamSink.failure_each_offer he⟩
    rw [Outcome.state_map, hstate]
    exact hready.with_log log
  · rw [receive_eq_draw h small hs hkind hstep hstage]
    exact Outcome.keeps_done (hs.draw strip step)

/-! ## Drawing in any order -/

/-- Steps without a common pixel may be drawn in either order. -/
theorem draw_comm {width channels : Nat} (hs : s.Fits width channels n) {a b : Pipeline.Step}
    (ha : a.column + a.length ≤ width) (hb : b.column + b.length ≤ width) (apart : a.Apart b)
    (strip strip' : Strip) :
    (s.draw strip a).draw strip' b = (s.draw strip' b).draw strip a := by
  cases s with
  | packed s => exact congrArg packed (PackedSink.draw_comm hs ha hb apart strip strip')
  | stream s => rfl
  | frame s =>
    simp only [draw, FrameSink.draw, Bundle.mapPlanes_mapPlanes]
    rw [Bundle.mapPlanes_congr fun c plane hplane ↦
      Plane.draw_comm (hs.rows c plane hplane) apart strip strip' c]
  | planar s =>
    obtain ⟨-, ⟨image, himage⟩, hrows⟩ := hs
    simp only [draw, PlanarSink.draw, himage, Option.map_some, Image.mapPlanes_mapPlanes]
    rw [Image.mapPlanes_congr fun c plane hplane ↦
      Plane.draw_comm (hrows c plane (by rw [plane?, himage]; exact hplane)) apart strip strip' c]

/-- Draws steps one after another, each of the strip of its row. -/
def drawAll (strips : Nat → Strip) (steps : List Pipeline.Step) (s : Sink) : Sink :=
  steps.foldl (fun s step ↦ s.draw (strips step.row) step) s

section DrawAll

variable (strips : Nat → Strip)

@[simp] theorem drawAll_cons (step : Pipeline.Step) (steps : List Pipeline.Step) (s : Sink) :
    s.drawAll strips (step :: steps) = (s.draw (strips step.row) step).drawAll strips steps := rfl

theorem kind_drawAll (steps : List Pipeline.Step) (s : Sink) :
    (s.drawAll strips steps).kind = s.kind := by
  induction steps generalizing s with
  | nil => rfl
  | cons step rest ih => rw [drawAll_cons, ih, kind_draw]

/-- Steps of which no two have a pixel in common may be drawn in any order. -/
theorem drawAll_perm {width channels : Nat} {steps steps' : List Pipeline.Step}
    (hperm : steps.Perm steps') (hinside : ∀ step ∈ steps, step.column + step.length ≤ width)
    (hapart : ∀ a ∈ steps, ∀ b ∈ steps, a ≠ b → a.Apart b) {s : Sink}
    (hs : s.Fits width channels n) : s.drawAll strips steps = s.drawAll strips steps' := by
  induction hperm generalizing s with
  | nil => rfl
  | cons step _ ih =>
    refine ih (fun a ha ↦ hinside a (List.mem_cons_of_mem _ ha)) (fun a ha b hb ↦ ?_)
      (hs.draw _ step)
    exact hapart a (List.mem_cons_of_mem _ ha) b (List.mem_cons_of_mem _ hb)
  | swap a b rest =>
    rw [drawAll_cons, drawAll_cons, drawAll_cons, drawAll_cons]
    by_cases heq : a = b
    · rw [heq]
    · rw [draw_comm hs (hinside b (by simp)) (hinside a (by simp))
        (hapart b (by simp) a (by simp) (Ne.symm heq))]
  | trans hfirst _ ih ih' =>
    refine (ih hinside hapart hs).trans (ih' (fun a ha ↦ hinside a (hfirst.mem_iff.2 ha))
      (fun a ha b hb ↦ ?_) hs)
    exact hapart a (hfirst.mem_iff.2 ha) b (hfirst.mem_iff.2 hb)

end DrawAll

end Sink

end Scanline
