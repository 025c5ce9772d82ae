import Mathlib.Order.Bounds.Basic
import Scanline.Proofs.Runs

/-!
# The channels that stages need

`Stage.Needs` says which channels a stage cannot do without: the colors of its layout and its alpha.
The number that a stage asks for when a pipeline is built is one more than the greatest of these
(`Stage.exists_isGreatest_needs`), and no row of any other channel is ever asked for when segments
are worked on (`Filter.onlyWants_produce`, `Sink.receive_keeps_within`).

Main statement: the first stage that needs a channel beyond those of the frame is reported with the
greatest one that it needs, and nothing is reported if there is no such stage; hence the stages of a
pipeline find every row that they ask for (`Blueprint.build_finds_channels`).  The number that is
asked for must itself be a size, which it is not if alpha is the largest one
(`Blueprint.build_of_largest_alpha`).
-/

namespace Scanline

/-! ## Needs -/

/-- The channels that a filter needs. -/
def Filter.Needs : Filter → Nat → Prop
  | premultiply s, c => c < 3 ∨ c = s.alpha
  | smooth _, c => c < 3

/-- The channels that a sink needs. -/
def Sink.Needs : Sink → Nat → Prop
  | packed s, c => c < 3 ∨ s.alpha = some c
  | stream s, c => c < s.options.format.colors ∨ s.options.alpha = some c
  | frame _, c | planar _, c => c < 3

/-- The channels that a stage needs. -/
def Stage.Needs : Stage → Nat → Prop
  | filter f => f.Needs
  | sink s => s.Needs

theorem PixelFormat.colors_pos (f : PixelFormat) : 0 < f.colors := by
  unfold colors
  cases f.layout <;> decide

/-- The greatest of the first `colors` numbers and another one, if there is one. -/
theorem exists_isGreatest_colors {colors : Nat} (hcolors : 0 < colors) (alpha : Option Nat) :
    ∃ c, IsGreatest {c | c < colors ∨ alpha = some c} c ∧
      (match alpha with
        | some a => max (a + 1) colors
        | none => colors) = c + 1 := by
  cases alpha with
  | none =>
    refine ⟨colors - 1, ⟨.inl (by omega), fun c hc ↦ ?_⟩, by dsimp only; omega⟩
    rcases hc with hc | hc
    · omega
    · cases hc
  | some a =>
    refine ⟨max a (colors - 1), ⟨?_, fun c hc ↦ ?_⟩, by dsimp only; omega⟩
    · rcases Nat.lt_or_ge a colors with hlt | hge
      · exact .inl (by omega)
      · exact .inr (congrArg some (by omega))
    · rcases hc with hc | hc
      · omega
      · cases hc
        omega

namespace Stage

/-- A stage asks for one channel more than the greatest that it needs. -/
theorem exists_isGreatest_needs (stage : Stage) :
    ∃ c, IsGreatest {c | stage.Needs c} c ∧ stage.channelsNeeded = c + 1 := by
  have hthree : IsGreatest {c | c < 3} 2 := ⟨by simp, fun c hc ↦ Nat.le_of_lt_succ hc⟩
  cases stage with
  | filter f =>
    cases f with
    | premultiply s =>
      have hle := s.le_alpha
      refine ⟨s.alpha, ⟨.inr rfl, fun c hc ↦ ?_⟩, rfl⟩
      rcases hc with hc | rfl
      · omega
      · exact le_rfl
    | smooth s => exact ⟨2, hthree, rfl⟩
  | sink s =>
    cases s with
    | packed s => exact exists_isGreatest_colors (by decide) s.alpha
    | stream s => exact exists_isGreatest_colors (PixelFormat.colors_pos _) s.options.alpha
    | frame s => exact ⟨2, hthree, rfl⟩
    | planar s => exact ⟨2, hthree, rfl⟩

theorem channelsNeeded_le_iff {stage : Stage} {n : Nat} :
    stage.channelsNeeded ≤ n ↔ ∀ c, stage.Needs c → c < n := by
  obtain ⟨greatest, ⟨hneeds, hle⟩, hneeded⟩ := stage.exists_isGreatest_needs
  rw [hneeded]
  exact ⟨fun h c hc ↦ Nat.lt_of_le_of_lt (hle hc) h, fun h ↦ h _ hneeds⟩

end Stage

/-! ## Rows that are asked for -/

/-- The channel whose row was not handed over. -/
def Misuse.missing? : Misuse → Option Nat
  | notDelivered c | notWritable c => some c
  | outOfRange | overflow => none

section OnlyWants

variable {α β : Type} {P : Nat → Prop}

/-- A computation that asks for rows of certain channels only. -/
def OnlyWants (P : Nat → Prop) (x : Except Misuse α) : Prop :=
  ∀ misuse c, x = .error misuse → misuse.missing? = some c → P c

theorem onlyWants_ok (a : α) : OnlyWants P (.ok a) := fun _ _ h ↦ nomatch h

/-- A chain asks for what its parts ask for. -/
theorem OnlyWants.bind {x : Except Misuse α} {f : α → Except Misuse β} (hx : OnlyWants P x)
    (hf : ∀ a, OnlyWants P (f a)) : OnlyWants P (x >>= f) := by
  intro misuse c h hc
  rcases bind_eq_error_iff.1 h with h | ⟨a, -, h⟩
  · exact hx misuse c h hc
  · exact hf a misuse c h hc

theorem onlyWants_mapM {f : α → Except Misuse β} {l : List α} (h : ∀ a ∈ l, OnlyWants P (f a)) :
    OnlyWants P (l.mapM f) := by
  intro misuse c hmap hc
  obtain ⟨a, hmem, ha⟩ := of_mapM_eq_error hmap
  exact h a hmem misuse c ha hc

theorem onlyWants_foldlM {f : β → α → Except Misuse β} {l : List α}
    (h : ∀ a ∈ l, ∀ b, OnlyWants P (f b a)) (b : β) : OnlyWants P (l.foldlM f b) := by
  induction l generalizing b with
  | nil => exact onlyWants_ok b
  | cons a rest ih =>
    rw [List.foldlM_cons]
    exact (h a List.mem_cons_self b).bind fun b ↦ ih (fun a ha ↦ h a (List.mem_cons_of_mem _ ha)) b

theorem Size.onlyWants_ofNat (n : Nat) : OnlyWants P (ofNat n) := by
  intro misuse c h hc
  rw [eq_overflow_of_ofNat h] at hc
  cases hc

theorem Size.onlyWants_sub (a b : Nat) : OnlyWants P (sub a b) := by
  intro misuse c h hc
  rw [eq_overflow_of_sub h] at hc
  cases hc

theorem Row.onlyWants_slice (row : Row) (start length : Nat) :
    OnlyWants P (row.slice start length) := by
  intro misuse c h hc
  unfold slice at h
  split_ifs at h
  cases h
  cases hc

theorem Rows.onlyWants_row (rows : Rows) {c : Nat} (hc : P c) : OnlyWants P (rows.row c) := by
  intro misuse channel h hchannel
  unfold row at h
  split at h <;> cases h
  cases hchannel
  exact hc

theorem Rows.onlyWants_write (rows : Rows) {c : Nat} (hc : P c) (start : Nat) (samples : Row) :
    OnlyWants P (rows.write c start samples) := by
  refine OnlyWants.bind (fun misuse channel h hchannel ↦ ?_) fun row ↦ ?_
  · unfold writable at h
    split at h <;> cases h
    cases hchannel
    exact hc
  · split_ifs
    · exact onlyWants_ok _
    · intro misuse channel h hchannel
      cases h
      cases hchannel

theorem Rows.onlyWants_writeColors (output : Rows) (target : Nat) {make : Nat → Except Misuse Row}
    (hcolors : ∀ c < 3, P c) (hmake : ∀ c < 3, OnlyWants P (make c)) :
    OnlyWants P (output.writeColors target make) := by
  refine onlyWants_foldlM (fun c hmem rows ↦ ?_) output
  have hc : c < 3 := by simp [colorChannels] at hmem; omega
  exact (hmake c hc).bind fun samples ↦ rows.onlyWants_write (hcolors c hc) target samples

/-- A filter asks for rows of the channels that it needs, to read them or to write them. -/
theorem Filter.onlyWants_produce (f : Filter) (input output : Rows) (segment : Segment) :
    OnlyWants f.Needs (f.produce input output segment) := by
  cases f with
  | premultiply s =>
    refine (Size.onlyWants_ofNat _).bind fun length ↦ (Size.onlyWants_sub _ _).bind fun start ↦
      (Size.onlyWants_sub _ _).bind fun target ↦ (input.onlyWants_row (.inr rfl)).bind fun row ↦
      (row.onlyWants_slice _ _).bind fun alpha ↦ ?_
    refine output.onlyWants_writeColors target (fun c hc ↦ .inl hc) fun c hc ↦ ?_
    exact (input.onlyWants_row (.inl hc)).bind fun row ↦ (row.onlyWants_slice _ _).bind fun _ ↦
      onlyWants_ok _
  | smooth s =>
    refine (Size.onlyWants_ofNat _).bind fun length ↦ (Size.onlyWants_sub _ _).bind fun start ↦
      (Size.onlyWants_sub _ _).bind fun target ↦ ?_
    have hneeds : ∀ c < 3, (Filter.smooth s).Needs c := fun c hc ↦ hc
    refine output.onlyWants_writeColors target hneeds fun c hc ↦ ?_
    exact (input.onlyWants_row (hneeds c hc)).bind fun row ↦ (row.onlyWants_slice _ _).bind
      fun _ ↦ onlyWants_ok _

theorem PackedSink.onlyWants_bands (s : PackedSink) (input : Rows) :
    OnlyWants (Sink.packed s).Needs (s.bands input) := by
  have hcolor : ∀ c < 3, OnlyWants (Sink.packed s).Needs (input.row c) := fun c hc ↦
    input.onlyWants_row (.inl hc)
  refine (hcolor 0 (by decide)).bind fun row0 ↦ (hcolor 1 (by decide)).bind fun row1 ↦
    (hcolor 2 (by decide)).bind fun row2 ↦ ?_
  cases halpha : s.alpha with
  | none => exact onlyWants_ok _
  | some channel =>
    dsimp only
    split_ifs
    · exact (input.onlyWants_row (.inr halpha)).bind fun _ ↦ onlyWants_ok _
    · exact onlyWants_ok _

theorem PackedSink.onlyWants_pixelBytes (s : PackedSink) (b : PackedSink.Bands)
    (offset count : Nat) : OnlyWants P (s.pixelBytes b offset count) := by
  refine (onlyWants_mapM fun row _ ↦ (row.onlyWants_slice _ _).bind fun _ ↦
    onlyWants_ok _).bind fun colors ↦ ?_
  cases b.alpha with
  | none => exact (onlyWants_ok _).bind fun _ ↦ onlyWants_ok _
  | some row =>
    exact (row.onlyWants_slice _ _).bind fun _ ↦ (onlyWants_ok _).bind fun _ ↦ onlyWants_ok _

theorem StreamOptions.onlyWants_bands (s : StreamSink) (input : Rows) :
    OnlyWants (Sink.stream s).Needs (s.options.bands input) := by
  refine (onlyWants_mapM fun c hmem ↦
    input.onlyWants_row (.inl (List.mem_range.1 hmem))).bind fun colors ↦ ?_
  cases halpha : s.options.alpha with
  | none => exact onlyWants_ok _
  | some channel => exact (input.onlyWants_row (.inr halpha)).bind fun _ ↦ onlyWants_ok _

/-- A plane is given samples of a row that is there. -/
theorem Plane.onlyWants_patchOf (plane : Plane) (source : Row) (pad : Nat) (segment : Segment) :
    OnlyWants P (plane.patchOf source pad segment) := by
  unfold patchOf
  dsimp only
  split_ifs
  · refine (Size.onlyWants_ofNat _).bind fun reach ↦ ?_
    split_ifs
    · exact (Size.onlyWants_sub _ _).bind fun offset ↦ (source.onlyWants_slice _ _).bind fun _ ↦
        onlyWants_ok _
    · exact onlyWants_ok _
  · exact onlyWants_ok _

theorem Plane.onlyWants_patchesOf (planes : List Plane) (input : Rows) (segment : Segment) :
    OnlyWants (· < planes.length) (Plane.patchesOf planes input segment) := by
  refine onlyWants_mapM fun indexed hmem ↦ ?_
  have hrow : OnlyWants (· < planes.length) (input.row indexed.2) :=
    input.onlyWants_row (by simpa using (List.mem_zipIdx hmem).2.1)
  exact hrow.bind fun row ↦ indexed.1.onlyWants_patchOf row _ _

end OnlyWants

/-! ## Sinks over many segments -/

/-- A failure that is not the want of a row beyond the first `n` channels. -/
def Failure.WantsBelow (n : Nat) (e : Failure) : Prop :=
  ∀ misuse c, e = .misuse misuse → misuse.missing? = some c → c < n

/-- A computation fails as it may when it asks for rows of the first `n` channels. -/
theorem OnlyWants.wantsBelow {α : Type} {P : Nat → Prop} {x : Except Misuse α} {misuse : Misuse}
    {n : Nat} (h : OnlyWants P x) (hP : ∀ c, P c → c < n) (hx : x = .error misuse) :
    (Failure.misuse misuse).WantsBelow n := by
  intro other c hother hc
  cases hother
  exact hP c (h misuse c hx hc)

theorem Failure.wantsBelow_fault {n : Nat} (e : Fault) : (Failure.fault e).WantsBelow n :=
  fun _ _ h ↦ nomatch h

namespace Sink

/-- A sink that asks for rows of the first `n` channels only. -/
def Within (n : Nat) : Sink → Prop
  | packed s => ∀ c, (packed s).Needs c → c < n
  | stream s => ∀ c, (stream s).Needs c → c < n
  | frame s => s.bundle.channels.length ≤ n
  | planar s => ((s.image.map Image.planes).getD []).length ≤ n

variable {n : Nat}

theorem wantsBelow_of_patchesOf {planes : List Plane} {input : Rows} {segment : Segment}
    {misuse : Misuse} (h : Plane.patchesOf planes input segment = .error misuse)
    (hle : planes.length ≤ n) : (Failure.misuse misuse).WantsBelow n :=
  (Plane.onlyWants_patchesOf planes input segment).wantsBelow
    (fun _ hc ↦ Nat.lt_of_lt_of_le hc hle) h

/-- A packed sink asks for the same rows after a segment. -/
theorem receive_keeps_packed {s : PackedSink} (hs : (packed s).Within n) (input : Rows)
    (segment : Segment) :
    (s.receive input segment).Keeps (fun t ↦ (packed t).Within n) (Failure.WantsBelow n) := by
  unfold PackedSink.receive
  split_ifs
  · exact Outcome.keeps_done hs
  · dsimp only
    split
    case h_1 misuse hmisuse =>
      exact Outcome.keeps_failed hs ((Size.onlyWants_ofNat _).wantsBelow hs hmisuse)
    case h_2 =>
      split_ifs
      · split
        case h_1 b hb =>
          refine Outcome.each_keeps (fun piece _ t ht ↦ ?_) hs
          unfold PackedSink.writePiece
          split
          case h_1 => exact Outcome.keeps_done ht
          case h_2 misuse hmisuse =>
            exact Outcome.keeps_failed ht ((t.onlyWants_pixelBytes b _ _).wantsBelow ht hmisuse)
        case h_2 misuse hmisuse =>
          exact Outcome.keeps_failed hs ((s.onlyWants_bands input).wantsBelow hs hmisuse)
      · exact Outcome.keeps_failed hs (Failure.wantsBelow_fault _)

/-- A misuse that has nothing to do with rows is not the want of one. -/
theorem wantsBelow_of_missing?_eq_none {misuse : Misuse} (h : misuse.missing? = none) :
    (Failure.misuse misuse).WantsBelow n := by
  intro other c hother hc
  cases hother
  rw [h] at hc
  cases hc

/-- A batch that is handed over asks for no row, and leaves the needs of the sink as they are. -/
theorem handOver_keeps_within {s : StreamSink} (hs : (stream s).Within n)
    (b : StreamOptions.Bands) (pad : Nat) (segment : Segment) (batch : Batch) :
    (s.handOver b pad segment batch).Keeps (fun t ↦ (stream t).Within n)
      (Failure.WantsBelow n) := by
  rcases s.handOver_cases b pad segment batch with
    ⟨misuse, hmisuse, hover⟩ | ⟨offset, -, -, -, hover⟩
  · rw [hover]
    refine Outcome.keeps_failed hs (wantsBelow_of_missing?_eq_none ?_)
    rcases hmisuse with rfl | rfl <;> rfl
  · -- The calls only lengthen the log.
    rw [hover]
    obtain ⟨log, hstate⟩ := StreamSink.state_each_offer _ _
    refine ⟨hstate ▸ hs, fun e he ↦ ?_⟩
    obtain ⟨x, y, reason, rfl⟩ := StreamSink.failure_each_offer he
    exact Failure.wantsBelow_fault _

/-- A stream sink asks for the same rows after a segment. -/
theorem receive_keeps_stream {s : StreamSink} (hs : (stream s).Within n) (input : Rows)
    (segment : Segment) :
    (s.receive input segment).Keeps (fun t ↦ (stream t).Within n) (Failure.WantsBelow n) := by
  rcases s.receive_cases input segment with
    ⟨-, hrow⟩ | ⟨-, -, hrow⟩ | ⟨-, -, -, ⟨misuse, hmisuse, hrow⟩ | ⟨b, -, -, hrow⟩⟩
  · rw [hrow]
    exact Outcome.keeps_failed hs (Failure.wantsBelow_fault _)
  · rw [hrow]
    exact Outcome.keeps_done hs
  · rw [hrow]
    refine Outcome.keeps_failed hs ?_
    rcases hmisuse with hmisuse | rfl
    · exact (StreamOptions.onlyWants_bands s input).wantsBelow hs hmisuse
    · exact wantsBelow_of_missing?_eq_none rfl
  · rw [hrow]
    exact Outcome.each_keeps (fun batch _ t ht ↦ handOver_keeps_within ht b _ segment batch) hs

theorem receive_keeps_frame {s : FrameSink} (hs : (frame s).Within n) (input : Rows)
    (segment : Segment) :
    (s.receive input segment).Keeps (fun t ↦ (frame t).Within n) (Failure.WantsBelow n) := by
  unfold FrameSink.receive
  split_ifs
  · split
    case h_1 patches _ =>
      refine Outcome.keeps_done (Nat.le_trans (Nat.le_of_eq ?_) hs)
      simp only [Bundle.channels, Bundle.mapPlanes]
      cases s.bundle.color <;> simp [Image.planes]
    case h_2 misuse hmisuse =>
      exact Outcome.keeps_failed hs (wantsBelow_of_patchesOf hmisuse hs)
  · exact Outcome.keeps_failed hs (Failure.wantsBelow_fault _)

theorem receive_keeps_planar {s : PlanarSink} (hs : (planar s).Within n) (input : Rows)
    (segment : Segment) :
    (s.receive input segment).Keeps (fun t ↦ (planar t).Within n) (Failure.WantsBelow n) := by
  unfold PlanarSink.receive
  split_ifs
  · split
    case h_1 patches _ =>
      refine Outcome.keeps_done (Nat.le_trans (Nat.le_of_eq ?_) hs)
      cases s.image <;> simp [Image.planes]
    case h_2 misuse hmisuse =>
      exact Outcome.keeps_failed hs (wantsBelow_of_patchesOf hmisuse hs)
  · exact Outcome.keeps_failed hs (Failure.wantsBelow_fault _)

/-- A sink asks for the same rows after a segment. -/
theorem receive_keeps_within {s : Sink} (hs : s.Within n) (input : Rows) (segment : Segment) :
    (s.receive input segment).Keeps (Within n) (Failure.WantsBelow n) := by
  cases s with
  | packed s => exact (receive_keeps_packed hs input segment).map fun _ ht ↦ ht
  | stream s => exact (receive_keeps_stream hs input segment).map fun _ ht ↦ ht
  | frame s => exact (receive_keeps_frame hs input segment).map fun _ ht ↦ ht
  | planar s => exact (receive_keeps_planar hs input segment).map fun _ ht ↦ ht

/-- A ready sink asks for rows of the channels of the frame. -/
theorem Ready.within {p : Pipeline} {workers : Nat} {s : Sink} (h : s.Ready p workers) :
    s.Within p.channels := by
  have hle : (Stage.sink s).channelsNeeded ≤ p.channels := h.needs_le
  have hneeds := Stage.channelsNeeded_le_iff.1 hle
  cases s with
  | packed s => exact hneeds
  | stream s => exact hneeds
  | frame s => exact Nat.le_of_eq (FrameSink.Bound.length_channels h.fits)
  | planar s =>
    obtain ⟨image, himage⟩ := PlanarSink.Bound.exists_image h.fits
    have hthree : 3 ≤ p.channels := h.needs_le
    simpa [Within, himage, Image.planes] using hthree

end Sink

/-! ## Building -/

namespace Blueprint

variable {b : Blueprint}

/-- A stage finds the channels that it needs when its check passes, and the check of one that does
not names the greatest that it needs, if the number that it asks for is a size. -/
theorem checkChannels_of_needs {stage : Stage} (hsizes : b.sizes.length < Size.bound) {c : Nat}
    (hc : IsGreatest {c | stage.Needs c} c) :
    b.checkChannels stage =
      if c < b.sizes.length then .ok ()
      else .error (if c + 1 < Size.bound then .fault (.lacksChannel stage.kind c b.sizes.length)
        else .misuse .overflow) := by
  obtain ⟨greatest, hgreatest, hneeded⟩ := stage.exists_isGreatest_needs
  cases hc.unique hgreatest
  rw [checkChannels_eq, hneeded, Nat.add_sub_cancel]
  split_ifs <;> first | rfl | omega

theorem lt_of_checkChannels {stage : Stage} (h : b.checkChannels stage = .ok ()) {c : Nat}
    (hc : stage.Needs c) : c < b.sizes.length :=
  Stage.channelsNeeded_le_iff.1 (channelsNeeded_le h) c hc

/-- A frame that lacks a channel is refused at the first stage that needs one it lacks. -/
theorem exists_first_lacking {checked : List Filter × Sink × Nat × Nat}
    (hframe : b.checkFrame = .ok checked) (hsizes : b.sizes.length < Size.bound)
    (h : ∃ stage ∈ b.stages, ∃ c, stage.Needs c ∧ b.sizes.length ≤ c) :
    ∃ front stage back c, b.stages = front ++ stage :: back ∧
      (∀ earlier ∈ front, ∀ c, earlier.Needs c → c < b.sizes.length) ∧
      IsGreatest {c | stage.Needs c} c ∧ b.sizes.length ≤ c ∧
      b.build.pipeline =
        .error (if c + 1 < Size.bound then .fault (.lacksChannel stage.kind c b.sizes.length)
          else .misuse .overflow) := by
  cases hchannels : b.stages.forM b.checkChannels with
  | ok _ =>
    obtain ⟨stage, hmem, c, hc, hle⟩ := h
    have := lt_of_checkChannels (forM_eq_ok_iff.1 hchannels stage hmem) hc
    omega
  | error e =>
    obtain ⟨front, stage, back, hstages, hfront, hstage⟩ := forM_eq_error_iff.1 hchannels
    obtain ⟨c, hc, -⟩ := stage.exists_isGreatest_needs
    rw [checkChannels_of_needs hsizes hc] at hstage
    by_cases hlt : c < b.sizes.length
    · rw [if_pos hlt] at hstage
      cases hstage
    · rw [if_neg hlt] at hstage
      cases hstage
      have hcheck := check_eq_error_iff.2 (.inr ⟨checked, hframe, hchannels⟩)
      exact ⟨front, stage, back, c, hstages,
        fun earlier hmem _ ↦ lt_of_checkChannels (hfront earlier hmem), hc, Nat.not_lt.1 hlt,
        build_eq_error_iff.2 (.inl hcheck)⟩

/-- A frame that has all channels is not refused for want of one. -/
theorem not_lacking {checked : List Filter × Sink × Nat × Nat}
    (hframe : b.checkFrame = .ok checked) (hsizes : b.sizes.length < Size.bound)
    (h : ∀ stage ∈ b.stages, ∀ c, stage.Needs c → c < b.sizes.length) (kind : StageKind)
    (c n : Nat) : b.build.pipeline ≠ .error (.fault (.lacksChannel kind c n)) := by
  have hchannels : b.stages.forM b.checkChannels = .ok () := by
    refine forM_eq_ok_iff.2 fun stage hmem ↦ ?_
    obtain ⟨greatest, hgreatest, -⟩ := stage.exists_isGreatest_needs
    rw [checkChannels_of_needs hsizes hgreatest, if_pos (h stage hmem greatest hgreatest.1)]
  intro hbuild
  rcases build_eq_error_iff.1 hbuild with hcheck | ⟨_, _, _, _, -, hbind⟩
  · rw [check_eq_ok_iff.2 ⟨hframe, forM_eq_ok_iff.1 hchannels⟩] at hcheck
    cases hcheck
  · exact (Sink.isMisfit_of_bind hbind).elim

/-- When stages and frame pass their checks, a build reports the first stage that needs a channel
which the frame lacks, with the greatest channel that it needs, as long as the number after that is
a size; it reports no channel if none is lacking.  The stages of a pipeline then ask, for reading or
writing, for rows of the frame's channels only: a filter on any rows, and a sink over any segments
one after another. -/
theorem build_finds_channels (b : Blueprint) {checked : List Filter × Sink × Nat × Nat}
    (hframe : b.checkFrame = .ok checked) (hsizes : b.sizes.length < Size.bound) :
    ((∃ stage ∈ b.stages, ∃ c, stage.Needs c ∧ b.sizes.length ≤ c) →
      ∃ front stage back c, b.stages = front ++ stage :: back ∧
        (∀ earlier ∈ front, ∀ c, earlier.Needs c → c < b.sizes.length) ∧
        IsGreatest {c | stage.Needs c} c ∧ b.sizes.length ≤ c ∧
        b.build.pipeline =
          .error (if c + 1 < Size.bound then .fault (.lacksChannel stage.kind c b.sizes.length)
            else .misuse .overflow)) ∧
    ((∀ stage ∈ b.stages, ∀ c, stage.Needs c → c < b.sizes.length) →
      ∀ kind c n, b.build.pipeline ≠ .error (.fault (.lacksChannel kind c n))) ∧
    ∀ p, b.build.pipeline = .ok p →
      (∀ f ∈ p.filters, ∀ input output segment misuse c,
        f.produce input output segment = .error misuse → misuse.missing? = some c →
          c < b.sizes.length) ∧
      ∀ workers t segments misuse c, p.sink.prepare workers = .done t →
        (Outcome.each (fun (rows, segment) s ↦ Sink.receive s rows segment) segments t).failure =
          some (.misuse misuse) → misuse.missing? = some c → c < b.sizes.length := by
  refine ⟨exists_first_lacking hframe hsizes, not_lacking hframe hsizes, fun p hbuild ↦ ?_⟩
  obtain ⟨sink, hyields⟩ := exists_yields hbuild
  rw [hyields.length_sizes]
  refine ⟨fun f hf input output segment misuse c hproduce hc ↦ ?_,
    fun workers t segments misuse c hprepare hfailure hc ↦ ?_⟩
  · have hneeds := hyields.planned.needs_le (.filter f) (by simp [Pipeline.stages, hf])
    exact Stage.channelsNeeded_le_iff.1 hneeds c
      (f.onlyWants_produce input output segment misuse c hproduce hc)
  · have hwithin := (hyields.ready_of_prepare hprepare).within
    have hkeeps := Outcome.each_keeps (l := segments)
      (fun segment _ s hs ↦ Sink.receive_keeps_within hs segment.1 segment.2) hwithin
    exact hkeeps.2 _ hfailure misuse c rfl hc

/-- The second stage lacks its alpha in a frame of three channels, and no stage lacks any in one of
six. -/
theorem build_finds_channels_premultiplied :
    let alpha : Filter := .premultiply ⟨5, by decide⟩
    let b (n : Nat) : Blueprint := ⟨List.replicate n (3, 2),
      [.filter (.smooth .standard), .filter alpha, .sink (.planar ⟨none, .free⟩)], 2, {}⟩
    ((b 3).build.pipeline = .error (.fault (.lacksChannel .premultiply 5 3)) ∧
      ∃ front stage back c, (b 3).stages = front ++ stage :: back ∧
        IsGreatest {c | stage.Needs c} c ∧ 3 ≤ c) ∧
    ∃ p, (b 6).build.pipeline = .ok p ∧ alpha ∈ p.filters ∧
      ∀ input output segment misuse c, alpha.produce input output segment = .error misuse →
        misuse.missing? = some c → c < 6 := by
  intro alpha b
  obtain ⟨front, stage, back, c, hstages, -, hc, hle, -⟩ :=
    (build_finds_channels (b 3) rfl (by decide)).1
      ⟨.filter alpha, by simp [b], 5, .inr rfl, by decide⟩
  obtain ⟨-, -, hbuilt⟩ := build_finds_channels (b 6) rfl (by decide)
  exact ⟨⟨rfl, front, stage, back, c, hstages, hc, hle⟩, _, rfl, .tail _ (.head _),
    (hbuilt _ rfl).1 alpha (.tail _ (.head _))⟩

/-- The largest size is a channel that a frame of one channel lacks, and there is no number after
it to ask for. -/
theorem build_of_largest_alpha :
    let s : Sink := .stream
      ⟨{ width := 1, height := 1, format := .gray8, alpha := some Size.largest },
        .willing, false, #[], #[]⟩
    let b : Blueprint := ⟨[(1, 1)], [.sink s], 256, {}⟩
    (∃ checked, b.checkFrame = .ok checked) ∧
      (IsGreatest {c | s.Needs c} Size.largest ∧ b.sizes.length ≤ Size.largest) ∧
      b.build.pipeline = .error (.misuse .overflow) := by
  intro s b
  refine ⟨⟨_, rfl⟩, ⟨⟨.inr rfl, fun c hc ↦ ?_⟩, by decide⟩, by rfl⟩
  rcases hc with hc | hc
  · exact Nat.le_trans (Nat.le_of_lt hc) (by decide)
  · cases hc
    exact le_rfl

end Blueprint

end Scanline
