import Scanline.Proofs.Limits
import Scanline.Proofs.Receiving

/-!
# Setting up a run

What a run checks and reserves before the first tile: `Pipeline.checkRun_eq_ok_iff` says when the
checks pass, `Workspace.shaped_of_reserve` what the workers' rows are then, and
`Blueprint.Yields.ready_of_prepare` that a sink which was bound and got ready takes every step of
the frame.

From there on no step is misused: workers with rows of the right lengths and a ready sink stay so
(`Pipeline.perform_keeps`), whichever worker makes the step and whatever was done before.
-/

namespace Scanline

/-! ## Checks -/

namespace Pipeline

variable {p : Pipeline} {input : List Plane} {n : Nat}

theorem rowMemory_eq_ok_iff {bytes : Nat} :
    p.rowMemory n = .ok bytes ↔ p.rowLength < Size.bound ∧
      p.rowCount * p.rowLength * sampleBytes < Size.bound ∧
      bytes = Size.satMul (p.rowCount * p.rowLength * sampleBytes) n := by
  unfold rowMemory
  simp only [bind_eq_ok_iff, Size.ofNat_eq_ok_iff]
  constructor
  · rintro ⟨_, ⟨hlength, rfl⟩, _, ⟨hcount, rfl⟩, h⟩
    cases h
    exact ⟨hlength, hcount, rfl⟩
  · rintro ⟨hlength, hcount, rfl⟩
    exact ⟨_, ⟨hlength, rfl⟩, _, ⟨hcount, rfl⟩, rfl⟩

/-- The checks of a run, one after another, when there is a plane for every channel. -/
theorem checkRun_of_length (hlength : input.length = p.channels) :
    p.checkRun input n =
      match input.findIdx? (·.size ≠ p.size) with
      | some c => .error (.fault (.sizeMismatch c ((input[c]?.map Plane.size).getD p.size) p.size))
      | none =>
        if n = 0 then .error (.fault (.pool .emptyRunner))
        else (p.rowMemory n).mapError Failure.misuse >>= fun bytes ↦
          (p.limits.checkReserved bytes).mapError fun exceeded ↦ .fault (.limit exceeded) := by
  unfold checkRun
  simp only [hlength, ne_eq, not_true_eq_false, if_false]
  cases input.findIdx? (·.size ≠ p.size) with
  | some c => rfl
  | none => split_ifs <;> rfl

/-- A run starts when the input fits the frame, there is a worker, and memory permits. -/
theorem checkRun_eq_ok_iff :
    p.checkRun input n = .ok () ↔
      input.length = p.channels ∧ (∀ plane ∈ input, plane.size = p.size) ∧ 0 < n ∧
        ∃ bytes, p.rowMemory n = .ok bytes ∧ p.limits.checkReserved bytes = .ok () := by
  have hsizes : input.findIdx? (·.size ≠ p.size) = none ↔ ∀ plane ∈ input, plane.size = p.size := by
    simp [List.findIdx?_eq_none_iff]
  by_cases hlength : input.length = p.channels
  · rw [checkRun_of_length hlength, ← hsizes]
    cases input.findIdx? (·.size ≠ p.size) with
    | some c => simp
    | none =>
      rcases Nat.eq_zero_or_pos n with rfl | hn
      · simp
      · simp only [Nat.ne_of_gt hn, if_false, bind_eq_ok_iff, mapError_eq_ok_iff, hlength, hn,
          true_and]
  · refine ⟨fun h ↦ ?_, fun h ↦ absurd h.1 hlength⟩
    unfold checkRun at h
    rw [if_pos hlength] at h
    cases h

theorem checkRun_of_sizes {b : Blueprint} {sink : Sink} (h : b.Yields p sink)
    (fits : input.map Plane.size = b.sizes)
    (memory : ∃ bytes, p.rowMemory 1 = .ok bytes ∧ p.limits.checkReserved bytes = .ok ()) :
    p.checkRun input 1 = .ok () := by
  rw [h.sizes_eq] at fits
  refine checkRun_eq_ok_iff.2 ⟨by simpa using congrArg List.length fits, fun plane hplane ↦ ?_,
    Nat.one_pos, memory⟩
  exact List.eq_of_mem_replicate (fits ▸ List.mem_map_of_mem hplane)

theorem fed_of_checkRun (h : p.checkRun input n = .ok ())
    (hasRow : ∀ plane ∈ input, ∀ y < plane.height, plane.hasRow y) : p.Fed input := by
  obtain ⟨hlength, hsize, -, -⟩ := checkRun_eq_ok_iff.1 h
  exact ⟨hlength, hsize, hasRow⟩

theorem Fed.sides_lt (h : p.Planned) (hinput : p.Fed input) :
    p.width < sideBound ∧ p.height < sideBound := by
  have hpos : 0 < input.length := by rw [hinput.length_eq]; exact h.channels_pos
  have hsize := hinput.size_eq input[0] (List.getElem_mem hpos)
  rw [← show (input[0]).width = p.width from congrArg Prod.fst hsize,
    ← show (input[0]).height = p.height from congrArg Prod.snd hsize]
  exact ⟨(input[0]).width_lt, (input[0]).height_lt⟩

end Pipeline

/-! ## Reserving -/

namespace Workspace

theorem eq_of_reserve {storage : Storage} {n : Nat} {row : Row}
    (h : storage.reserve n = .ok row) : row = Array.replicate n .zero := by
  unfold Storage.reserve at h
  split_ifs at h
  cases h
  rfl

/-- The rows of a channel: none if it is not in use, and a back one only if it is changed. -/
theorem eq_of_reserveChannel {length : Nat} {plan : Plan} {slot : Option RowPair}
    (h : reserveChannel length plan = .ok slot) :
    slot = if plan.inUse then some ⟨Array.replicate length .zero,
      Array.replicate (if plan.changed then length else 0) .zero⟩ else none := by
  unfold reserveChannel at h
  by_cases huse : plan.inUse
  · rw [if_pos huse] at h ⊢
    obtain ⟨front, hfront, h⟩ := bind_eq_ok_iff.1 h
    obtain ⟨back, hback, h⟩ := bind_eq_ok_iff.1 h
    cases h
    rw [eq_of_reserve hfront, eq_of_reserve hback]
  · rw [if_neg huse] at h ⊢
    cases h
    rfl

theorem of_reserveChannel {length : Nat} {plan : Plan} {slot : Option RowPair}
    (h : reserveChannel length plan = .ok slot) :
    (plan.inUse → ∃ ch, slot = some ch) ∧ ∀ ch, slot = some ch → ch.front.size = length ∧
      (plan.changed → ch.back.size = length) := by
  rw [eq_of_reserveChannel h]
  by_cases huse : plan.inUse
  · rw [if_pos huse]
    refine ⟨fun _ ↦ ⟨_, rfl⟩, fun ch hch ↦ ?_⟩
    cases hch
    exact ⟨Array.size_replicate, fun hchanged ↦ by simp [hchanged]⟩
  · rw [if_neg huse]
    exact ⟨fun hin ↦ absurd hin huse, fun ch hch ↦ by cases hch⟩

/-- Reserved rows have their lengths. -/
theorem shaped_of_reserve {p : Pipeline} {rows : Workspace}
    (h : reserve p.plans p.rowLength = .ok rows) : p.Shaped rows := by
  obtain ⟨slots, hslots, h⟩ := bind_eq_ok_iff.1 h
  cases h
  obtain ⟨hlength, hget⟩ := of_mapM_eq_ok hslots
  have hchannel : ∀ (c : Nat) (slot : Option RowPair), slots.toArray[c]? = some slot →
      ∃ plan : Plan, p.plans[c]? = some plan ∧ reserveChannel p.rowLength plan = .ok slot := by
    intro c slot hslot
    have hc : c < p.plans.length := by
      have := (Array.getElem?_eq_some_iff.1 hslot).1
      simpa [hlength] using this
    obtain ⟨slot', hslot', hreserve⟩ := hget c _ (List.getElem?_eq_getElem hc)
    rw [List.getElem?_toArray, hslot', Option.some.injEq] at hslot
    exact ⟨_, List.getElem?_eq_getElem hc, hslot ▸ hreserve⟩
  have hplan : ∀ (c : Nat) (ch : RowPair), slots.toArray[c]? = some (some ch) →
      ch.front.size = p.rowLength ∧ ((p.planAt c).changed → ch.back.size = p.rowLength) := by
    intro c ch hch
    obtain ⟨plan, hplan, hreserve⟩ := hchannel c _ hch
    rw [Pipeline.planAt, hplan]
    exact (of_reserveChannel hreserve).2 ch rfl
  refine ⟨by simp [hlength, Pipeline.channels], fun c huse ↦ ?_, fun c ch hch ↦ (hplan c ch hch).1,
    fun c ch hch ↦ (hplan c ch hch).2⟩
  cases hc : p.plans[c]? with
  | none =>
    rw [Pipeline.planAt, hc] at huse
    cases huse
  | some plan =>
    rw [Pipeline.planAt, hc] at huse
    obtain ⟨slot, hslot, hreserve⟩ := hget c plan hc
    obtain ⟨ch, rfl⟩ := (of_reserveChannel hreserve).1 huse
    exact ⟨ch, by rw [List.getElem?_toArray, hslot]⟩

/-- Rows can be reserved unless they are longer than any buffer. -/
theorem exists_reserve {plans : List Plan} {length : Nat}
    (h : length * sampleBytes ≤ largestBuffer) : ∃ rows, reserve plans length = .ok rows := by
  have hreserve : ∀ n ≤ length,
      Storage.workerRow.reserve n = .ok (Array.replicate n Sample.zero) := by
    intro n hn
    have hle : n * sampleBytes ≤ length * sampleBytes := Nat.mul_le_mul_right _ hn
    rw [Storage.reserve, if_pos (by omega)]
  have hchannel : ∀ plan ∈ plans, reserveChannel length plan = .ok
      (if plan.inUse then some ⟨Array.replicate length Sample.zero,
        Array.replicate (if plan.changed then length else 0) Sample.zero⟩ else none) := by
    intro plan _
    unfold reserveChannel
    split
    · rw [hreserve length le_rfl, hreserve _ (by split <;> omega)]
      rfl
    · rfl
  exact ⟨_, by rw [reserve, mapM_eq_ok hchannel]; rfl⟩

/-- Rows that cannot be reserved are reported as such. -/
theorem of_reserve_eq_error {plans : List Plan} {length : Nat} {e : Fault}
    (h : reserve plans length = .error e) : ∃ bytes, e = .outOfMemory .workerRow bytes := by
  have hreserve : ∀ n, Storage.workerRow.reserve n = .error e →
      ∃ bytes, e = .outOfMemory .workerRow bytes := by
    intro n hn
    unfold Storage.reserve at hn
    split_ifs at hn
    cases hn
    exact ⟨_, rfl⟩
  rcases bind_eq_error_iff.1 h with h | ⟨_, -, h⟩
  · obtain ⟨plan, -, h⟩ := of_mapM_eq_error h
    unfold reserveChannel at h
    by_cases huse : plan.inUse
    · rw [if_pos huse] at h
      rcases bind_eq_error_iff.1 h with h | ⟨_, -, h⟩
      · exact hreserve _ h
      · rcases bind_eq_error_iff.1 h with h | ⟨_, -, h⟩
        · exact hreserve _ h
        · cases h
    · rw [if_neg huse] at h
      cases h
  · cases h

end Workspace

namespace Pipeline

variable {p : Pipeline} {input : List Plane} {n : Nat}

/-- A channel that a stage changes takes two rows of a worker. -/
theorem two_le_rowCount {plan : Plan} (hmem : plan ∈ p.plans) (used : plan.inUse)
    (changed : plan.changed) : 2 ≤ p.rowCount := by
  have hcounts : ∀ counts : List Nat, 2 ∈ counts → 2 ≤ counts.foldr (· + ·) 0 := by
    intro counts htwo
    induction counts with
    | nil => cases htwo
    | cons count rest ih =>
      rw [List.foldr_cons]
      rcases List.mem_cons.1 htwo with rfl | hrest
      · exact Nat.le_add_right _ _
      · exact Nat.le_trans (ih hrest) (Nat.le_add_left _ _)
  apply hcounts
  exact List.mem_map.2 ⟨plan, List.mem_filter.2 ⟨hmem, used⟩, if_pos changed⟩

/-- Every filter changes the first channel, so with any filter at all a worker has two rows. -/
theorem Planned.two_le_rowCount (h : p.Planned) (hfilters : 0 < p.filters.length) :
    2 ≤ p.rowCount := by
  obtain ⟨f, hf⟩ : ∃ f, p.filters[0]? = some f := ⟨_, List.getElem?_eq_getElem hfilters⟩
  have hchanges : (p.modeAt 0 0).changes := by
    rw [h.modeAt_eq (stages_of_filter hf) h.channels_pos]
    cases f <;> rfl
  obtain ⟨first, hfirst, -⟩ := h.scheduled.exists_first h.channels_pos (reads_of_changes hchanges)
  have hlt : 0 < p.plans.length := by
    rw [h.plans_eq, planChannels, List.length_map, List.length_range]
    exact h.channels_pos
  have hmem : p.planAt 0 ∈ p.plans := by
    rw [planAt, List.getElem?_eq_getElem hlt]
    exact List.getElem_mem hlt
  exact Pipeline.two_le_rowCount hmem (by simp [Plan.inUse, hfirst])
    (h.scheduled.changed_of_changes h.channels_pos hchanges)

/-- Rows that memory is permitted for are no longer than any buffer: either they have no border, or
there are two of them. -/
theorem Planned.rowLength_le (h : p.Planned) (hwidth : p.width < sideBound)
    (hmemory : p.rowCount * p.rowLength * sampleBytes < Size.bound) :
    p.rowLength * sampleBytes ≤ largestBuffer := by
  have hside : sideBound = 2 ^ 32 := by decide
  have hbound : Size.bound = 2 ^ 64 := by decide
  have hbuffer : largestBuffer = 2 ^ 63 - 1 := by decide
  simp only [show sampleBytes = 4 from rfl] at hmemory ⊢
  rcases Nat.eq_zero_or_pos p.filters.length with hnone | hsome
  · have hpad : p.paddingAt 0 = 0 := h.paddingAt_of_ge (by omega)
    have hle : p.rowLength ≤ p.width := by
      unfold rowLength
      omega
    omega
  · have hle : 2 * p.rowLength ≤ p.rowCount * p.rowLength :=
      Nat.mul_le_mul_right _ (h.two_le_rowCount hsome)
    omega

theorem exists_reserve_of_checkRun (h : p.Planned)
    (hasRow : ∀ plane ∈ input, ∀ y < plane.height, plane.hasRow y)
    (hcheck : p.checkRun input n = .ok ()) :
    ∃ rows, Workspace.reserve p.plans p.rowLength = .ok rows := by
  obtain ⟨-, -, -, bytes, hmemory, -⟩ := checkRun_eq_ok_iff.1 hcheck
  exact Workspace.exists_reserve (h.rowLength_le
    ((fed_of_checkRun hcheck hasRow).sides_lt h).1 (rowMemory_eq_ok_iff.1 hmemory).2.1)

end Pipeline

/-! ## Getting the sink ready -/

namespace StreamSink

variable {s t : StreamSink} {n : Nat} {granted : Nat → Bool}

theorem close_eq (s : StreamSink) : s.close = { s with isOpen := false, log := s.close.log } := by
  obtain ⟨options, consumer, _ | _, buffers, log⟩ := s <;> rfl

@[simp] theorem log_release (s : StreamSink) : s.release.log = s.close.log := rfl

@[simp] theorem shortage_true (requests : List Nat) : shortage (fun _ ↦ true) requests = none := by
  simp [shortage]

/-- Getting ready under scarce memory: the consumer will not start, or it starts and memory for the
buffers runs out, or all is there. -/
theorem prepareWithin_cases (s : StreamSink) (granted : Nat → Bool) (n : Nat) :
    (∃ reason, s.consumer.refusal s.close.log n = some reason ∧
      s.prepareWithin granted n = .faulted
        { s with isOpen := false, log := s.close.log.push (.opened n runLimit (some reason)) }
        (.consumerRefused reason)) ∨
    s.consumer.refusal s.close.log n = none ∧
      let opened := { s with isOpen := true, log := s.close.log.push (.opened n runLimit none) }
      let short :=
        shortage granted (List.replicate n (Staging.requests s.options.format)).flatten
      (∃ bytes, short = some bytes ∧
          s.prepareWithin granted n = .faulted opened (.outOfMemory .staging bytes)) ∨
        short = none ∧ s.prepareWithin granted n = .done
          { opened with buffers := Array.replicate n (Staging.forFormat s.options.format) } := by
  have hclose := s.close_eq
  unfold prepareWithin
  rw [hclose]
  dsimp only
  cases hrefusal : s.consumer.refusal s.close.log n with
  | some reason => exact .inl ⟨reason, rfl, rfl⟩
  | none =>
    refine .inr ⟨rfl, ?_⟩
    dsimp only
    cases hshort : shortage granted
        (List.replicate n (Staging.requests s.options.format)).flatten with
    | some bytes => exact .inl ⟨bytes, rfl, rfl⟩
    | none => exact .inr ⟨rfl, rfl⟩

/-- A consumer that is asked to start for `n` workers. -/
theorem prepare_of_none (h : s.consumer.refusal s.close.log n = none) :
    s.prepare n = .done { s with
      isOpen := true
      buffers := Array.replicate n (Staging.forFormat s.options.format)
      log := s.close.log.push (.opened n runLimit none) } := by
  rcases s.prepareWithin_cases (fun _ ↦ true) n with
    ⟨reason, hrefused, -⟩ | ⟨-, ⟨bytes, hshort, -⟩ | ⟨-, hready⟩⟩
  · rw [h] at hrefused
    cases hrefused
  · rw [shortage_true] at hshort
    cases hshort
  · exact hready

/-- A consumer that will not start. -/
theorem prepare_of_refusal {reason : String}
    (h : s.consumer.refusal s.close.log n = some reason) :
    s.prepare n = .faulted
      { s with isOpen := false, log := s.close.log.push (.opened n runLimit (some reason)) }
      (.consumerRefused reason) := by
  rcases s.prepareWithin_cases (fun _ ↦ true) n with ⟨other, hother, hrefused⟩ | ⟨hnone, -⟩
  · obtain rfl : other = reason := Option.some.inj (hother.symm.trans h)
    exact hrefused
  · rw [h] at hnone
    cases hnone

/-- A sink that got ready is open, with room for its workers' runs. -/
theorem opened_of_prepareWithin (h : s.prepareWithin granted n = .done t) :
    t.options = s.options ∧ t.Opened n := by
  rcases s.prepareWithin_cases granted n with
    ⟨reason, -, hrefused⟩ | ⟨-, ⟨bytes, -, hshort⟩ | ⟨-, hready⟩⟩
  · exact absurd (hrefused.symm.trans h) (Outcome.faulted_ne_done _ _ _)
  · exact absurd (hshort.symm.trans h) (Outcome.faulted_ne_done _ _ _)
  · rw [hready] at h
    cases h
    refine ⟨rfl, rfl, Array.size_replicate, fun staging hmem ↦ ?_⟩
    rw [Array.eq_of_mem_replicate hmem]
    exact hasRoom_forFormat s.options

end StreamSink

/-- Getting a sink ready fails only where its consumer will not start. -/
theorem Sink.of_prepare_failure {s : Sink} {n : Nat} {e : Failure}
    (h : (s.prepare n).failure = some e) : ∃ reason, e = .fault (.consumerRefused reason) := by
  cases s with
  | stream s =>
    rw [prepare] at h
    cases hrefusal : s.consumer.refusal s.close.log n with
    | some reason =>
      rw [StreamSink.prepare_of_refusal hrefusal] at h
      exact ⟨reason, (Option.some.inj h).symm⟩
    | none =>
      rw [StreamSink.prepare_of_none hrefusal] at h
      cases h
  | _ => cases h

theorem Sink.prepare_of_ne_stream {s : Sink} (h : s.kind ≠ .stream) (n : Nat) :
    s.prepare n = .done s := by
  cases s with
  | stream s => exact absurd rfl h
  | _ => rfl

theorem Sink.release_of_ne_stream {s : Sink} (h : s.kind ≠ .stream) : s.release = s := by
  cases s with
  | stream s => exact absurd rfl h
  | _ => rfl

/-- A sink that was bound to a frame fits it, unless it has a consumer still to be opened. -/
theorem Blueprint.Yields.fits {b : Blueprint} {p : Pipeline} {sink : Sink} (h : b.Yields p sink)
    (hkind : p.sink.kind ≠ .stream) (n : Nat) : p.sink.Fits p.width p.channels n := by
  have hbind := h.bind_eq
  rw [h.sizes_eq] at hbind
  cases sink with
  | stream s =>
    have hsink : Sink.stream s = p.sink := congrArg Outcome.state hbind
    rw [← hsink] at hkind
    exact absurd rfl hkind
  | packed s =>
    obtain ⟨t, ht, hsink⟩ := Outcome.map_eq_done_iff.1 hbind
    have hhead : ((List.replicate p.channels p.size).head?.map Prod.fst).getD 0 = p.width := by
      obtain ⟨n, hn⟩ := Nat.exists_eq_succ_of_ne_zero (Nat.ne_of_gt h.planned.channels_pos)
      rw [hn, List.replicate_succ]
      rfl
    unfold PackedSink.bind at ht
    rw [hhead] at ht
    split at ht
    case h_1 hcheck =>
      cases ht
      rw [← hsink]
      exact hcheck
    case h_2 => exact absurd ht (Outcome.faulted_ne_done _ _ _)
  | frame s =>
    obtain ⟨t, ht, hsink⟩ := Outcome.map_eq_done_iff.1 hbind
    rw [← hsink]
    exact FrameSink.bound_of_bind ht
  | planar s =>
    obtain ⟨t, ht, hsink⟩ := Outcome.map_eq_done_iff.1 hbind
    rw [← hsink]
    exact PlanarSink.bound_of_bind ht

/-- A sink that was bound when the pipeline was built is ready once it was prepared. -/
theorem Blueprint.Yields.ready_of_prepare {b : Blueprint} {p : Pipeline} {sink t : Sink} {n : Nat}
    (h : b.Yields p sink) (hprepare : p.sink.prepare n = .done t) : t.Ready p n := by
  have hneeds : p.sink.channelsNeeded ≤ p.channels :=
    h.planned.needs_le (.sink p.sink) (by simp [Pipeline.stages])
  by_cases hkind : p.sink.kind = .stream
  · obtain ⟨s, hsink⟩ := Sink.exists_of_kind_stream hkind
    rw [hsink] at hprepare hneeds
    obtain ⟨t, ht, rfl⟩ := Outcome.map_eq_done_iff.1 hprepare
    obtain ⟨hoptions, hopened⟩ := StreamSink.opened_of_prepareWithin ht
    exact ⟨by rw [hsink, Sink.mode, Sink.mode, hoptions],
      by rwa [Sink.channelsNeeded, hoptions], hopened⟩
  · rw [Sink.prepare_of_ne_stream hkind] at hprepare
    cases hprepare
    exact ⟨rfl, hneeds, h.fits hkind n⟩

/-! ## Steps that keep a run going -/

namespace Pipeline

/-- Workers with rows of the right lengths, and a sink that takes what they hand over. -/
structure Sound (p : Pipeline) (n : Nat) (s : Progress) : Prop where
  /-- All workers are there. -/
  workers_size : s.workers.size = n
  /-- Each has its rows. -/
  shaped : ∀ (worker : Nat) (rows : Workspace), s.workers[worker]? = some rows → p.Shaped rows
  /-- The sink is ready. -/
  ready : s.sink.Ready p n

variable {p : Pipeline} {input : List Plane} {n : Nat}

theorem sound_replicate {rows : Workspace} {sink : Sink} (hrows : p.Shaped rows)
    (hsink : sink.Ready p n) : p.Sound n ⟨Array.replicate n rows, sink⟩ := by
  refine ⟨Array.size_replicate, fun worker other hother ↦ ?_, hsink⟩
  have hmem := Array.mem_of_getElem? hother
  rwa [Array.eq_of_mem_replicate hmem]

theorem Sound.set {s : Progress} {worker : Nat} {after : Workspace} {sink : Sink}
    (hs : p.Sound n s) (hafter : p.Shaped after) (hsink : sink.Ready p n) :
    p.Sound n ⟨s.workers.setIfInBounds worker after, sink⟩ := by
  refine ⟨by simpa using hs.workers_size, fun other rows hrows ↦ ?_, hsink⟩
  dsimp only at hrows
  rw [Array.getElem?_setIfInBounds] at hrows
  split_ifs at hrows
  · cases hrows
    exact hafter
  · exact hs.shaped other rows hrows

/-- No step of a known worker is misused, whatever was done before. -/
theorem perform_keeps (h : p.Planned) (hlength : p.rowLength < Size.bound) (hinput : p.Fed input)
    {worker : Nat} (hworker : worker < n) {step : Step} (hstep : p.InFrame step) {s : Progress}
    (hs : p.Sound n s) :
    (p.perform input worker step s).Keeps (p.Sound n) Failure.IsGivingUp := by
  have hknown : worker < s.workers.size := by rw [hs.workers_size]; exact hworker
  have hrows : s.workers[worker]? = some s.workers[worker] := Array.getElem?_eq_getElem hknown
  have hshaped := hs.shaped worker _ hrows
  have hclear := obstacle_of_fed h.scheduled hlength hinput hstep
  rcases Nat.lt_or_ge step.stage p.filters.length with hstage | hstage
  · obtain ⟨after, hafter, hperform⟩ :=
      perform_filter h hinput.planes hclear hstep hstage hrows hshaped
    rw [hperform]
    exact Outcome.keeps_done (hs.set hafter.shaped hs.ready)
  · have hlast : step.stage = p.filters.length := Nat.le_antisymm hstep.stage_le hstage
    obtain ⟨after, strip, hafter, -, hperform⟩ :=
      perform_sink h hinput.planes hclear hstep hlast hrows hshaped
    have hwidth : p.width < Size.bound :=
      Nat.lt_trans (hinput.sides_lt h).1 (by decide)
    rw [hperform]
    exact (hs.ready.receive_keeps h hwidth hstep hlast strip hworker).map fun sink hsink ↦
      hs.set hafter.shaped hsink

end Pipeline

end Scanline
