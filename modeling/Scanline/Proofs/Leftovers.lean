import Scanline.Proofs.Calls

/-!
# What a worker left behind

A worker's rows and the buffers in which a stream sink codes its runs are used over and over.
`Pipeline.Alike` relates two states of a run that differ in nothing but what these hold: the rows
have the lengths they were reserved with, the buffers have room for a full run, and the sinks are
the same otherwise, down to the log of all exchanges with the consumer.

Work keeps states alike, whatever the planes hold and whether or not it fails: workers with any rows
hand the sink the reference (`Pipeline.perform_matches`), and of that it makes the same calls in any
buffers (`StreamSink.receive_matches`).  Main statement: a row, a tile, and tiles one after another
come out the same from any two such states, even if everything that a worker left behind is replaced
by anything else before each tile (`Pipeline.leftovers_unseen`).
-/

namespace Scanline

/-! ## Buffers of a sink -/

/-- Two sinks that differ in nothing but what the buffers of their workers hold.  They are open with
buffers for the same number of workers, each with room for a full run, or not open at all. -/
structure StreamSink.Alike (s t : StreamSink) : Prop where
  /-- What is handed over, and how, is the same. -/
  options_eq : t.options = s.options
  /-- So is who takes it. -/
  consumer_eq : t.consumer = s.consumer
  /-- So are all exchanges so far. -/
  log_eq : t.log = s.log
  /-- Buffers have room, if the consumer is open. -/
  opened : s.isOpen = false ∧ t.isOpen = false ∨ ∃ n, s.Opened n ∧ t.Opened n

/-- Two sinks that differ in nothing but what the buffers of their workers hold.  Only a stream sink
has any. -/
def Sink.Alike : Sink → Sink → Prop
  | .stream s, .stream t => s.Alike t
  | s, t => s = t

namespace StreamSink

variable {s t : StreamSink}

/-- A sink that is alike to another is that one with buffers of its own. -/
theorem Alike.exists_buffers (h : s.Alike t) : ∃ buffers, t = { s with buffers } := by
  have hopen : t.isOpen = s.isOpen := by
    rcases h.opened with ⟨hs, ht⟩ | ⟨n, hs, ht⟩
    · rw [hs, ht]
    · rw [hs.isOpen, ht.isOpen]
  obtain ⟨options, consumer, isOpen, buffers, log⟩ := t
  obtain ⟨rfl, rfl, rfl, -⟩ := h
  obtain rfl : isOpen = s.isOpen := hopen
  exact ⟨buffers, rfl⟩

/-- Sinks that are open for the same workers, and differ in their buffers alone. -/
structure OpenAlike (n : Nat) (s t : StreamSink) : Prop where
  /-- One is open for the workers. -/
  left : s.Opened n
  /-- So is the other. -/
  right : t.Opened n
  /-- It differs in its buffers alone. -/
  exists_buffers : ∃ buffers, t = { s with buffers }

theorem OpenAlike.alike {n : Nat} (h : OpenAlike n s t) : s.Alike t := by
  obtain ⟨hs, ht, buffers, rfl⟩ := h
  exact ⟨rfl, rfl, rfl, .inr ⟨n, hs, ht⟩⟩

theorem each_offer_matches {n : Nat} (h : OpenAlike n s t) (calls : List Call) :
    (Outcome.each offer calls s).Matches (OpenAlike n) (Outcome.each offer calls t) := by
  obtain ⟨hs, ht, buffers, rfl⟩ := h
  obtain ⟨log, hlog⟩ := state_each_offer calls s
  rw [each_offer_buffers calls s buffers]
  refine ⟨rfl, ?_⟩
  -- offering changes the log alone, on which it does not depend whether a sink is open
  rw [Outcome.state_map, hlog]
  exact ⟨hs.with_log log, ht.with_log log, buffers, rfl⟩

theorem handOver_matches {n : Nat} (h : OpenAlike n s t) {segment : Segment}
    (hworker : segment.worker < n) {batch : Batch} (hlength : batch.length ≤ runLimit)
    (b : StreamOptions.Bands) (pad : Nat) :
    (s.handOver b pad segment batch).Matches (OpenAlike n) (t.handOver b pad segment batch) := by
  obtain ⟨hs, ht, buffers, rfl⟩ := id h
  obtain ⟨first, hfirst, hover⟩ := handOver_of_opened hs hworker hlength b pad
  obtain ⟨second, hsecond, hover'⟩ := handOver_of_opened ht hworker hlength b pad
  rw [hover, hover']
  cases StreamOptions.offsetOf pad batch.start segment with
  | error misuse => exact Outcome.matches_failed h _
  | ok offset =>
    dsimp only
    split_ifs
    · exact each_offer_matches ⟨hfirst, hsecond, second, rfl⟩ _
    · exact Outcome.matches_failed h _

/-- A segment is handed over with the same calls in any buffers. -/
theorem receive_matches (h : s.Alike t) (input : Rows) (segment : Segment) :
    (s.receive input segment).Matches Alike (t.receive input segment) := by
  obtain ⟨buffers, rfl⟩ := h.exists_buffers
  rcases h.opened with ⟨hs, ht⟩ | ⟨n, hs, ht⟩
  · rw [receive_of_closed hs, receive_of_closed ht]
    exact Outcome.matches_failed h _
  · have hsize : buffers.size = n := ht.size_buffers
    simp only [receive, count_handOver_eq_each]
    rw [if_pos hs.isOpen, if_pos hs.isOpen, hs.size_buffers, hsize]
    split_ifs with hrow hworker
    · exact Outcome.matches_done h
    · exact Outcome.matches_failed h _
    · cases s.options.bands input with
      | error misuse => exact Outcome.matches_failed h _
      | ok b =>
        dsimp only
        cases s.options.columns segment with
        | error misuse => exact Outcome.matches_failed h _
        | ok columns =>
          have hruns : (Outcome.each (handOver b input.pad segment)
              (batches columns.1 columns.2) s).Matches (OpenAlike n)
              (Outcome.each (handOver b input.pad segment) (batches columns.1 columns.2)
                { s with buffers }) := by
            refine Outcome.each_matches
              (I := fun _ _ rest ↦ ∀ batch ∈ rest, batch.length ≤ runLimit) ?_
              ⟨hs, ht, _, rfl⟩ fun batch hmem ↦ (bounds_of_mem_batches hmem).2.2.2
            intro batch rest s t hst hlengths
            obtain ⟨hlength, hrest⟩ := List.forall_mem_cons.1 hlengths
            exact ⟨handOver_matches hst (Nat.lt_of_not_le hworker) hlength b input.pad,
              fun _ ↦ hrest⟩
          exact ⟨hruns.failure_eq, hruns.state.alike⟩

end StreamSink

/-- A segment does the same to sinks that differ in nothing but their buffers. -/
theorem Sink.receive_matches {s t : Sink} (h : s.Alike t) (input : Rows) (segment : Segment) :
    (s.receive input segment).Matches Sink.Alike (t.receive input segment) := by
  cases s with
  | stream s =>
    cases t with
    | stream t => exact (StreamSink.receive_matches h input segment).map fun _ _ h ↦ h
    | packed t => cases h
    | frame t => cases h
    | planar t => cases h
  | packed s =>
    obtain rfl : .packed s = t := by cases t <;> exact h
    exact ⟨rfl, rfl⟩
  | frame s =>
    obtain rfl : .frame s = t := by cases t <;> exact h
    exact ⟨rfl, rfl⟩
  | planar s =>
    obtain rfl : .planar s = t := by cases t <;> exact h
    exact ⟨rfl, rfl⟩

/-! ## Rows of workers -/

namespace Pipeline

/-- Workers that have their rows, with the lengths these were reserved with. -/
structure Staffed (p : Pipeline) (n : Nat) (s : Progress) : Prop where
  /-- All workers are there. -/
  size_eq : s.workers.size = n
  /-- Each has its rows. -/
  shaped : ∀ (worker : Nat) (rows : Workspace), s.workers[worker]? = some rows → p.Shaped rows

/-- Two states of a run that differ in nothing but what the workers' rows and the buffers of the
sink hold.  Front and back rows of a channel that changes have the same length, so they may also
have changed places. -/
structure Alike (p : Pipeline) (n : Nat) (s t : Progress) : Prop where
  /-- In one state the workers have their rows. -/
  left : p.Staffed n s
  /-- So they have in the other. -/
  right : p.Staffed n t
  /-- The sinks differ in their buffers alone. -/
  sink : s.sink.Alike t.sink

variable {p : Pipeline} {input : List Plane} {n worker : Nat} {s t : Progress}

theorem Staffed.exists_rows (hs : p.Staffed n s) (hworker : worker < n) :
    ∃ rows, s.workers[worker]? = some rows ∧ p.Shaped rows := by
  have hlt : worker < s.workers.size := by rw [hs.size_eq]; exact hworker
  exact ⟨_, Array.getElem?_eq_getElem hlt, hs.shaped _ _ (Array.getElem?_eq_getElem hlt)⟩

theorem Staffed.set (hs : p.Staffed n s) {after : Workspace} (hafter : p.Shaped after)
    (sink : Sink) : p.Staffed n ⟨s.workers.setIfInBounds worker after, sink⟩ := by
  refine ⟨by simpa using hs.size_eq, fun other rows hrows ↦ ?_⟩
  dsimp only at hrows
  rw [Array.getElem?_setIfInBounds] at hrows
  split_ifs at hrows
  · cases hrows
    exact hafter
  · exact hs.shaped other rows hrows

/-- A worker whose rows are ready for the steps that it has still to make. -/
def Awaits (p : Pipeline) (input : List Plane) (worker : Nat) (s : Progress) (steps : List Step) :
    Prop :=
  ∃ rows, s.workers[worker]? = some rows ∧ p.Poised input rows steps

theorem Staffed.awaits (hs : p.Staffed n s) (hworker : worker < n) {steps : List Step}
    (hframe : ∀ step ∈ steps, p.InFrame step) (horderly : Orderly steps) :
    p.Awaits input worker s steps := by
  obtain ⟨rows, hrows, hshaped⟩ := hs.exists_rows hworker
  exact ⟨rows, hrows, poised_of_orderly hshaped hframe horderly⟩

/-- A step does the same to states that are alike, and leaves the worker awaiting its next one. -/
theorem perform_matches (h : p.Planned) (planes : p.channels ≤ input.length)
    {step : Step} {rest : List Step} (hst : p.Alike n s t)
    (hs : p.Awaits input worker s (step :: rest)) (ht : p.Awaits input worker t (step :: rest)) :
    (p.perform input worker step s).Matches (p.Alike n) (p.perform input worker step t) ∧
      ((p.perform input worker step s).failure = none →
        p.Awaits input worker (p.perform input worker step s).state rest ∧
          p.Awaits input worker (p.perform input worker step t).state rest) := by
  obtain ⟨rows, hrows, hpoised⟩ := hs
  obtain ⟨other, hother, hpoised'⟩ := ht
  have hframe := hpoised.inFrame step (by simp)
  cases hmet : p.obstacle input step with
  | some misuse =>
    rw [perform_of_obstacle h.scheduled hmet hframe.length_le hrows hpoised.shaped,
      perform_of_obstacle h.scheduled hmet hframe.length_le hother hpoised'.shaped]
    exact ⟨Outcome.matches_failed hst _, fun hnone ↦ by cases hnone⟩
  | none =>
    obtain ⟨after, hafter, hperform⟩ := hpoised.perform_eq h planes hmet hrows
    obtain ⟨after', hafter', hperform'⟩ := hpoised'.perform_eq h planes hmet hother
    have hlt : worker < s.workers.size := (Array.getElem?_eq_some_iff.1 hrows).1
    have hlt' : worker < t.workers.size := (Array.getElem?_eq_some_iff.1 hother).1
    have hset : ∀ sink sink', Sink.Alike sink sink' → p.Alike n
        ⟨s.workers.setIfInBounds worker after, sink⟩
        ⟨t.workers.setIfInBounds worker after', sink'⟩ := fun sink sink' hsink ↦
      ⟨hst.left.set hafter.shaped sink, hst.right.set hafter'.shaped sink', hsink⟩
    have hawaits : ∀ sink sink', p.Awaits input worker
          ⟨s.workers.setIfInBounds worker after, sink⟩ rest ∧
        p.Awaits input worker ⟨t.workers.setIfInBounds worker after', sink'⟩ rest :=
      fun sink sink' ↦ ⟨⟨after, Array.getElem?_setIfInBounds_self_of_lt hlt, hafter⟩,
        after', Array.getElem?_setIfInBounds_self_of_lt hlt', hafter'⟩
    rw [hperform, hperform']
    split_ifs
    · exact ⟨(Sink.receive_matches hst.sink _ _).map hset, fun _ ↦ hawaits _ _⟩
    · exact ⟨Outcome.matches_done (hset _ _ hst.sink), fun _ ↦ hawaits _ _⟩

/-- Orderly steps do the same to states that are alike. -/
theorem each_perform_matches (h : p.Planned) (planes : p.channels ≤ input.length)
    (hst : p.Alike n s t) (hworker : worker < n) {steps : List Step}
    (hframe : ∀ step ∈ steps, p.InFrame step) (horderly : Orderly steps) :
    (Outcome.each (p.perform input worker) steps s).Matches (p.Alike n)
      (Outcome.each (p.perform input worker) steps t) := by
  refine Outcome.each_matches
    (I := fun s t rest ↦ p.Awaits input worker s rest ∧ p.Awaits input worker t rest) ?_ hst
    ⟨hst.left.awaits hworker hframe horderly, hst.right.awaits hworker hframe horderly⟩
  rintro step rest s t hst ⟨hs, ht⟩
  exact perform_matches h planes hst hs ht

theorem processTile_matches (h : p.Planned) (planes : p.channels ≤ input.length)
    (hst : p.Alike n s t) (tile worker : Nat) :
    (p.processTile input tile worker s).Matches (p.Alike n)
      (p.processTile input tile worker t) := by
  by_cases hworker : worker < n
  · rcases Nat.lt_or_ge (p.tileTop tile + p.tileSide) Size.bound with hfits | hlarge
    · rw [processTile_eq_each p input (by rw [hst.left.size_eq]; exact hworker) hfits,
        processTile_eq_each p input (by rw [hst.right.size_eq]; exact hworker) hfits]
      exact each_perform_matches h planes hst hworker (fun _ ↦ inFrame_of_mem_steps h)
        (orderly_steps p tile)
    · simp only [processTile, hst.left.size_eq, hst.right.size_eq, if_pos hworker,
        Size.ofNat_of_le hlarge]
      exact Outcome.matches_failed hst _
  · simp only [processTile, hst.left.size_eq, hst.right.size_eq, if_neg hworker]
    exact Outcome.matches_failed hst _

theorem processRow_matches (h : p.Planned) (planes : p.channels ≤ input.length)
    (hst : p.Alike n s t) (hworker : worker < n) {tile row : Nat} (hge : p.tileTop tile ≤ row)
    (hlt : row < p.tileTop tile + p.tileRows tile) :
    (p.processRow input tile worker row s).Matches (p.Alike n)
      (p.processRow input tile worker row t) := by
  refine each_perform_matches h planes hst hworker (fun step hstep ↦ ?_)
    (orderly_rowSteps p tile row)
  have hmem : step ∈ p.steps tile :=
    List.mem_flatMap.2 ⟨row, List.mem_range'_1.2 ⟨hge, hlt⟩, hstep⟩
  exact inFrame_of_mem_steps h hmem

/-- Nothing that a worker left behind is ever seen.  From states that differ in nothing but what the
workers' rows and the sink's buffers hold, a tile ends with the same result, after the same
exchanges with a consumer and the same changes to anything else, and leaves such states behind.  So
does every row of it, and so do tiles one after another, even if whatever the workers left behind is
spoiled before each of them.  The input has a plane for every channel, as running checks first. -/
theorem leftovers_unseen {b : Blueprint} (h : b.build.pipeline = .ok p)
    (planes : p.channels ≤ input.length) (n : Nat) :
    (∀ tile worker s t, p.Alike n s t →
      (p.processTile input tile worker s).Matches (p.Alike n)
        (p.processTile input tile worker t)) ∧
    (∀ tile row worker s t, p.tileTop tile ≤ row → row < p.tileTop tile + p.tileRows tile →
      worker < n → p.Alike n s t →
      (p.processRow input tile worker row s).Matches (p.Alike n)
        (p.processRow input tile worker row t)) ∧
    ∀ spoil : Visit → Progress → Progress,
      (∀ visit s t, p.Alike n s t → p.Alike n s (spoil visit t)) →
      ∀ visits s t, p.Alike n s t →
      (Outcome.each (Runner.attend (p.processTile input)) visits s).Matches (p.Alike n)
        (Outcome.each (fun visit t ↦ Runner.attend (p.processTile input) visit (spoil visit t))
          visits t) := by
  obtain ⟨bound, hyields⟩ := Blueprint.exists_yields h
  have hplanned := hyields.planned
  refine ⟨fun tile worker s t hst ↦ processTile_matches hplanned planes hst tile worker,
    fun tile row worker s t hge hlt hworker hst ↦
      processRow_matches hplanned planes hst hworker hge hlt, ?_⟩
  intro spoil hspoil visits s t hst
  refine Outcome.each_matches (I := fun _ _ _ ↦ True) ?_ hst trivial
  intro visit _ s t hst _
  exact ⟨processTile_matches hplanned planes (hspoil visit s t hst) visit.index visit.worker,
    fun _ ↦ trivial⟩

/-- The tiles of two rows that are smoothed and handed over with reversed bytes: by a worker whose
rows and buffers are new, and by one who finds other samples and other bytes in them, before the
first tile and then again before each. -/
theorem leftovers_unseen_reversed :
    let sink : StreamSink := ⟨{ width := 3, height := 2, format := ⟨.rgb, .single, .big⟩ },
      .willing, false, #[], #[]⟩
    let b : Blueprint :=
      ⟨List.replicate 3 (3, 2), [.filter (.smooth .standard), .sink (.stream sink)], 2, {}⟩
    let input : List Plane :=
      List.replicate 3 ⟨3, 2, 3, Array.replicate 6 .one, by decide, by decide⟩
    let holding (front back : Sample) : Array Workspace :=
      #[Array.replicate 3 (some ⟨Array.replicate 4 front, Array.replicate 4 back⟩)]
    let new : Progress :=
      ⟨holding .zero .zero,
        .stream { sink with isOpen := true, buffers := #[.forFormat sink.options.format] }⟩
    let used : Progress :=
      ⟨holding .one .two,
        .stream { sink with
          isOpen := true, buffers := #[⟨Array.replicate 3072 ⟨0x0000803f⟩, #[7], #[1, 2]⟩] }⟩
    ∃ p, b.build.pipeline = .ok p ∧
      (p.processTile input 1 0 new).Matches (p.Alike 1) (p.processTile input 1 0 used) ∧
      (Outcome.each (Runner.attend (p.processTile input)) [⟨0, 0⟩, ⟨1, 0⟩] new).Matches (p.Alike 1)
        (Outcome.each (fun visit t ↦ Runner.attend (p.processTile input) visit
          { t with workers := holding .two .one }) [⟨0, 0⟩, ⟨1, 0⟩] used) := by
  intro sink b input holding new used
  have hstaffed : ∀ p, b.build.pipeline = .ok p → ∀ front back sink,
      p.Staffed 1 ⟨holding front back, sink⟩ := by
    intro p h front back sink
    cases h
    refine ⟨rfl, fun worker rows hrows ↦ ?_⟩
    obtain ⟨hlt, rfl⟩ := Array.getElem?_eq_some_iff.1 hrows
    obtain rfl : worker = 0 := Nat.lt_one_iff.1 hlt
    let pair : RowPair := ⟨Array.replicate 4 front, Array.replicate 4 back⟩
    have hslot : ∀ (c : Nat) (ch : RowPair),
        (Array.replicate 3 (some pair))[c]? = some (some ch) → ch = pair := fun c ch hch ↦
      Option.some.inj (Array.eq_of_mem_replicate (Array.mem_of_getElem? hch))
    refine ⟨Array.size_replicate, fun c huse ↦ ?_, fun c ch hch ↦ ?_, fun c ch hch _ ↦ ?_⟩
    · rcases c with _ | _ | _ | c
      · exact ⟨_, rfl⟩
      · exact ⟨_, rfl⟩
      · exact ⟨_, rfl⟩
      · cases huse
    · rw [hslot c ch hch]
      exact Array.size_replicate
    · rw [hslot c ch hch]
      exact Array.size_replicate
  have halike : ∀ p, b.build.pipeline = .ok p → p.Alike 1 new used := by
    intro p h
    refine ⟨hstaffed p h _ _ _, hstaffed p h _ _ _, rfl, rfl, rfl,
      .inr ⟨1, ⟨rfl, rfl, ?_⟩, ⟨rfl, rfl, ?_⟩⟩⟩
    · intro staging hmem
      obtain rfl := List.mem_singleton.1 (Array.mem_def.1 hmem)
      exact StreamSink.hasRoom_forFormat _
    · intro staging hmem
      obtain rfl := List.mem_singleton.1 (Array.mem_def.1 hmem)
      simp [StreamOptions.hasRoom, runLimit, PixelFormat.channels, Layout.channels, sink]
  have hspoil : ∀ p, b.build.pipeline = .ok p → ∀ (visit : Visit) (s t : Progress), p.Alike 1 s t →
      p.Alike 1 s { t with workers := holding .two .one } := fun p h _ s t hst ↦
    ⟨hst.left, hstaffed p h _ _ _, hst.sink⟩
  obtain ⟨htile, -, htiles⟩ :=
    leftovers_unseen (b := b) rfl (show 3 ≤ input.length by decide) 1
  exact ⟨_, rfl, htile 1 0 new used (halike _ rfl),
    htiles _ (hspoil _ rfl) [⟨0, 0⟩, ⟨1, 0⟩] new used (halike _ rfl)⟩

end Pipeline

end Scanline
