import Scanline.Proofs.Worker

/-!
# One step of a worker

Where a worker owns rows of the right lengths, it is the planes and the step alone that say whether
the step is misused (`obstacle`), never what the rows hold.  Otherwise the filter of the stage, or
the sink, is handed runs of a strip (`perform_filter`, `perform_sink`).  If the rows show what the
stage is to see, that strip is the reference, and the rows show the next stage what it is to see.
So the sink's part of a step does not depend on the worker's rows, on the worker, or on what other
workers do.
-/

namespace Scanline

/-- Whatever a filter reads is among the channels that it needs. -/
theorem Filter.lt_channelsNeeded {f : Filter} {c : Nat} (h : (f.mode c).reads) :
    c < f.channelsNeeded := by
  cases f with
  | premultiply f =>
    have hle := f.le_alpha
    simp only [Filter.mode, Premultiply.mode] at h
    simp only [Filter.channelsNeeded, Premultiply.channelsNeeded]
    split_ifs at h
    · omega
    · omega
    · simp [Mode.reads] at h
  | smooth f =>
    simp only [Filter.mode, Smooth.mode] at h
    simp only [Filter.channelsNeeded]
    split_ifs at h
    · omega
    · simp [Mode.reads] at h

namespace Pipeline

variable {p : Pipeline} {borders : List Nat} {input : List Plane} {step : Step} {rows : Workspace}

/-! ## Rows that are read -/

theorem get?_rowsOf (s : Strip) (step : Step) {c : Nat} (hc : c < p.channels) :
    (p.rowsOf s step).get? c =
      if p.deliversAt step.stage c then
        some (s.run c (step.column - p.paddingAt step.stage)
          (step.length + 2 * p.paddingAt step.stage))
      else none := by
  simp only [Rows.get?, rowsOf, Array.getElem?_ofFn, dif_pos hc]
  rfl

theorem get?_rowsRead (c : Nat) :
    (p.rowsRead step rows).get? c =
      if p.deliversAt step.stage c then
        rows[c]?.join.map fun ch ↦ p.window ch.front (p.paddingAt step.stage) step
      else none := by
  simp only [Rows.get?, rowsRead, Array.getElem?_mapIdx]
  cases rows[c]? with
  | none => simp
  | some slot => rfl

/-- The rows that a stage reads are those of a strip when channel by channel they are. -/
theorem rowsRead_eq_rowsOf {s : Strip} (hsize : rows.size = p.channels)
    (hget : ∀ c, p.deliversAt step.stage c → (p.rowsRead step rows).get? c =
      some (s.run c (step.column - p.paddingAt step.stage)
        (step.length + 2 * p.paddingAt step.stage))) :
    p.rowsRead step rows = p.rowsOf s step := by
  refine Rows.ext_get? rfl (by simp [rowsRead, rowsOf, hsize]) fun c ↦ ?_
  rcases Nat.lt_or_ge c p.channels with hc | hc
  · rw [get?_rowsOf s step hc]
    split_ifs with hdelivers
    · exact hget c hdelivers
    · rw [get?_rowsRead, if_neg hdelivers]
  · simp only [Rows.get?]
    rw [Array.getElem?_eq_none (by simp [rowsRead, hsize, hc]),
      Array.getElem?_eq_none (by simp [rowsOf, hc])]

/-- Stages get rows of the channels they use, of the length of the window. -/
theorem exists_get?_rowsRead (h : p.Scheduled borders) (hrows : p.Shaped rows)
    (hlen : step.length ≤ min p.tileSide p.width) {c : Nat} (hlt : c < p.channels)
    (hreads : (p.modeAt step.stage c).reads) :
    ∃ ch first, rows[c]? = some (some ch) ∧ (p.planAt c).first = some first ∧
      first ≤ step.stage ∧
      (p.rowsRead step rows).get? c = some (p.window ch.front (p.paddingAt step.stage) step) ∧
      (p.window ch.front (p.paddingAt step.stage) step).size =
        step.length + 2 * p.paddingAt step.stage := by
  obtain ⟨first, hfirst, hle⟩ := h.exists_first hlt hreads
  obtain ⟨ch, hch⟩ := hrows.present c (by simp [Plan.inUse, hfirst])
  refine ⟨ch, first, hch, hfirst, hle, ?_,
    size_window h hlen (hrows.front_size c ch hch) step.stage⟩
  rw [get?_rowsRead, h.deliversAt_eq hlt, if_pos hreads, hch]
  rfl

/-- A stage reads runs of a strip.  Where the rows show what is to be seen, that is the strip that
the stage sees. -/
theorem exists_rowsRead_eq (input : List Plane) (h : p.Planned) (hrows : p.Shaped rows)
    (hstep : p.InFrame step) :
    ∃ s, p.rowsRead step rows = p.rowsOf s step ∧
      (p.Shows input step step.stage (step.stage + 1) rows →
        s = p.stripAt input step.row step.stage) := by
  have hread : ∀ c, p.deliversAt step.stage c → ∃ ch first, rows[c]? = some (some ch) ∧
      (p.planAt c).first = some first ∧ first ≤ step.stage ∧
      (p.rowsRead step rows).get? c = some (p.window ch.front (p.paddingAt step.stage) step) ∧
      (p.window ch.front (p.paddingAt step.stage) step).size =
        step.length + 2 * p.paddingAt step.stage := fun c hc ↦ by
    rw [h.deliversAt_eq] at hc
    exact exists_get?_rowsRead h.scheduled hrows hstep.length_le (h.lt_channels hc) hc
  by_cases hshows : p.Shows input step step.stage (step.stage + 1) rows
  · refine ⟨_, rowsRead_eq_rowsOf hrows.size_eq fun c hc ↦ ?_, fun _ ↦ rfl⟩
    obtain ⟨ch, first, hch, hfirst, hle, hget, -⟩ := hread c hc
    rw [hget, hshows c ch first hch hfirst (by omega)]
  · obtain ⟨s, hs⟩ := (p.rowsRead step rows).exists_strip (step.column - p.paddingAt step.stage)
    refine ⟨s, rowsRead_eq_rowsOf hrows.size_eq fun c hc ↦ ?_, fun hno ↦ absurd hno hshows⟩
    obtain ⟨ch, first, -, -, -, hget, hsize⟩ := hread c hc
    have hrun := hs c _ hget
    rw [hsize] at hrun
    rw [hget, hrun]

/-! ## Rows that are written -/

/-- A stage gets a row of the right length for every channel that it changes. -/
theorem exists_get?_rowsWritten (h : p.Scheduled borders) (hrows : p.Shaped rows)
    (hlen : step.length ≤ min p.tileSide p.width) {c : Nat} (hlt : c < p.channels)
    (hc : (p.modeAt step.stage c).changes) :
    ∃ row, (p.rowsWritten step rows).get? c = some row ∧
      row.size = step.length + 2 * p.paddingAt (step.stage + 1) := by
  have hreads := reads_of_changes hc
  obtain ⟨ch, -, hch, -⟩ := exists_get?_rowsRead h hrows hlen hlt hreads
  refine ⟨p.window ch.back (p.paddingAt (step.stage + 1)) step, ?_,
    size_window h hlen (hrows.back_size c ch hch (h.changed_of_changes hlt hc)) _⟩
  simp only [Rows.get?, rowsWritten, Array.getElem?_mapIdx, hch, h.deliversAt_eq hlt, hreads, hc]
  rfl

/-- A filter that is handed runs of a strip makes runs of what it makes of the strip. -/
theorem exists_produce_eq (h : p.Planned) (hrows : p.Shaped rows) (hstep : p.InFrame step)
    {f : Filter} (hf : p.filters[step.stage]? = some f) {s : Strip}
    (hread : p.rowsRead step rows = p.rowsOf s step) {worker : Nat}
    (fits : (p.segment worker step).produced < Size.bound) :
    ∃ written,
      f.produce (p.rowsRead step rows) (p.rowsWritten step rows) (p.segment worker step) =
        .ok written ∧
      ∀ c, (p.modeAt step.stage c).changes → written.get? c =
        some ((f.onStrip s).run c (step.column - p.paddingAt (step.stage + 1))
          (step.length + 2 * p.paddingAt (step.stage + 1))) := by
  have hstage := stages_of_filter hf
  have hlen := hstep.length_le
  have hneeds : f.channelsNeeded ≤ p.channels :=
    h.needs_le (.filter f) (List.mem_of_getElem? hstage)
  have hmode : ∀ c, (f.mode c).reads → p.modeAt step.stage c = f.mode c := fun c hc ↦
    h.modeAt_eq hstage (by have := Filter.lt_channelsNeeded hc; omega)
  have hproduce : ∃ written,
      f.produce (p.rowsRead step rows) (p.rowsWritten step rows) (p.segment worker step) =
        .ok written ∧
      ∀ c, (f.mode c).changes → written.get? c =
        some ((f.onStrip s).run c (step.column - (p.segment worker step).extra)
          (p.segment worker step).produced) := by
    refine f.produce_run s fits (h.paddingAt_eq hstage) rfl (fun c hc ↦ ?_) fun c hc ↦ ?_
    · have hdelivers : p.deliversAt step.stage c := by rwa [h.deliversAt_eq, hmode c hc]
      have hlt := Filter.lt_channelsNeeded hc
      rw [hread, get?_rowsOf s step (by omega), if_pos hdelivers]
      rfl
    · have hchanges : (p.modeAt step.stage c).changes := by rwa [hmode c (reads_of_changes hc)]
      exact exists_get?_rowsWritten h.scheduled hrows hlen
        (h.lt_channels (reads_of_changes hchanges)) hchanges
  obtain ⟨written, hwritten, hget⟩ := hproduce
  refine ⟨written, hwritten, fun c hc ↦ ?_⟩
  have hc' := h.modeAt_eq hstage (h.lt_channels (reads_of_changes hc))
  exact hget c (by rw [hc'] at hc; exact hc)

/-! ## Taking over -/

theorem getElem?_takeOver (written : Rows) (c : Nat) :
    (p.takeOver step written rows)[c]? = rows[c]?.map fun slot ↦
      if (p.modeAt step.stage c).changes then
        slot.map fun ch ↦
          ⟨overwrite ch.back (p.paddingAt 0 - p.paddingAt (step.stage + 1))
            ((written.get? c).getD #[]), ch.front⟩
      else slot := by
  rw [takeOver, Array.getElem?_mapIdx]

/-- Rows that were taken over come from rows that were there: front and back changed places if the
stage changes the channel. -/
theorem exists_of_getElem?_takeOver {written : Rows} {c : Nat} {ch : RowPair}
    (hch : (p.takeOver step written rows)[c]? = some (some ch)) :
    ∃ old : RowPair, rows[c]? = some (some old) ∧
      ch = if (p.modeAt step.stage c).changes then
        ⟨overwrite old.back (p.paddingAt 0 - p.paddingAt (step.stage + 1))
          ((written.get? c).getD #[]), old.front⟩
      else old := by
  rw [getElem?_takeOver, Option.map_eq_some_iff] at hch
  obtain ⟨slot, hslot, hch⟩ := hch
  split_ifs at hch with hchanges
  · obtain ⟨old, rfl, rfl⟩ := Option.map_eq_some_iff.1 hch
    exact ⟨old, hslot, by rw [if_pos hchanges]⟩
  · subst hch
    exact ⟨ch, hslot, by rw [if_neg hchanges]⟩

theorem Shaped.takeOver (h : p.Scheduled borders) (hrows : p.Shaped rows) (written : Rows) :
    p.Shaped (p.takeOver step written rows) := by
  refine ⟨by simp [Pipeline.takeOver, hrows.size_eq], fun c hc ↦ ?_, fun c ch hch ↦ ?_,
    fun c ch hch hchanged ↦ ?_⟩
  · obtain ⟨ch, hch⟩ := hrows.present c hc
    rw [getElem?_takeOver, hch]
    simp only [Option.map_some]
    split <;> simp
  · obtain ⟨old, hold, rfl⟩ := exists_of_getElem?_takeOver hch
    split_ifs with hchanges
    · simp [hrows.back_size c old hold (h.changed_of_changes (hrows.lt_channels hold) hchanges)]
    · exact hrows.front_size c old hold
  · obtain ⟨old, hold, rfl⟩ := exists_of_getElem?_takeOver hch
    split_ifs with hchanges
    · exact hrows.front_size c old hold
    · exact hrows.back_size c old hold hchanged

/-- After a filter's rows were taken over, the rows show the next stage what it is to see. -/
theorem shows_takeOver (h : p.Planned) (hrows : p.Shaped rows) (hstep : p.InFrame step)
    {f : Filter} (hf : p.filters[step.stage]? = some f) {written : Rows}
    (hwritten : ∀ c, (p.modeAt step.stage c).changes → written.get? c =
      some ((f.onStrip (p.stripAt input step.row step.stage)).run c
        (step.column - p.paddingAt (step.stage + 1))
        (step.length + 2 * p.paddingAt (step.stage + 1))))
    (hshows : p.Shows input step step.stage (step.stage + 1) rows) :
    p.Shows input step (step.stage + 1) (step.stage + 1) (p.takeOver step written rows) := by
  intro c ch first hch hfirst hle
  obtain ⟨old, hold, rfl⟩ := exists_of_getElem?_takeOver hch
  have hc := hrows.lt_channels hold
  have hmode := h.modeAt_eq (stages_of_filter hf) hc
  rw [stripAt_succ hf]
  cases hchanges : (p.modeAt step.stage c).changes with
  | true =>
    have hback := hrows.back_size c old hold (h.scheduled.changed_of_changes hc hchanges)
    simp only [if_true, hwritten c hchanges, Option.getD_some]
    rw [window_overwrite h.scheduled hstep.length_le hback (by simp)]
  | false =>
    have hunchanged : (f.mode c).changes = false := by rwa [hmode] at hchanges
    have hnext : step.stage ≤ step.stage + 1 := by omega
    have hpad := h.scheduled.paddingAt_antitone hnext
    simp only [Bool.false_eq_true, if_false]
    rw [window_of_le old.front h.scheduled hnext, hshows c old first hold hfirst hle,
      Strip.extract_run _ _ _ _ (by omega),
      Strip.run_congr (Filter.onStrip_of_unchanged hunchanged _)]
    congr 1 <;> omega

/-! ## The step as a whole -/

/-- What a step of a worker with rows of the right lengths leaves of them. -/
structure Advances (p : Pipeline) (input : List Plane) (step : Step) (rows after : Workspace) :
    Prop where
  /-- The rows keep their lengths. -/
  shaped : p.Shaped after
  /-- They show the next stage what it is to see, if they showed this one. -/
  shows : step.stage < p.filters.length → p.Shows input step step.stage step.stage rows →
    p.Shows input step (step.stage + 1) (step.stage + 1) after

/-- What keeps a step from being made, whatever the rows of the worker hold: a row of a plane that
is not there, or more samples for a filter to produce than there are numbers for. -/
def obstacle (p : Pipeline) (input : List Plane) (step : Step) : Option Misuse :=
  if p.sourcesReady input step then
    if step.stage < p.filters.length ∧
        Size.bound ≤ step.length + 2 * p.paddingAt (step.stage + 1) then some .overflow
    else none
  else some .outOfRange

/-- No step of the frame meets an obstacle, if the planes hold their rows and the rows of a worker
have a length. -/
theorem obstacle_of_fed (h : p.Scheduled borders) (small : p.rowLength < Size.bound)
    (hinput : p.Fed input) (hstep : p.InFrame step) : p.obstacle input step = none := by
  have hpad := h.paddingAt_antitone (Nat.zero_le (step.stage + 1))
  have hlen := hstep.length_le
  unfold rowLength at small
  rw [obstacle, if_pos (sourcesReady_of_fed hinput hstep), if_neg (by omega)]

theorem sourcesReady_of_obstacle (clear : p.obstacle input step = none) :
    p.sourcesReady input step = true := by
  unfold obstacle at clear
  split at clear
  case isTrue ready => exact ready
  case isFalse => cases clear

theorem produced_lt_of_obstacle (clear : p.obstacle input step = none)
    (hstage : step.stage < p.filters.length) (worker : Nat) :
    (p.segment worker step).produced < Size.bound := by
  rw [obstacle, if_pos (sourcesReady_of_obstacle clear)] at clear
  split at clear
  case isTrue => cases clear
  case isFalse fits => exact Nat.lt_of_not_le fun large ↦ fits ⟨hstage, large⟩

/-- A step that meets an obstacle is misused and changes nothing. -/
theorem perform_of_obstacle (h : p.Scheduled borders) {misuse : Misuse}
    (met : p.obstacle input step = some misuse) (hlen : step.length ≤ min p.tileSide p.width)
    {worker : Nat} {s : Progress} (hworker : s.workers[worker]? = some rows)
    (hrows : p.Shaped rows) : p.perform input worker step s = .misused s misuse := by
  obtain ⟨workers, sink⟩ := s
  dsimp only at hworker
  unfold obstacle at met
  split_ifs at met with ready large
  · cases met
    have hf : p.filters[step.stage]? = some p.filters[step.stage] :=
      List.getElem?_eq_getElem large.1
    have hproduce : ∀ rows' written, (p.filters[step.stage]).produce rows' written
        (p.segment worker step) = .error .overflow := fun _ _ ↦
      Filter.produce_of_bound_le large.2
    simp only [perform, hworker, Option.getD_some, ready, windowsFit_of_shaped h hrows hlen,
      Bool.and_self, if_true, hf, hproduce]
  · cases met
    simp [perform, ready]

/-- A filter's step ends, changes the worker's rows and nothing else. -/
theorem perform_filter (h : p.Planned) (planes : p.channels ≤ input.length)
    (clear : p.obstacle input step = none) (hstep : p.InFrame step)
    (hstage : step.stage < p.filters.length) {worker : Nat} {s : Progress}
    (hworker : s.workers[worker]? = some rows) (hrows : p.Shaped rows) :
    ∃ after, p.Advances input step rows after ∧
      p.perform input worker step s = .done ⟨s.workers.setIfInBounds worker after, s.sink⟩ := by
  obtain ⟨workers, sink⟩ := s
  dsimp only at hworker
  have hf : p.filters[step.stage]? = some p.filters[step.stage] := List.getElem?_eq_getElem hstage
  have hloaded := hrows.load planes step
  obtain ⟨s, hread, hseen⟩ := exists_rowsRead_eq input h hloaded hstep
  obtain ⟨written, hproduce, hget⟩ := exists_produce_eq h hloaded hstep hf hread
    (produced_lt_of_obstacle clear hstage worker)
  refine ⟨p.takeOver step written (p.load input step rows),
    ⟨hloaded.takeOver h.scheduled written, fun _ hshows ↦ ?_⟩, ?_⟩
  · have hafter := shows_load h planes hrows hstep hshows
    rw [hseen hafter] at hget
    exact shows_takeOver h hloaded hstep hf hget hafter
  · simp only [perform, hworker, Option.getD_some, sourcesReady_of_obstacle clear,
      windowsFit_of_shaped h.scheduled hrows hstep.length_le, Bool.and_self, if_true, hf, hproduce]

/-- The sink's step hands it runs of a strip: of the reference, if the rows show it. -/
theorem perform_sink (h : p.Planned) (planes : p.channels ≤ input.length)
    (clear : p.obstacle input step = none) (hstep : p.InFrame step)
    (hstage : step.stage = p.filters.length) {worker : Nat} {s : Progress}
    (hworker : s.workers[worker]? = some rows) (hrows : p.Shaped rows) :
    ∃ after strip, p.Advances input step rows after ∧
      (p.Shows input step step.stage step.stage rows →
        strip = p.stripAt input step.row step.stage) ∧
      p.perform input worker step s =
        (s.sink.receive (p.rowsOf strip step) (p.segment worker step)).map
          (Progress.mk (s.workers.setIfInBounds worker after)) := by
  obtain ⟨workers, sink⟩ := s
  dsimp only at hworker
  have hnone : p.filters[step.stage]? = none := List.getElem?_eq_none (by omega)
  have hloaded := hrows.load planes step
  obtain ⟨s, hread, hseen⟩ := exists_rowsRead_eq input h hloaded hstep
  refine ⟨p.load input step rows, s, ⟨hloaded, fun hlt ↦ by omega⟩,
    fun hshows ↦ hseen (shows_load h planes hrows hstep hshows), ?_⟩
  simp only [perform, hworker, Option.getD_some, sourcesReady_of_obstacle clear,
    windowsFit_of_shaped h.scheduled hrows hstep.length_le, Bool.and_self, if_true, hnone, hread]

end Pipeline

end Scanline
