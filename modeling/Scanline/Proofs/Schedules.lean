import Scanline.Proofs.Deliveries

/-!
# Schedules

A `Pipeline.Schedule` is an interleaving of workers that share the tiles of a frame among
themselves: every tile goes to one worker, each worker goes through its tiles one after another, and
the steps of different workers may come in any order.  `Pipeline.interleaved` is a run whose tiles
are done in such an order; the run in order is one of them (`Pipeline.run_inOrder`).

Main statement: what is left of a run does not depend on the schedule, nor on the number of workers
(`interleaved_eq_inOrder`).
-/

namespace Scanline

/-! ## Moves of several workers -/

/-- One more move is one more step of its worker. -/
theorem Move.flatMap_own_cons_perm (move : Move) (rest : List Move) {workers : List Nat}
    (hmem : move.worker ∈ workers) (hnodup : workers.Nodup) :
    (workers.flatMap fun worker ↦ Move.own worker (move :: rest)).Perm
      (move.step :: workers.flatMap fun worker ↦ Move.own worker rest) := by
  induction workers with
  | nil => cases hmem
  | cons worker others ih =>
    obtain ⟨hnot, hothers⟩ := List.nodup_cons.1 hnodup
    rw [List.flatMap_cons, List.flatMap_cons]
    by_cases heq : move.worker = worker
    · subst heq
      have hsame : others.flatMap (fun worker ↦ Move.own worker (move :: rest)) =
          others.flatMap fun worker ↦ Move.own worker rest :=
        List.flatMap_congr fun other hother ↦
          Move.own_cons_of_ne (fun h ↦ hnot (h ▸ hother)) rest
      rw [Move.own_cons_self, hsame, List.cons_append]
    · rw [Move.own_cons_of_ne heq]
      have hlater := ih ((List.mem_cons.1 hmem).resolve_left heq) hothers
      exact (hlater.append_left _).trans List.perm_middle

/-- Moves in any order have the steps that their workers make, worker by worker. -/
theorem Move.map_step_perm {n : Nat} {moves : List Move} (h : ∀ move ∈ moves, move.worker < n) :
    (moves.map Move.step).Perm ((List.range n).flatMap fun worker ↦ Move.own worker moves) := by
  induction moves with
  | nil => simp [Move.own]
  | cons move rest ih =>
    have hworker : move.worker ∈ List.range n := List.mem_range.2 (h move List.mem_cons_self)
    rw [List.map_cons]
    exact ((ih fun m hm ↦ h m (List.mem_cons_of_mem _ hm)).cons move.step).trans
      (flatMap_own_cons_perm move rest hworker List.nodup_range).symm

namespace Pipeline

variable (p : Pipeline)

/-- An interleaving of `n` workers that share the tiles among themselves. -/
structure Schedule (n : Nat) (moves : List Move) : Prop where
  /-- All workers are known. -/
  worker_lt : ∀ move ∈ moves, move.worker < n
  /-- Every tile goes to one worker, and each worker goes through its tiles one by one. -/
  exists_tiles : ∃ tiles : Nat → List Nat,
    ((List.range n).flatMap tiles).Perm (List.range p.tileCount) ∧
      ∀ worker < n, Move.own worker moves = (tiles worker).flatMap p.steps

/-- A run in which workers make their moves in the given order. -/
def interleaved (input : List Plane) (n : Nat) (moves : List Move) : Outcome Sink :=
  let o : Outcome Sink :=
    match p.checkRun input n with
    | .error failure => .failed p.sink failure
    | .ok () => (p.sink.prepare n).next fun sink ↦
        match Workspace.reserve p.plans p.rowLength with
        | .error fault => .faulted sink fault
        | .ok rows => (p.enact input moves ⟨Array.replicate n rows, sink⟩).map Progress.sink
  o.map Sink.release

/-- The moves of one worker that goes through all tiles in order. -/
def inOrderMoves : List Move := p.allSteps.map (Move.mk 0)

variable {p} {input : List Plane} {n : Nat}

@[simp] theorem map_step_inOrderMoves : p.inOrderMoves.map Move.step = p.allSteps := by
  simp [inOrderMoves, Function.comp_def]

theorem size_workers_perform (worker : Nat) (step : Step) (s : Progress) :
    (p.perform input worker step s).state.workers.size = s.workers.size := by
  obtain ⟨workers, sink⟩ := s
  unfold perform
  dsimp only
  split
  · split
    · split
      · exact Array.size_setIfInBounds
      · rfl
    · exact Array.size_setIfInBounds
  · rfl

/-- A run in order is the one schedule of a single worker. -/
theorem run_inOrder (h : p.Planned) (side : p.tileSide < Size.bound)
    (hasRow : ∀ plane ∈ input, ∀ y < plane.height, plane.hasRow y) :
    p.run input .inOrder = p.interleaved input 1 p.inOrderMoves := by
  unfold run interleaved
  cases hcheck : p.checkRun input Runner.inOrder.workers with
  | error failure =>
    rw [show p.checkRun input 1 = .error failure from hcheck]
  | ok _ =>
    have hinput := fed_of_checkRun hcheck hasRow
    obtain ⟨hwidth, hheight⟩ := hinput.sides_lt h
    rw [show p.checkRun input 1 = .ok () from hcheck]
    show ((p.sink.prepare 1).next (p.processTiles input .inOrder)).map Sink.release = _
    refine congrArg (fun f ↦ ((p.sink.prepare 1).next f).map Sink.release) (funext fun sink ↦ ?_)
    unfold processTiles
    cases Workspace.reserve p.plans p.rowLength with
    | error fault => rfl
    | ok rows =>
      simp only [Size.ofNat_of_lt (tileCount_lt h hwidth hheight)]
      have htile : ∀ tile ∈ List.range p.tileCount, ∀ s : Progress, s.workers.size = 1 →
          p.processTile input tile 0 s = .each (p.perform input 0) (p.steps tile) s ∧
            (p.processTile input tile 0 s).state.workers.size = 1 := by
        intro tile hmem s hs
        have heq := processTile_eq_each p input (show 0 < s.workers.size by omega)
          (tileTop_add_lt h side hheight (List.mem_range.1 hmem))
        have hkeeps : (Outcome.each (p.perform input 0) (p.steps tile) s).Keeps
            (fun t ↦ t.workers.size = 1) fun _ ↦ True :=
          Outcome.each_keeps (fun step _ t ht ↦
            ⟨by rw [size_workers_perform]; exact ht, fun _ _ ↦ trivial⟩) hs
        rw [heq]
        exact ⟨rfl, hkeeps.1⟩
      have hall := Outcome.each_congr htile
        (show (Progress.mk (Array.replicate 1 rows) sink).workers.size = 1 from
          Array.size_replicate)
      rw [enact, inOrderMoves, Outcome.each_map, allSteps, Outcome.each_flatMap, ← hall]
      refine congrArg (Outcome.map Progress.sink) ?_
      show Outcome.count _ 0 p.tileCount _ = _
      rw [Outcome.count_eq_each, ← List.range_eq_range']
      rfl

/-- A single worker that goes through all tiles in order keeps to a schedule. -/
theorem schedule_inOrderMoves : p.Schedule 1 p.inOrderMoves := by
  have hown : ∀ steps : List Step, Move.own 0 (steps.map (Move.mk 0)) = steps := by
    intro steps
    simp [Move.own, List.filter_map, Function.comp_def]
  refine ⟨fun move hmove ↦ ?_, fun _ ↦ List.range p.tileCount, by simp, fun worker hworker ↦ ?_⟩
  · obtain ⟨step, -, rfl⟩ := List.mem_map.1 hmove
    exact Nat.one_pos
  · rw [Nat.lt_one_iff.1 hworker]
    exact hown p.allSteps

/-! ## What does not depend on the schedule -/

/-- The moves of a schedule are the steps of all tiles, each made once. -/
theorem Schedule.map_step_perm {moves : List Move} (h : p.Schedule n moves) :
    (moves.map Move.step).Perm p.allSteps := by
  obtain ⟨tiles, hperm, hown⟩ := h.exists_tiles
  have hworkers : ((List.range n).flatMap fun worker ↦ Move.own worker moves) =
      ((List.range n).flatMap tiles).flatMap p.steps := by
    rw [List.flatMap_assoc]
    exact List.flatMap_congr fun worker hworker ↦ hown worker (List.mem_range.1 hworker)
  refine (Move.map_step_perm h.worker_lt).trans ?_
  rw [hworkers]
  exact hperm.flatMap_right _

theorem Schedule.inFrame {moves : List Move} (h : p.Schedule n moves) (hplanned : p.Planned)
    {move : Move} (hmove : move ∈ moves) : move.worker < n ∧ p.InFrame move.step := by
  obtain ⟨tile, -, hmem⟩ := mem_allSteps.1
    (h.map_step_perm.mem_iff.1 (List.mem_map_of_mem hmove))
  exact ⟨h.worker_lt move hmove, inFrame_of_mem_steps hplanned hmem⟩

theorem Schedule.allPoised {moves : List Move} (h : p.Schedule n moves) (hplanned : p.Planned)
    {rows : Workspace} (hrows : p.Shaped rows) (sink : Sink) :
    AllPoised p input ⟨Array.replicate n rows, sink⟩ moves := by
  obtain ⟨tiles, -, hown⟩ := h.exists_tiles
  constructor
  · intro move hmove
    simpa using h.worker_lt move hmove
  · intro worker other hother
    obtain ⟨hlt, rfl⟩ := Array.getElem?_eq_some_iff.1 hother
    have hworker : worker < n := by simpa using hlt
    rw [hown worker hworker]
    refine poised_of_orderly (by simpa using hrows) (fun step hstep ↦ ?_)
      (Orderly.flatMap fun tile _ ↦ orderly_steps p tile)
    obtain ⟨tile, -, hmem⟩ := List.mem_flatMap.1 hstep
    exact inFrame_of_mem_steps hplanned hmem

/-- A run that gets as far as its tiles does to the sink what the deliveries of its moves do. -/
theorem interleaved_eq_each {moves : List Move} (h : p.Schedule n moves) (hplanned : p.Planned)
    (hasRow : ∀ plane ∈ input, ∀ y < plane.height, plane.hasRow y)
    (hcheck : p.checkRun input n = .ok ()) {sink : Sink} (hprepare : p.sink.prepare n = .done sink)
    {rows : Workspace} (hreserve : Workspace.reserve p.plans p.rowLength = .ok rows) :
    p.interleaved input n moves =
      (Outcome.each (p.deliver input) moves sink).map Sink.release := by
  obtain ⟨-, -, -, bytes, hmemory, -⟩ := checkRun_eq_ok_iff.1 hcheck
  have henact := map_enact hplanned (rowMemory_eq_ok_iff.1 hmemory).1
    (fed_of_checkRun hcheck hasRow)
    (h.allPoised hplanned (Workspace.shaped_of_reserve hreserve) sink)
  simp only [interleaved, hcheck, hprepare, Outcome.done_next, hreserve, henact]

/-- A run that ends got as far as its tiles. -/
theorem of_interleaved {moves : List Move}
    (hend : (p.interleaved input n moves).failure = none) :
    p.checkRun input n = .ok () ∧ (∃ sink, p.sink.prepare n = .done sink) ∧
      ∃ rows, Workspace.reserve p.plans p.rowLength = .ok rows := by
  unfold interleaved at hend
  rw [Outcome.failure_map] at hend
  cases hcheck : p.checkRun input n with
  | error failure =>
    simp only [hcheck] at hend
    cases hend
  | ok _ =>
    simp only [hcheck, Outcome.failure_next] at hend
    obtain ⟨hprepare, hrest⟩ := hend
    refine ⟨rfl, ⟨_, Outcome.eq_done_of_failure hprepare⟩, ?_⟩
    cases hreserve : Workspace.reserve p.plans p.rowLength with
    | error fault =>
      simp only [hreserve] at hrest
      cases hrest
    | ok rows => exact ⟨rows, rfl⟩

/-- What several workers may reserve, one may. -/
theorem checkRun_one (h : p.checkRun input n = .ok ()) : p.checkRun input 1 = .ok () := by
  obtain ⟨hlength, hsize, hn, bytes, hmemory, hlimit⟩ := checkRun_eq_ok_iff.1 h
  obtain ⟨hrow, hrows, rfl⟩ := rowMemory_eq_ok_iff.1 hmemory
  refine checkRun_eq_ok_iff.2 ⟨hlength, hsize, Nat.one_pos, _, rowMemory_eq_ok_iff.2
    ⟨hrow, hrows, rfl⟩, Limits.check_of_le hlimit ?_⟩
  have hle : p.rowCount * p.rowLength * sampleBytes * 1 ≤
      p.rowCount * p.rowLength * sampleBytes * n := Nat.mul_le_mul_left _ hn
  unfold Size.satMul
  omega

/-- A run draws the steps of the sink, in a sink that has something to draw on. -/
theorem interleaved_draws {b : Blueprint} {sink : Sink} {moves : List Move}
    (h : p.Schedule n moves) (hyields : b.Yields p sink)
    (hasRow : ∀ plane ∈ input, ∀ y < plane.height, plane.hasRow y)
    (hcheck : p.checkRun input n = .ok ()) {rows : Workspace}
    (hreserve : Workspace.reserve p.plans p.rowLength = .ok rows) (hkind : p.sink.kind ≠ .stream) :
    p.interleaved input n moves =
      .done (p.sink.drawAll (p.rendered input) (p.sinkSteps (moves.map Move.step))) := by
  have hplanned := hyields.planned
  have hprepare := Sink.prepare_of_ne_stream hkind n
  have hwidth := ((fed_of_checkRun hcheck hasRow).sides_lt hplanned).1
  rw [interleaved_eq_each h hplanned hasRow hcheck hprepare hreserve,
    each_deliver_draws hplanned (Nat.lt_trans hwidth (by decide))
      (fun move hmove ↦ (h.inFrame hplanned hmove).2) (hyields.ready_of_prepare hprepare) hkind,
    Outcome.map_done, Sink.release_of_ne_stream (by rwa [Sink.kind_drawAll])]

/-- A run offers the calls of its moves to a consumer that starts. -/
theorem interleaved_offers {b : Blueprint} {sink : Sink} {moves : List Move}
    (h : p.Schedule n moves) (hyields : b.Yields p sink)
    (hasRow : ∀ plane ∈ input, ∀ y < plane.height, plane.hasRow y)
    (hcheck : p.checkRun input n = .ok ()) {rows : Workspace}
    (hreserve : Workspace.reserve p.plans p.rowLength = .ok rows) {s : StreamSink}
    (hsink : p.sink = .stream s) (hrefusal : s.consumer.refusal s.close.log n = none) :
    ∃ buffers, p.interleaved input n moves =
      (Outcome.each StreamSink.offer (moves.flatMap (p.moveCalls input s.options))
        { s with
          isOpen := true
          buffers
          log := s.close.log.push (.opened n runLimit none) }).map
        fun t ↦ .stream t.release := by
  have hplanned := hyields.planned
  have hprepare : p.sink.prepare n = .done (.stream { s with
      isOpen := true
      buffers := Array.replicate n (Staging.forFormat s.options.format)
      log := s.close.log.push (.opened n runLimit none) }) := by
    rw [hsink, Sink.prepare, StreamSink.prepare_of_none hrefusal, Outcome.map_done]
  have hready := hyields.ready_of_prepare hprepare
  have hwidth := ((fed_of_checkRun hcheck hasRow).sides_lt hplanned).1
  obtain ⟨buffers, -, hoffers⟩ := each_deliver_offers (p := p) (n := n) hplanned
    (Nat.lt_trans hwidth (by decide)) (fun move hmove ↦ h.inFrame hplanned hmove) hready
  refine ⟨buffers, ?_⟩
  rw [interleaved_eq_each h hplanned hasRow hcheck hprepare hreserve, hoffers]
  rfl

end Pipeline

/-! ## Calls whoever makes them -/

/-- A call, whoever makes it. -/
def Call.anonymous (call : Call) : Call := { call with worker := 0 }

/-- The calls that a sink's consumer has taken. -/
def Sink.taken : Sink → List Call
  | .stream s => s.log.toList.filterMap Event.taken?
  | _ => []

/-- Which worker hands over a run does not matter but for its name. -/
theorem StreamOptions.map_anonymous_calls (o : StreamOptions) (worker y : Nat) (batch : Batch)
    (bytes : Array UInt8) :
    (o.calls worker y batch bytes).map Call.anonymous = o.calls 0 y batch bytes := by
  by_cases hswap : o.orientation.swapsAxes
  · simp only [calls, hswap, if_true, List.map_map]
    rfl
  · simp only [calls, hswap]
    rfl

/-- Which worker hands over a step does not matter but for its name. -/
theorem StreamOptions.map_anonymous_stepCalls (o : StreamOptions) (worker : Nat) (strip : Strip)
    (step : Pipeline.Step) :
    (o.stepCalls worker strip step).map Call.anonymous = o.stepCalls 0 strip step := by
  unfold stepCalls
  split_ifs
  · rfl
  · rw [List.map_flatMap]
    exact List.flatMap_congr fun k _ ↦ o.map_anonymous_calls _ _ _ _

theorem StreamSink.taken_release (s : StreamSink) :
    (Sink.stream s.release).taken = (Sink.stream s).taken := by
  obtain ⟨options, consumer, _ | _, buffers, log⟩ := s
  · rfl
  · simp [Sink.taken, release, close, Event.taken?, Array.toList_push]

/-- A consumer that was opened and handed calls has taken these as well. -/
theorem StreamSink.taken_append (s : StreamSink) (buffers : Array Staging) (n : Nat)
    (calls : List Call) :
    (Sink.stream { s with
      isOpen := true
      buffers
      log := s.close.log.push (.opened n runLimit none) ++
        (calls.map fun call ↦ .called call none).toArray }).taken =
      (Sink.stream s).taken ++ calls := by
  have hcalls : (calls.map fun call ↦ Event.called call none).filterMap Event.taken? = calls := by
    rw [List.filterMap_map]
    exact List.filterMap_some
  rw [← taken_release s]
  simp only [Sink.taken, log_release, Array.toList_append, Array.toList_push,
    List.filterMap_append, hcalls]
  simp [Event.taken?]

namespace Pipeline

variable {p : Pipeline} {input : List Plane} {n : Nat}

/-- The calls of a schedule, whoever makes them, are those of the steps of all tiles. -/
theorem Schedule.map_anonymous_perm {moves : List Move} (h : p.Schedule n moves)
    (o : StreamOptions) :
    ((moves.flatMap (p.moveCalls input o)).map Call.anonymous).Perm
      (p.allSteps.flatMap fun step ↦ p.moveCalls input o ⟨0, step⟩) := by
  have hanonymous : ∀ move, (p.moveCalls input o move).map Call.anonymous =
      p.moveCalls input o ⟨0, move.step⟩ := by
    intro move
    unfold moveCalls
    split_ifs
    · exact o.map_anonymous_stepCalls _ _ _
    · rfl
  have hsteps : (moves.flatMap (p.moveCalls input o)).map Call.anonymous =
      (moves.map Move.step).flatMap fun step ↦ p.moveCalls input o ⟨0, step⟩ := by
    rw [List.map_flatMap, List.flatMap_map]
    exact List.flatMap_congr fun move _ ↦ hanonymous move
  rw [hsteps]
  exact h.map_step_perm.flatMap_right _

/-- What a consumer has taken after a run that ended: what it had taken before, and the calls of
the run. -/
theorem taken_interleaved {b : Blueprint} {sink : Sink} {moves : List Move}
    (h : p.Schedule n moves) (hyields : b.Yields p sink)
    (hasRow : ∀ plane ∈ input, ∀ y < plane.height, plane.hasRow y) {s : StreamSink}
    (hsink : p.sink = .stream s) (hend : (p.interleaved input n moves).failure = none) :
    (p.interleaved input n moves).state.taken =
      p.sink.taken ++ moves.flatMap (p.moveCalls input s.options) := by
  obtain ⟨hcheck, ⟨t, hprepare⟩, rows, hreserve⟩ := of_interleaved hend
  cases hrefusal : s.consumer.refusal s.close.log n with
  | some reason =>
    rw [hsink, Sink.prepare, StreamSink.prepare_of_refusal hrefusal] at hprepare
    cases hprepare
  | none =>
    obtain ⟨buffers, hoffers⟩ :=
      interleaved_offers h hyields hasRow hcheck hreserve hsink hrefusal
    rw [hoffers, Outcome.failure_map] at hend
    rw [hoffers, StreamSink.each_offer_of_failure hend, Outcome.map_done, Outcome.state_done,
      StreamSink.taken_release, hsink]
    exact StreamSink.taken_append s buffers n _

/-- Sinks that have something to draw on are left with the same by every schedule. -/
theorem interleaved_eq_of_ne_stream {b : Blueprint} {sink : Sink} {moves : List Move}
    (h : p.Schedule n moves) (hyields : b.Yields p sink)
    (hasRow : ∀ plane ∈ input, ∀ y < plane.height, plane.hasRow y)
    (hcheck : p.checkRun input n = .ok ()) {rows : Workspace}
    (hreserve : Workspace.reserve p.plans p.rowLength = .ok rows) (hkind : p.sink.kind ≠ .stream) :
    p.interleaved input 1 p.inOrderMoves = p.interleaved input n moves := by
  have hplanned := hyields.planned
  rw [interleaved_draws schedule_inOrderMoves hyields hasRow (checkRun_one hcheck) hreserve hkind,
    interleaved_draws h hyields hasRow hcheck hreserve hkind, map_step_inOrderMoves]
  refine congrArg Outcome.done (Sink.drawAll_perm _ (h.map_step_perm.symm.filter _)
    (fun step hstep ↦ ?_) (fun a ha b hb ↦ apart_of_mem_sinkSteps hplanned ha hb)
    (hyields.fits hkind n))
  obtain ⟨tile, -, hmem⟩ := mem_allSteps.1 (mem_sinkSteps.1 hstep).1
  exact (inFrame_of_mem_steps hplanned hmem).reach_le

/-- A run into a consumer that takes everything ends. -/
theorem failure_interleaved_of_takesAll {b : Blueprint} {sink : Sink} {moves : List Move}
    (h : p.Schedule n moves) (hyields : b.Yields p sink)
    (hasRow : ∀ plane ∈ input, ∀ y < plane.height, plane.hasRow y)
    (hcheck : p.checkRun input n = .ok ()) {rows : Workspace}
    (hreserve : Workspace.reserve p.plans p.rowLength = .ok rows) {s : StreamSink}
    (hsink : p.sink = .stream s) (takes : s.consumer.TakesAll) :
    (p.interleaved input n moves).failure = none := by
  obtain ⟨buffers, hoffers⟩ := interleaved_offers h hyields hasRow hcheck hreserve hsink
    (takes.refusal_eq _ _)
  rw [hoffers, Outcome.failure_map]
  refine StreamSink.failure_each_offer_eq_none ?_ _
  exact takes.failure_eq

/-- What is left of a run that ended depends neither on the schedule nor on the number of workers.
With one worker in order, a sink that has something to draw on is left with the same, bit for bit,
and a consumer has taken the same calls, except for their order and for who made them.  That run
ends too, unless the consumer refuses. -/
theorem interleaved_eq_inOrder {b : Blueprint} (h : b.build.pipeline = .ok p)
    (side : b.tileSide < Size.bound)
    (hasRow : ∀ plane ∈ input, ∀ y < plane.height, plane.hasRow y) {moves : List Move}
    (schedule : p.Schedule n moves) (ended : (p.interleaved input n moves).failure = none) :
    (p.sink.kind ≠ .stream → p.run input .inOrder = p.interleaved input n moves) ∧
      ((p.run input .inOrder).failure = none →
        ((p.interleaved input n moves).state.taken.map Call.anonymous).Perm
          ((p.run input .inOrder).state.taken.map Call.anonymous)) ∧
      ((∀ s, p.sink = .stream s → s.consumer.TakesAll) →
        (p.run input .inOrder).failure = none) := by
  obtain ⟨bound, hyields⟩ := Blueprint.exists_yields h
  obtain ⟨hcheck, -, rows, hreserve⟩ := of_interleaved ended
  rw [← hyields.side_eq] at side
  rw [run_inOrder hyields.planned side hasRow]
  by_cases hkind : p.sink.kind = .stream
  · obtain ⟨s, hsink⟩ := Sink.exists_of_kind_stream hkind
    refine ⟨fun hne ↦ absurd hkind hne, fun hinOrder ↦ ?_, fun htakes ↦ ?_⟩
    · rw [taken_interleaved schedule hyields hasRow hsink ended,
        taken_interleaved schedule_inOrderMoves hyields hasRow hsink hinOrder, List.map_append,
        List.map_append]
      exact ((schedule.map_anonymous_perm s.options).trans
        (schedule_inOrderMoves.map_anonymous_perm s.options).symm).append_left _
    · exact failure_interleaved_of_takesAll schedule_inOrderMoves hyields hasRow
        (checkRun_one hcheck) hreserve hsink (htakes s hsink)
  · rw [interleaved_eq_of_ne_stream schedule hyields hasRow hcheck hreserve hkind]
    exact ⟨fun _ ↦ rfl, fun _ ↦ List.Perm.refl _, fun _ ↦ ended⟩

/-- Two workers that take turns at smoothing two tiles of one pixel. -/
theorem interleaved_eq_inOrder_smoothed :
    let b : Blueprint := ⟨List.replicate 3 (2, 1),
      [.filter (.smooth .standard), .sink (.planar ⟨none, .free⟩)], 1, {}⟩
    let input : List Plane := List.replicate 3 ⟨2, 1, 2, #[.one, .two], by decide, by decide⟩
    let moves : List Move :=
      [⟨1, 0, 1, 0, 0⟩, ⟨0, 1, 1, 0, 0⟩, ⟨0, 1, 1, 0, 1⟩, ⟨1, 0, 1, 0, 1⟩]
    ∃ p, b.build.pipeline = .ok p ∧ p.Schedule 2 moves ∧
      p.run input .inOrder = p.interleaved input 2 moves := by
  intro b input moves
  have schedule : ∀ p, b.build.pipeline = .ok p → p.Schedule 2 moves := by
    intro p h
    cases h
    exact ⟨by decide, fun worker ↦ [1 - worker], by decide, by decide⟩
  exact ⟨_, rfl, schedule _ rfl, (interleaved_eq_inOrder (b := b) rfl (by decide) (by decide)
    (schedule _ rfl) (by decide +kernel)).1 (by decide)⟩
end Pipeline

end Scanline
