import Scanline.Proofs.Runners
import Scanline.Proofs.Runs

/-!
# Runs are never misused

A run of a pipeline that was built stops for a reason of `Pipeline.Stops` or not at all
(`run_stops`): the input does not fit the frame, the workers are unusable, memory is not permitted
or cannot be had, or the consumer refuses.  No row is missing, no window leaves its row, and no sink
finds itself unprepared.

The invariant is `Pipeline.Sound`.  It holds after any steps of any workers in any order, also
after steps that failed, so workers that run at the same time are covered by the second part of
`run_stops`.
-/

namespace Scanline.Pipeline

/-- What may stop a run with `n` workers. -/
inductive Stops (p : Pipeline) (input : List Plane) (n : Nat) : Failure → Prop where
  /-- There are more or fewer planes than channels. -/
  | planeCount (h : input.length ≠ p.channels) :
      Stops p input n (.fault (.inconsistent (.planeCount p.channels input.length)))
  /-- A plane has another size than the frame. -/
  | sizeMismatch {c : Nat} {plane : Plane} (hplane : input[c]? = some plane)
      (h : plane.size ≠ p.size) : Stops p input n (.fault (.sizeMismatch c plane.size p.size))
  /-- There is no worker. -/
  | emptyRunner (h : n = 0) : Stops p input n (.fault (.pool .emptyRunner))
  /-- A task is given to a worker that is not there. -/
  | unknownWorker {worker : Nat} (h : n ≤ worker) :
      Stops p input n (.fault (.pool (.unknownWorker worker n)))
  /-- The rows of the workers take more memory than they may. -/
  | memory (bytes : Nat) {most : Nat} (h : p.limits.memory = some most) (hmost : most < bytes) :
      Stops p input n (.fault (.limit (.memory bytes most)))
  /-- The rows of the workers cannot be had. -/
  | outOfMemory (bytes : Nat) : Stops p input n (.fault (.outOfMemory .workerRow bytes))
  /-- The consumer refuses to start. -/
  | consumerRefused (reason : String) : Stops p input n (.fault (.consumerRefused reason))
  /-- The consumer gives up. -/
  | consumerFailed (x y : Nat) (reason : String) :
      Stops p input n (.fault (.consumerFailed x y reason))

variable {p : Pipeline} {input : List Plane} {n : Nat}

theorem stops_of_isGivingUp {e : Failure} (h : e.IsGivingUp) : p.Stops input n e := by
  obtain ⟨x, y, reason, rfl⟩ := h
  exact .consumerFailed x y reason

/-- The checks before a run stop it for their own reasons. -/
theorem stops_of_checkRun (hlength : p.rowLength < Size.bound)
    (hmemory : p.rowCount * p.rowLength * sampleBytes < Size.bound) {e : Failure}
    (h : p.checkRun input n = .error e) : p.Stops input n e := by
  by_cases hplanes : input.length = p.channels
  · rw [checkRun_of_length hplanes] at h
    split at h
    case h_1 c hc =>
      cases h
      obtain ⟨hlt, hdiffers, -⟩ := List.findIdx?_eq_some_iff_getElem.1 hc
      have hplane : input[c]? = some input[c] := List.getElem?_eq_getElem hlt
      rw [hplane]
      exact .sizeMismatch hplane (by simpa using hdiffers)
    case h_2 =>
      split_ifs at h with hzero
      · cases h
        exact .emptyRunner hzero
      · have hrows := (rowMemory_eq_ok_iff (p := p) (n := n)).2 ⟨hlength, hmemory, rfl⟩
        rcases bind_eq_error_iff.1 h with hoverflow | ⟨bytes, -, hcheck⟩
        · obtain ⟨misuse, hmisuse, -⟩ := mapError_eq_error_iff.1 hoverflow
          rw [hrows] at hmisuse
          cases hmisuse
        · obtain ⟨exceeded, hexceeded, rfl⟩ := mapError_eq_error_iff.1 hcheck
          obtain ⟨most, hlimit, hmost, rfl⟩ := Limits.of_check_eq_error hexceeded
          exact .memory bytes hlimit hmost
  · unfold checkRun at h
    rw [if_pos hplanes] at h
    cases h
    exact .planeCount hplanes

/-- A tile keeps workers and sink as they are to be, or stops the run. -/
theorem processTile_keeps (h : p.Planned) (side : p.tileSide < Size.bound)
    (hlength : p.rowLength < Size.bound) (hinput : p.Fed input) {tile : Nat}
    (htile : tile < p.tileCount) (worker : Nat) {s : Progress} (hs : p.Sound n s) :
    (p.processTile input tile worker s).Keeps (p.Sound n) (p.Stops input n) := by
  by_cases hknown : worker < s.workers.size
  · rw [processTile_eq_each p input hknown
      (tileTop_add_lt h side (hinput.sides_lt h).2 htile)]
    have hworker : worker < n := by rw [← hs.workers_size]; exact hknown
    refine Outcome.each_keeps ?_ hs
    intro step hstep s hs
    exact (perform_keeps h hlength hinput hworker (inFrame_of_mem_steps h hstep) hs).mono
      fun e ↦ stops_of_isGivingUp
  · rw [processTile, if_neg hknown, hs.workers_size]
    exact Outcome.keeps_failed hs (.unknownWorker (by rw [← hs.workers_size]; omega))

/-- The tiles of a run keep the sink as it is to be, or stop the run. -/
theorem processTiles_keeps (h : p.Planned) (side : p.tileSide < Size.bound)
    (hlength : p.rowLength < Size.bound) (hinput : p.Fed input) {runner : Runner}
    (hrunner : runner.KeepsToTasks) {sink : Sink} (hsink : sink.Ready p runner.workers) :
    (p.processTiles input runner sink).Keeps (fun t ↦ t.Ready p runner.workers)
      (p.Stops input runner.workers) := by
  obtain ⟨hwidth, hheight⟩ := hinput.sides_lt h
  unfold processTiles
  cases hreserve : Workspace.reserve p.plans p.rowLength with
  | error e =>
    obtain ⟨bytes, rfl⟩ := Workspace.of_reserve_eq_error hreserve
    exact Outcome.keeps_failed hsink (.outOfMemory bytes)
  | ok rows =>
    simp only [Size.ofNat_of_lt (tileCount_lt h hwidth hheight)]
    have hrun : (runner.run p.tileCount (p.processTile input)
        ⟨Array.replicate runner.workers rows, sink⟩).Keeps (p.Sound runner.workers)
        (p.Stops input runner.workers) :=
      Runner.run_keeps hrunner
        (fun tile htile worker s hs ↦ processTile_keeps h side hlength hinput htile worker hs)
        (sound_replicate (Workspace.shaped_of_reserve hreserve) hsink)
    exact hrun.map fun s hs ↦ hs.ready

/-- The state after moves, whether or not some of them failed. -/
def persist (p : Pipeline) (input : List Plane) (moves : List Move) (s : Progress) : Progress :=
  moves.foldl (fun s move ↦ (p.perform input move.worker move.step s).state) s

/-- Moves of known workers keep workers and sink as they are to be, in any order. -/
theorem Sound.persist (h : p.Planned) (hlength : p.rowLength < Size.bound) (hinput : p.Fed input)
    {moves : List Move} (hmoves : ∀ move ∈ moves, move.worker < n ∧ p.InFrame move.step)
    {s : Progress} (hs : p.Sound n s) : p.Sound n (p.persist input moves s) := by
  induction moves generalizing s with
  | nil => exact hs
  | cons move rest ih =>
    obtain ⟨hworker, hstep⟩ := hmoves move List.mem_cons_self
    exact ih (fun m hm ↦ hmoves m (List.mem_cons_of_mem _ hm))
      (perform_keeps h hlength hinput hworker hstep hs).1

/-- A run stops for a reason of its own, whatever workers its runner gives the tasks to. -/
theorem stops_of_run {b : Blueprint} {bound : Sink} (h : b.Yields p bound)
    (side : p.tileSide < Size.bound) (hlength : p.rowLength < Size.bound)
    (hmemory : p.rowCount * p.rowLength * sampleBytes < Size.bound)
    (hasRow : ∀ plane ∈ input, ∀ y < plane.height, plane.hasRow y) {runner : Runner}
    (hrunner : runner.KeepsToTasks) {e : Failure} (he : (p.run input runner).failure = some e) :
    p.Stops input runner.workers e := by
  unfold run at he
  rw [Outcome.failure_map] at he
  cases hcheck : p.checkRun input runner.workers with
  | error failure =>
    simp only [hcheck] at he
    cases he
    exact stops_of_checkRun hlength hmemory hcheck
  | ok _ =>
    simp only [hcheck] at he
    have hinput := fed_of_checkRun hcheck hasRow
    cases hprepare : (p.sink.prepare runner.workers).failure with
    | some refusal =>
      rw [Outcome.next_eq_self hprepare, hprepare] at he
      cases he
      obtain ⟨reason, rfl⟩ := Sink.of_prepare_failure hprepare
      exact .consumerRefused reason
    | none =>
      have hdone := Outcome.eq_done_of_failure hprepare
      rw [hdone, Outcome.done_next] at he
      exact (processTiles_keeps h.planned side hlength hinput hrunner
        (h.ready_of_prepare hdone)).2 e he

/-- After any moves, failed ones among them, a move stops only because the consumer gives up. -/
theorem isGivingUp_of_perform {b : Blueprint} {bound sink : Sink} {rows : Workspace}
    (h : b.Yields p bound) (hlength : p.rowLength < Size.bound)
    (hasRow : ∀ plane ∈ input, ∀ y < plane.height, plane.hasRow y)
    (hcheck : p.checkRun input n = .ok ())
    (hreserve : Workspace.reserve p.plans p.rowLength = .ok rows)
    (hprepare : p.sink.prepare n = .done sink) {moves : List Move} {move : Move}
    (hmoves : ∀ m ∈ move :: moves, m.worker < n ∧ ∃ tile < p.tileCount, m.step ∈ p.steps tile)
    {e : Failure} (he : (p.perform input move.worker move.step
      (p.persist input moves ⟨Array.replicate n rows, sink⟩)).failure = some e) :
    e.IsGivingUp := by
  have hinput := fed_of_checkRun hcheck hasRow
  have hframe : ∀ m ∈ move :: moves, m.worker < n ∧ p.InFrame m.step := by
    intro m hm
    obtain ⟨hworker, tile, -, hmem⟩ := hmoves m hm
    exact ⟨hworker, inFrame_of_mem_steps h.planned hmem⟩
  have hstart : p.Sound n ⟨Array.replicate n rows, sink⟩ :=
    sound_replicate (Workspace.shaped_of_reserve hreserve) (h.ready_of_prepare hprepare)
  have hsound := hstart.persist h.planned hlength hinput
    fun m hm ↦ hframe m (List.mem_cons_of_mem _ hm)
  obtain ⟨hworker, hstep⟩ := hframe move List.mem_cons_self
  exact (perform_keeps h.planned hlength hinput hworker hstep hsound).2 e he

/-- A run of a pipeline that was built stops for a reason of its own, and never because it was
misused: neither under a runner that hands out its tasks to whatever workers it likes, nor when any
workers make any steps of the tiles in any order and go on after failures. -/
theorem run_stops {b : Blueprint} (h : b.build.pipeline = .ok p) (side : b.tileSide < Size.bound)
    (length : p.rowLength < Size.bound)
    (memory : p.rowCount * p.rowLength * sampleBytes < Size.bound)
    (hasRow : ∀ plane ∈ input, ∀ y < plane.height, plane.hasRow y) :
    (∀ runner : Runner, runner.KeepsToTasks → ∀ e, (p.run input runner).failure = some e →
      p.Stops input runner.workers e) ∧
    ∀ n rows sink, p.checkRun input n = .ok () →
      Workspace.reserve p.plans p.rowLength = .ok rows → p.sink.prepare n = .done sink →
      ∀ (moves : List Move) (move : Move),
        (∀ m ∈ move :: moves, m.worker < n ∧ ∃ tile < p.tileCount, m.step ∈ p.steps tile) →
        ∀ e, (p.perform input move.worker move.step
          (p.persist input moves ⟨Array.replicate n rows, sink⟩)).failure = some e →
            e.IsGivingUp := by
  obtain ⟨bound, hyields⟩ := Blueprint.exists_yields h
  rw [← hyields.side_eq] at side
  constructor
  · intro runner hrunner e he
    exact stops_of_run hyields side length memory hasRow hrunner he
  · intro n rows sink hcheck hreserve hprepare moves move hmoves e he
    exact isGivingUp_of_perform hyields length hasRow hcheck hreserve hprepare hmoves he

/-- Two rows of three pixels, smoothed into an image in tiles of two columns. -/
theorem run_stops_smoothed :
    ∃ p, (Blueprint.build ⟨List.replicate 3 (3, 2), [.filter (.smooth .standard),
        .sink (.planar ⟨none, .free⟩)], 2, {}⟩).pipeline = .ok p ∧
      ∀ runner : Runner, runner.KeepsToTasks → ∀ e,
        (p.run (List.replicate 3 ⟨3, 2, 3, Array.replicate 6 .one, by decide, by decide⟩)
          runner).failure = some e →
        p.Stops (List.replicate 3 ⟨3, 2, 3, Array.replicate 6 .one, by decide, by decide⟩)
          runner.workers e :=
  ⟨_, rfl, (run_stops (b := ⟨List.replicate 3 (3, 2), [.filter (.smooth .standard),
    .sink (.planar ⟨none, .free⟩)], 2, {}⟩) rfl (by decide) (by decide) (by decide)
    (by decide)).1⟩

end Scanline.Pipeline
