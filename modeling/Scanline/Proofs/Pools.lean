import Scanline.Proofs.Deeds
import Scanline.Size

/-!
# Pools whose workers take turns

The ledger of a pool says who took which number and which task was carried out.  To this come how
far the counter can go (`Pool.counter_le`), what the tasks make of the state (`Pool.replay_steps`),
and that workers come out of their loops once each has had enough turns
(`Pool.finished_of_turns`), so that a run of the pool is one of these orders.

Main statement: whatever the order, every task is carried out at most once and by the worker that
took its number, and a pool whose workers are all out of their loops failed exactly if some task
failed or was left out (`Pool.steps_attend_once`).
-/

namespace Scanline

/-- Whether a worker has taken a number beyond all tasks. -/
def Phase.isBeyond (tasks : Nat) : Phase → Bool
  | comparing index => tasks ≤ index
  | exited none => true
  | _ => false

/-- The most steps that a worker can still make. -/
def Phase.stepsLeft (tasks counter : Nat) : Phase → Nat
  | claiming => 3 * (tasks - counter) + 2
  | comparing index => if index < tasks then 3 * (tasks - counter) + 4 else 1
  | working _ => 3 * (tasks - counter) + 3
  | clearing _ => 1
  | exited _ => 0

/-- A worker has fewer steps to make when fewer numbers are left. -/
theorem Phase.stepsLeft_le {tasks counter counter' : Nat} (h : tasks - counter' ≤ tasks - counter)
    (phase : Phase) : phase.stepsLeft tasks counter' ≤ phase.stepsLeft tasks counter := by
  cases phase with
  | comparing index =>
    simp only [stepsLeft]
    split <;> omega
  | _ =>
    simp only [stepsLeft]
    omega

namespace Pool

variable {σ : Type} {tasks : Nat} {task : Nat → Nat → σ → Outcome σ} {p : Pool σ} {worker : Nat}

/-! ## The counter -/

/-- Each worker has raised the counter beyond the tasks at most once since it was there. -/
def Bounded (tasks : Nat) (p : Pool σ) : Prop :=
  p.counter ≤ tasks + p.phases.countP (Phase.isBeyond tasks)

/-- A worker that moved on leaves the counter where it may be: not beyond the tasks, or no further
than the workers that are beyond them account for. -/
theorem Bounded.moved (h : p.Bounded tasks) {phase next : Phase} {counter : Nat} {s : σ}
    (hphase : p.phases[worker]? = some phase)
    (hcounter : counter ≤ tasks ∨ counter + (phase.isBeyond tasks).toNat ≤
      p.counter + (next.isBeyond tasks).toNat) :
    (Pool.mk counter (p.phases.setIfInBounds worker next) s).Bounded tasks := by
  obtain ⟨hlt, rfl⟩ := Array.getElem?_eq_some_iff.1 hphase
  have hcount : (p.phases.setIfInBounds worker next).countP (Phase.isBeyond tasks) =
      p.phases.countP (Phase.isBeyond tasks) -
        (if p.phases[worker].isBeyond tasks then 1 else 0) +
        (if next.isBeyond tasks then 1 else 0) := by
    rw [Array.setIfInBounds_def, dif_pos hlt, Array.countP_set]
  unfold Bounded at h ⊢
  rw [hcount]
  cases hold : p.phases[worker].isBeyond tasks <;> cases hnew : next.isBeyond tasks <;>
    simp only [hold, hnew, Bool.toNat_true, Bool.toNat_false, if_true, Bool.false_eq_true,
      if_false] at hcounter ⊢ <;> omega

@[simp] theorem size_phases_step (tasks : Nat) (task : Nat → Nat → σ → Outcome σ) (worker : Nat)
    (p : Pool σ) : (step tasks task worker p).phases.size = p.phases.size := by
  unfold step
  split <;> simp

@[simp] theorem size_phases_steps (tasks : Nat) (task : Nat → Nat → σ → Outcome σ)
    (order : List Nat) (p : Pool σ) : (steps tasks task order p).phases.size = p.phases.size := by
  induction order generalizing p with
  | nil => rfl
  | cons worker rest ih => exact (ih _).trans (size_phases_step tasks task worker p)

/-- One step of one worker. -/
theorem Bounded.step (h : p.Bounded tasks) (task : Nat → Nat → σ → Outcome σ) (worker : Nat) :
    (step tasks task worker p).Bounded tasks := by
  cases hphase : p.phases[worker]? with
  | none => simpa only [Pool.step, hphase] using h
  | some phase =>
    cases phase with
    | claiming =>
      simp only [Pool.step, hphase]
      refine h.moved hphase ?_
      rcases Nat.lt_or_ge p.counter tasks with hlt | hge
      · exact .inl hlt
      · exact .inr (by simp [Phase.isBeyond, hge])
    | comparing index =>
      simp only [Pool.step, hphase]
      refine h.moved hphase (.inr ?_)
      split_ifs with hlt
      · simp [Phase.isBeyond, Nat.not_le.2 hlt]
      · simp [Phase.isBeyond, Nat.le_of_not_lt hlt]
    | working index =>
      simp only [Pool.step, hphase]
      refine h.moved hphase (.inr ?_)
      cases (task index worker p.state).failure <;> simp [Phase.isBeyond, afterTask]
    | clearing e =>
      simp only [Pool.step, hphase]
      exact h.moved hphase (.inl (Nat.le_refl _))
    | exited failure => simpa only [Pool.step, hphase] using h

theorem Bounded.steps (h : p.Bounded tasks) (task : Nat → Nat → σ → Outcome σ)
    (order : List Nat) : (steps tasks task order p).Bounded tasks := by
  induction order generalizing p with
  | nil => exact h
  | cons worker rest ih => exact ih (h.step task worker)

/-- The counter is never raised beyond the tasks by more than the number of workers. -/
theorem counter_le (task : Nat → Nat → σ → Outcome σ) (workers : Nat) (s : σ) (order : List Nat) :
    (steps tasks task order (start workers s)).counter ≤ tasks + workers := by
  have hstart : (start workers s).Bounded tasks := Nat.zero_le _
  have hcounter := hstart.steps task order
  have hcount : (steps tasks task order (start workers s)).phases.countP (Phase.isBeyond tasks) ≤
      (steps tasks task order (start workers s)).phases.size := Array.countP_le_size
  rw [size_phases_steps, start, Array.size_replicate] at hcount
  exact Nat.le_trans hcounter (Nat.add_le_add_left hcount tasks)

/-! ## Deeds and tasks -/

section Replay

variable {s : σ} {past : List Deed}

/-- One step of one worker does to the state what its deed says. -/
theorem replay_step (tasks : Nat) (hturn : InTurn (Deed.Follows task s) past)
    (hstate : p.state = Deed.replay task s past) (worker : Nat) :
    InTurn (Deed.Follows task s) (past ++ (deed? task worker p).toList) ∧
      (step tasks task worker p).state =
        Deed.replay task s (past ++ (deed? task worker p).toList) := by
  cases hphase : p.phases[worker]? with
  | none => simpa [step, deed?, hphase] using ⟨hturn, hstate⟩
  | some phase =>
    cases phase with
    | claiming =>
      simp only [step, deed?, hphase, Option.toList_some, inTurn_concat_iff]
      exact ⟨⟨hturn, trivial⟩, by simpa [Deed.replay] using hstate⟩
    | comparing index => simpa [step, deed?, hphase] using ⟨hturn, hstate⟩
    | working index =>
      simp only [step, deed?, hphase, Option.toList_some, inTurn_concat_iff]
      exact ⟨⟨hturn, by rw [Deed.Follows, ← hstate]⟩, by simp [Deed.replay, hstate]⟩
    | clearing e =>
      simp only [step, deed?, hphase, Option.toList_some, inTurn_concat_iff]
      exact ⟨⟨hturn, trivial⟩, by simpa [Deed.replay] using hstate⟩
    | exited failure => simpa [step, deed?, hphase] using ⟨hturn, hstate⟩

/-- Steps of any workers do to the state what the deeds say. -/
theorem replay_steps (hturn : InTurn (Deed.Follows task s) past)
    (hstate : p.state = Deed.replay task s past) (order : List Nat) :
    InTurn (Deed.Follows task s) (past ++ deeds tasks task order p) ∧
      (steps tasks task order p).state =
        Deed.replay task s (past ++ deeds tasks task order p) := by
  induction order generalizing p past with
  | nil => simpa [steps, deeds] using ⟨hturn, hstate⟩
  | cons worker rest ih =>
    obtain ⟨hstep, hnext⟩ := replay_step tasks hturn hstate worker
    have hrest := ih hstep hnext
    rwa [List.append_assoc] at hrest

end Replay

/-- A deed is that of a worker of the pool. -/
theorem worker_lt_of_mem_deeds {order : List Nat} {deed : Deed}
    (hmem : deed ∈ deeds tasks task order p) : deed.worker < p.phases.size := by
  induction order generalizing p with
  | nil => simp [deeds] at hmem
  | cons worker rest ih =>
    rcases List.mem_append.1 hmem with hmem | hmem
    · rw [Option.mem_toList] at hmem
      unfold deed? at hmem
      cases hphase : p.phases[worker]? with
      | none =>
        rw [hphase] at hmem
        cases hmem
      | some phase =>
        have hlt : worker < p.phases.size := (Array.getElem?_eq_some_iff.1 hphase).1
        rw [hphase] at hmem
        cases phase <;> cases hmem <;> exact hlt
    · rw [← size_phases_step tasks task worker p]
      exact ih hmem

/-! ## Pools that are done -/

theorem exists_exited_of_finished (h : p.finished) {phase : Phase}
    (hphase : p.phases[worker]? = some phase) : ∃ failure, phase = .exited failure := by
  have hexited := Array.all_eq_true_iff_forall_mem.1 h phase (Array.mem_of_getElem? hphase)
  cases phase with
  | exited failure => exact ⟨failure, rfl⟩
  | _ => simp at hexited

theorem failure?_eq_none_iff : p.failure? = none ↔
    ∀ (worker : Nat) (e : Failure), p.phases[worker]? ≠ some (.exited (some e)) := by
  unfold failure?
  rw [List.findSome?_eq_none_iff]
  constructor
  · intro h worker e hphase
    have hnone := h _ (Array.mem_toList_iff.2 (Array.mem_of_getElem? hphase))
    simp at hnone
  · intro h phase hmem
    obtain ⟨worker, hphase⟩ := Array.mem_iff_getElem?.1 (Array.mem_toList_iff.1 hmem)
    cases phase with
    | exited failure =>
      cases failure with
      | none => rfl
      | some e => exact absurd hphase (h worker e)
    | _ => rfl

theorem exists_exited_of_failure? {e : Failure} (h : p.failure? = some e) :
    ∃ worker : Nat, p.phases[worker]? = some (.exited (some e)) := by
  obtain ⟨phase, hmem, hphase⟩ := List.exists_of_findSome?_eq_some h
  obtain ⟨worker, hworker⟩ := Array.mem_iff_getElem?.1 (Array.mem_toList_iff.1 hmem)
  cases phase with
  | exited failure =>
    simp only at hphase
    subst hphase
    exact ⟨worker, hworker⟩
  | _ => cases hphase

theorem Ledger.exists_attended {past : List Deed} (h : p.Ledger tasks past) {e : Failure}
    (he : p.failure? = some e) : ∃ v, .attended v (some e) ∈ past := by
  obtain ⟨worker, hphase⟩ := exists_exited_of_failure? he
  obtain ⟨index, hmem⟩ := h.vouched worker _ hphase
  exact ⟨⟨index, worker⟩, hmem⟩

/-- A pool that is done has no failure exactly if every task was carried out without one. -/
theorem Ledger.failure?_eq_none_iff {past : List Deed} (h : p.Ledger tasks past)
    (hpos : 0 < p.phases.size) (hdone : p.finished) : p.failure? = none ↔
      ∀ index < tasks, ∃ worker, .attended ⟨index, worker⟩ none ∈ past := by
  rw [Pool.failure?_eq_none_iff]
  constructor
  · intro hnone index hindex
    have hfailed : ∀ v e, .attended v (some e) ∉ past := by
      intro v e hmem
      rcases h.stopped v.index v.worker e hmem with hphase | hphase
      · obtain ⟨failure, hexited⟩ := exists_exited_of_finished hdone hphase
        cases hexited
      · exact hnone v.worker e hphase
    -- Any worker that is out of its loop without a failure has seen the end.
    obtain ⟨first, hfirst⟩ : ∃ phase, p.phases[0]? = some phase :=
      ⟨_, Array.getElem?_eq_getElem hpos⟩
    obtain ⟨failure, rfl⟩ := exists_exited_of_finished hdone hfirst
    have hcounter : tasks ≤ p.counter := by
      cases failure with
      | none => exact h.vouched 0 _ hfirst
      | some e => exact absurd hfirst (hnone 0 e)
    rcases h.pending hfailed index hindex (by omega) with hattended | ⟨worker, hphase | hphase⟩
    · exact hattended
    · obtain ⟨failure, hexited⟩ := exists_exited_of_finished hdone hphase
      cases hexited
    · obtain ⟨failure, hexited⟩ := exists_exited_of_finished hdone hphase
      cases hexited
  · intro hall worker e hphase
    obtain ⟨index, hmem⟩ := h.vouched worker _ hphase
    obtain ⟨hindex, -⟩ := Deed.took_of_attended h.inTurn hmem
    obtain ⟨other, hother⟩ := hall index hindex
    cases Deed.eq_of_attended h.inTurn hmem hother rfl

/-! ## Turns -/

/-- How many steps a worker of the pool can still make. -/
def stepsLeft (tasks : Nat) (p : Pool σ) (worker : Nat) : Nat :=
  (p.phases[worker]?.map (Phase.stepsLeft tasks p.counter)).getD 0

/-- Numbers run out and the worker that moved has a step less to make. -/
theorem stepsLeft_moved {phase next : Phase} {counter : Nat} {s : σ}
    (hphase : p.phases[worker]? = some phase) (hcounter : tasks - counter ≤ tasks - p.counter)
    (hnext : next.stepsLeft tasks counter + 1 ≤ phase.stepsLeft tasks p.counter) (other : Nat) :
    (Pool.mk counter (p.phases.setIfInBounds worker next) s).stepsLeft tasks other +
      [worker].count other ≤ p.stepsLeft tasks other := by
  unfold stepsLeft
  rw [getElem?_moved hphase]
  split_ifs with heq
  · subst heq
    rw [hphase, List.count_singleton_self]
    exact hnext
  · rw [List.count_eq_zero_of_not_mem (by simpa using heq)]
    cases p.phases[other]? with
    | none => exact Nat.le_refl _
    | some old => exact old.stepsLeft_le hcounter

/-- A step is one step less to make. -/
theorem stepsLeft_step (task : Nat → Nat → σ → Outcome σ) (worker other : Nat) (p : Pool σ) :
    (step tasks task worker p).stepsLeft tasks other ≤
      p.stepsLeft tasks other - [worker].count other := by
  have hout : p.stepsLeft tasks worker = 0 →
      p.stepsLeft tasks other ≤ p.stepsLeft tasks other - [worker].count other := by
    intro hzero
    by_cases heq : other = worker
    · rw [heq, hzero]
      exact Nat.zero_le _
    · rw [List.count_eq_zero_of_not_mem (by simpa using heq)]
      exact Nat.le_refl _
  cases hphase : p.phases[worker]? with
  | none =>
    simp only [step, hphase]
    exact hout (by rw [stepsLeft, hphase]; rfl)
  | some phase =>
    cases phase with
    | claiming =>
      simp only [step, hphase]
      refine Nat.le_sub_of_add_le (stepsLeft_moved hphase (by omega) ?_ other)
      simp only [Phase.stepsLeft]
      split <;> omega
    | comparing index =>
      simp only [step, hphase]
      refine Nat.le_sub_of_add_le (stepsLeft_moved hphase (Nat.le_refl _) ?_ other)
      by_cases hlt : index < tasks
      · simp only [Phase.stepsLeft, if_pos hlt]
        omega
      · simp only [Phase.stepsLeft, if_neg hlt]
        omega
    | working index =>
      simp only [step, hphase]
      refine Nat.le_sub_of_add_le (stepsLeft_moved hphase (Nat.le_refl _) ?_ other)
      cases (task index worker p.state).failure <;> simp only [afterTask, Phase.stepsLeft] <;> omega
    | clearing e =>
      simp only [step, hphase]
      exact Nat.le_sub_of_add_le (stepsLeft_moved hphase (by omega) (Nat.le_refl _) other)
    | exited failure =>
      simp only [step, hphase]
      exact hout (by rw [stepsLeft, hphase]; rfl)

/-- Each turn of a worker is one step less to make. -/
theorem stepsLeft_steps (tasks : Nat) (task : Nat → Nat → σ → Outcome σ) (order : List Nat)
    (other : Nat) (p : Pool σ) : (steps tasks task order p).stepsLeft tasks other ≤
      p.stepsLeft tasks other - order.count other := by
  induction order generalizing p with
  | nil => exact Nat.le_refl _
  | cons worker rest ih =>
    calc (steps tasks task (worker :: rest) p).stepsLeft tasks other
        ≤ (step tasks task worker p).stepsLeft tasks other - rest.count other := ih _
      _ ≤ p.stepsLeft tasks other - [worker].count other - rest.count other :=
        Nat.sub_le_sub_right (stepsLeft_step task worker other p) _
      _ = p.stepsLeft tasks other - (worker :: rest).count other := by
        rw [Nat.sub_sub, ← List.count_append, List.singleton_append]

/-- A pool is done once each worker has had as many turns as it can make steps. -/
theorem finished_of_turns {workers : Nat} (task : Nat → Nat → σ → Outcome σ) (s : σ)
    {order : List Nat} (turns : ∀ worker < workers, 3 * tasks + 2 ≤ order.count worker) :
    (steps tasks task order (start workers s)).finished := by
  refine Array.all_eq_true_iff_forall_mem.2 fun phase hmem ↦ ?_
  obtain ⟨worker, hphase⟩ := Array.mem_iff_getElem?.1 hmem
  have hworker : worker < workers := by
    have hlt := (Array.getElem?_eq_some_iff.1 hphase).1
    rwa [size_phases_steps, start, Array.size_replicate] at hlt
  have hleft := stepsLeft_steps tasks task order worker (start workers s)
  have hstart : (start workers s).stepsLeft tasks worker = 3 * tasks + 2 := by
    simp [stepsLeft, start, hworker, Phase.stepsLeft]
  rw [hstart, stepsLeft, hphase] at hleft
  have hturns := turns worker hworker
  have hzero : phase.stepsLeft tasks (steps tasks task order (start workers s)).counter = 0 := by
    simp only [Option.map_some, Option.getD_some] at hleft
    omega
  cases phase with
  | exited failure => rfl
  | comparing index =>
    simp only [Phase.stepsLeft] at hzero
    split at hzero <;> omega
  | _ => simp [Phase.stepsLeft] at hzero

/-- Rounds are steps in an order in which every worker has a turn in each round, unless all of them
are out of their loops before. -/
theorem exists_order_of_rounds (task : Nat → Nat → σ → Outcome σ) (fuel : Nat) (p : Pool σ) :
    ∃ order, rounds tasks task fuel p = steps tasks task order p ∧
      ((steps tasks task order p).finished ∨
        ∀ worker < p.phases.size, fuel ≤ order.count worker) := by
  induction fuel generalizing p with
  | zero => exact ⟨[], rfl, .inr fun worker _ ↦ Nat.zero_le _⟩
  | succ fuel ih =>
    unfold rounds
    split
    case isTrue hdone => exact ⟨[], rfl, .inl hdone⟩
    case isFalse =>
      obtain ⟨rest, hrest, hturns⟩ := ih (round tasks task p)
      have hsteps : steps tasks task (List.range p.phases.size ++ rest) p =
          steps tasks task rest (round tasks task p) := List.foldl_append
      refine ⟨List.range p.phases.size ++ rest, by rw [hrest, hsteps], ?_⟩
      rw [hsteps]
      refine hturns.imp_right fun hcount worker hworker ↦ ?_
      have hlater := hcount worker (by rwa [round, size_phases_steps])
      rw [List.count_append, List.count_range, if_pos hworker]
      omega

/-- Workers that take turns come to the end: a run of the pool is what one of the orders leaves, in
which all of them are out of their loops. -/
theorem exists_order_of_run (workers : Nat) (task : Nat → Nat → σ → Outcome σ) (s : σ) :
    ∃ order, (steps tasks task order (start workers s)).finished ∧
      run workers tasks task s =
        ⟨(steps tasks task order (start workers s)).state,
          (steps tasks task order (start workers s)).failure?⟩ := by
  obtain ⟨order, horder, hturns⟩ :=
    exists_order_of_rounds task (3 * (tasks + 1)) (start workers s)
  refine ⟨order, ?_, by rw [run, horder]⟩
  rcases hturns with hdone | hcount
  · exact hdone
  · refine finished_of_turns task s fun worker hworker ↦ ?_
    have hturns := hcount worker (by rwa [start, Array.size_replicate])
    omega

/-! ## Every order -/

/-- A pool of `workers` workers that the deeds so far have brought from `s` to where it is. -/
structure Accounted (tasks workers : Nat) (task : Nat → Nat → σ → Outcome σ) (s : σ)
    (past : List Deed) (p : Pool σ) : Prop where
  /-- Every deed fits those before it. -/
  inTurn : InTurn (Deed.Fits tasks) past
  /-- Every task failed as it does on what the tasks before it left. -/
  follows : InTurn (Deed.Follows task s) past
  /-- The state is what the tasks that were carried out left. -/
  state_eq : p.state = Deed.replay task s past
  /-- Only workers of the pool do anything. -/
  worker_lt : ∀ deed ∈ past, deed.worker < workers
  /-- The counter stays a size. -/
  counter_lt : p.counter < Size.bound
  /-- Once all workers are out of their loops, there is no failure exactly if every task was carried
  out and did not fail. -/
  failure?_eq_none_iff : p.finished → (p.failure? = none ↔
    ∀ index < tasks, ∃ worker, .attended ⟨index, worker⟩ none ∈ past)
  /-- A failure is that of a task that was carried out. -/
  exists_attended : ∀ e, p.failure? = some e → ∃ v, .attended v (some e) ∈ past

/-- Workers may make their steps in any order: no task is carried out twice or by another worker
than the one that took its number, and no number of a task is taken after a worker whose task failed
has set the counter to the end.  A run of the pool is one of these orders, in which all workers come
out of their loops. -/
theorem steps_attend_once {workers : Nat} (pos : 0 < workers)
    (bound : tasks + workers < Size.bound) (task : Nat → Nat → σ → Outcome σ) (s : σ) :
    (∀ order, (steps tasks task order (start workers s)).Accounted tasks workers task s
      (deeds tasks task order (start workers s))) ∧
    ∃ order, (steps tasks task order (start workers s)).finished ∧
      run workers tasks task s =
        ⟨(steps tasks task order (start workers s)).state,
          (steps tasks task order (start workers s)).failure?⟩ := by
  refine ⟨fun order ↦ ?_, exists_order_of_run workers task s⟩
  have hsize : (start workers s).phases.size = workers := Array.size_replicate
  have hledger := (Ledger.start tasks workers s).steps task order
  obtain ⟨hfollows, hstate⟩ :
      InTurn (Deed.Follows task s) ([] ++ deeds tasks task order (start workers s)) ∧
        (steps tasks task order (start workers s)).state =
          Deed.replay task s ([] ++ deeds tasks task order (start workers s)) :=
    replay_steps inTurn_nil rfl order
  rw [List.nil_append] at hledger hfollows hstate
  refine ⟨hledger.inTurn, hfollows, hstate, ?_, ?_, ?_, ?_⟩
  · intro deed hmem
    rw [← hsize]
    exact worker_lt_of_mem_deeds hmem
  · exact Nat.lt_of_le_of_lt (counter_le task workers s order) bound
  · exact hledger.failure?_eq_none_iff (by rwa [size_phases_steps, hsize])
  · intro e he
    exact hledger.exists_attended he

/-- Two workers and three tasks, the second of which fails after the other worker has taken a number
beyond the tasks: the counter is lowered from 4 to 3. -/
theorem steps_attend_once_lowered :
    let task : Nat → Nat → Nat → Outcome Nat := fun index worker s ↦
      if index = 1 then .faulted s (.pool .noWorkers) else .done (s + worker)
    let order := [0, 1, 0, 1, 0, 0, 0, 0, 0, 1, 1, 0]
    (steps 3 task order (start 2 0)).finished ∧
      deeds 3 task order (start 2 0) =
        [.took ⟨0, 0⟩, .took ⟨1, 1⟩, .attended ⟨0, 0⟩ none, .took ⟨2, 0⟩, .attended ⟨2, 0⟩ none,
          .took ⟨3, 0⟩, .attended ⟨1, 1⟩ (some (.fault (.pool .noWorkers))), .cleared 1] ∧
      (steps 3 task order (start 2 0)).Accounted 3 2 task 0 (deeds 3 task order (start 2 0)) :=
  ⟨by decide +kernel, by decide +kernel, (steps_attend_once (by decide) (by decide) _ 0).1 _⟩

end Pool

end Scanline
