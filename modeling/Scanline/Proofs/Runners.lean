import Scanline.Proofs.Outcome
import Scanline.Runner

/-!
# What runners keep

Whatever each task keeps, a runner keeps, and it fails only as its tasks fail: `Runner.run_keeps`.
For the pool this is an invariant of its atomic steps (`Pool.Sound`), so it holds in whichever order
the workers take them.
-/

namespace Scanline

variable {σ : Type} {I : σ → Prop} {F : Failure → Prop} {tasks : Nat}
  {task : Nat → Nat → σ → Outcome σ}

/-- What a worker of a pool may carry in each phase: the number of a task, and failures of
tasks. -/
def Phase.Sound (tasks : Nat) (F : Failure → Prop) : Phase → Prop
  | claiming | comparing _ => True
  | working index => index < tasks
  | clearing failure => F failure
  | exited failure => ∀ e, failure = some e → F e

namespace Pool

/-- A pool whose tasks have kept what they keep. -/
structure Sound (I : σ → Prop) (F : Failure → Prop) (tasks : Nat) (p : Pool σ) : Prop where
  /-- Every worker carries what it may. -/
  phases : ∀ phase ∈ p.phases, phase.Sound tasks F
  /-- The state is what tasks keep. -/
  state : I p.state

theorem Sound.move {p : Pool σ} (h : p.Sound I F tasks) {worker counter : Nat} {phase : Phase}
    {s : σ} (hphase : phase.Sound tasks F) (hs : I s) :
    (Pool.mk counter (p.phases.setIfInBounds worker phase) s).Sound I F tasks := by
  refine ⟨fun other hother ↦ ?_, hs⟩
  rcases Array.mem_or_eq_of_mem_setIfInBounds hother with hold | rfl
  · exact h.phases other hold
  · exact hphase

section Steps

variable (htask : ∀ index < tasks, ∀ worker s, I s → (task index worker s).Keeps I F)
include htask

/-- One step of one worker. -/
theorem Sound.step {p : Pool σ} (h : p.Sound I F tasks) (worker : Nat) :
    (step tasks task worker p).Sound I F tasks := by
  have hphase : ∀ phase, p.phases[worker]? = some phase → phase.Sound tasks F := fun phase hp ↦
    h.phases phase (Array.mem_of_getElem? hp)
  unfold Pool.step
  split
  case h_1 => exact h.move trivial h.state
  case h_2 index hp =>
    refine h.move ?_ h.state
    split
    case isTrue hlt => exact hlt
    case isFalse => intro e he; cases he
  case h_3 index hp =>
    have hkeeps := htask index (hphase _ hp) worker p.state h.state
    refine h.move ?_ hkeeps.1
    cases hfailure : (task index worker p.state).failure with
    | none => exact trivial
    | some e => exact hkeeps.2 e hfailure
  case h_4 failure hp =>
    refine h.move ?_ h.state
    intro e he
    cases he
    exact hphase _ hp
  case h_5 => exact h
  case h_6 => exact h

theorem Sound.steps {p : Pool σ} (h : p.Sound I F tasks) (order : List Nat) :
    (steps tasks task order p).Sound I F tasks := by
  induction order generalizing p with
  | nil => exact h
  | cons worker rest ih => exact ih (h.step htask worker)

/-- Rounds of all workers. -/
theorem Sound.rounds {p : Pool σ} (h : p.Sound I F tasks) (fuel : Nat) :
    (rounds tasks task fuel p).Sound I F tasks := by
  induction fuel generalizing p with
  | zero => exact h
  | succ fuel ih =>
    unfold Pool.rounds
    split
    · exact h
    · exact ih (h.steps htask _)

/-- What tasks keep, a pool keeps. -/
theorem run_keeps {s : σ} (hs : I s) (workers : Nat) :
    (run workers tasks task s).Keeps I F := by
  have hstart : (start workers s).Sound I F tasks := by
    refine ⟨fun phase hphase ↦ ?_, hs⟩
    rw [Array.eq_of_mem_replicate hphase]
    trivial
  have hend := hstart.rounds htask (3 * (tasks + 1))
  refine ⟨hend.state, fun e he ↦ ?_⟩
  obtain ⟨phase, hmem, hphase⟩ := List.exists_of_findSome?_eq_some he
  have hsound := hend.phases phase (Array.mem_toList_iff.1 hmem)
  cases phase with
  | exited failure => exact hsound e hphase
  | _ => cases hphase

end Steps

end Pool

namespace Runner

/-- A runner that hands out no tasks but those it was given. -/
def KeepsToTasks : Runner → Prop
  | inOrder | pool _ => True
  | scripted _ script => ∀ tasks, ∀ v ∈ (script tasks).visits, v.index < tasks

/-- What tasks keep, a runner keeps. -/
theorem run_keeps {r : Runner} (hr : r.KeepsToTasks)
    (htask : ∀ index < tasks, ∀ worker s, I s → (task index worker s).Keeps I F) {s : σ}
    (hs : I s) : (r.run tasks task s).Keeps I F := by
  cases r with
  | inOrder =>
    rw [run, Outcome.count_eq_each]
    refine Outcome.each_keeps ?_ hs
    intro index hindex s hs
    exact htask index (by simpa using hindex) 0 s hs
  | pool workers => exact Pool.run_keeps htask hs workers
  | scripted workers script =>
    rw [run, follow_eq_each]
    exact Outcome.each_keeps (fun v hv s hs ↦ htask v.index (hr tasks v hv) v.worker s hs) hs

end Runner

end Scanline
