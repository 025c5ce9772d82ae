import Scanline.Outcome

/-!
# A pool of workers

Workers draw task numbers from one counter until there are none left.  A worker goes through
atomic steps: it takes the counter's number and raises it, compares the number with the number
of tasks, and carries the task out; a worker whose task failed sets the counter to the end and
exits.  `Pool.step` is one such step of one worker, so that any order of steps is a list of
workers.
-/

namespace Scanline

/-- Where a worker is in its loop. -/
inductive Phase where
  /-- About to take a number. -/
  | claiming
  /-- About to compare the number it took. -/
  | comparing (index : Nat)
  /-- About to carry out a task. -/
  | working (index : Nat)
  /-- About to set the counter to the end, because of a failure. -/
  | clearing (failure : Failure)
  /-- Out of its loop, with a failure or none. -/
  | exited (failure : Option Failure)
deriving DecidableEq, Repr

/-- The counter, the workers, and the state that the tasks change. -/
structure Pool (σ : Type) where
  /-- The next number to take. -/
  counter : Nat
  /-- Where each worker is. -/
  phases : Array Phase
  /-- What the tasks have made so far. -/
  state : σ

namespace Pool

variable {σ : Type}

/-- All workers are about to take their first number. -/
def start (workers : Nat) (s : σ) : Pool σ := ⟨0, Array.replicate workers .claiming, s⟩

/-- Where a worker goes after its task. -/
def afterTask : Option Failure → Phase
  | none => .claiming
  | some failure => .clearing failure

/-- One atomic step of a worker. -/
def step (tasks : Nat) (task : Nat → Nat → σ → Outcome σ) (worker : Nat) (p : Pool σ) :
    Pool σ :=
  match p.phases[worker]? with
  | some .claiming =>
    { p with
      counter := p.counter + 1
      phases := p.phases.setIfInBounds worker (.comparing p.counter) }
  | some (.comparing index) =>
    { p with
      phases := p.phases.setIfInBounds worker
        (if index < tasks then .working index else .exited none) }
  | some (.working index) =>
    let o := task index worker p.state
    { p with
      state := o.state
      phases := p.phases.setIfInBounds worker (afterTask o.failure) }
  | some (.clearing failure) =>
    { p with
      counter := tasks
      phases := p.phases.setIfInBounds worker (.exited (some failure)) }
  | some (.exited _) | none => p

/-- The steps of a list of workers, one after another. -/
def steps (tasks : Nat) (task : Nat → Nat → σ → Outcome σ) (order : List Nat) (p : Pool σ) :
    Pool σ :=
  order.foldl (fun p worker ↦ step tasks task worker p) p

/-- Whether every worker has left its loop. -/
def finished (p : Pool σ) : Bool :=
  p.phases.all fun
    | .exited _ => true
    | _ => false

/-- The failure of the first worker that has one. -/
def failure? (p : Pool σ) : Option Failure :=
  p.phases.toList.findSome? fun
    | .exited failure => failure
    | _ => none

/-- Every worker makes one step, in turn. -/
def round (tasks : Nat) (task : Nat → Nat → σ → Outcome σ) (p : Pool σ) : Pool σ :=
  steps tasks task (List.range p.phases.size) p

/-- Rounds until all workers have left their loops, at most as many as the fuel says. -/
def rounds (tasks : Nat) (task : Nat → Nat → σ → Outcome σ) : Nat → Pool σ → Pool σ
  | 0, p => p
  | fuel + 1, p => if p.finished then p else rounds tasks task fuel (round tasks task p)

/-- Lets the workers take turns until all have left their loops.  No worker takes more than
`tasks + 1` numbers, and each number costs it at most three steps. -/
def run (workers tasks : Nat) (task : Nat → Nat → σ → Outcome σ) (s : σ) : Outcome σ :=
  let p := rounds tasks task (3 * (tasks + 1)) (start workers s)
  ⟨p.state, p.failure?⟩

end Pool

end Scanline
