import Scanline.Runner.Pool

/-!
# Runners

A runner carries out numbered tasks, naming a worker for each.  Tasks of one worker never
overlap, and the first failure ends the run.  A script names its visits one by one, so that a
run that fails early never looks at the rest; `Runner.follow_eq_each` is the same run over the
list of all visits.
-/

namespace Scanline

/-- One task, handed to one worker. -/
structure Visit where
  /-- The number of the task. -/
  index : Nat
  /-- The worker. -/
  worker : Nat
deriving DecidableEq, Repr

/-- Visits in a fixed order, each found by its place. -/
structure Script where
  /-- The number of visits. -/
  length : Nat
  /-- The visit at a place. -/
  visit : Nat → Visit

namespace Script

/-- The visits in order. -/
def visits (script : Script) : List Visit := (List.range script.length).map script.visit

/-- The script of a list of visits. -/
def ofList (visits : List Visit) : Script := ⟨visits.length, fun k ↦ visits[k]?.getD ⟨0, 0⟩⟩

@[simp] theorem visits_ofList (visits : List Visit) : (ofList visits).visits = visits :=
  List.ext_getElem (by simp [Script.visits, ofList]) fun k _ h ↦ by
    simp [Script.visits, ofList, h]

end Script

/-- Who carries out tasks, and in which order. -/
inductive Runner where
  /-- One worker, in ascending order. -/
  | inOrder
  /-- A pool of workers that draw from one counter. -/
  | pool (workers : Nat)
  /-- Any order and choice of workers, one task after another. -/
  | scripted (workers : Nat) (script : Nat → Script)

namespace Runner

/-- A pool, which must have a worker. -/
def ofPool (workers : Nat) : Except Fault Runner :=
  if workers = 0 then .error (.pool .noWorkers) else .ok (.pool workers)

/-- How many workers the runner says it has. -/
def workers : Runner → Nat
  | inOrder => 1
  | pool workers => workers
  | scripted workers _ => workers

variable {σ : Type}

/-- Carries out one visit. -/
def attend (task : Nat → Nat → σ → Outcome σ) (v : Visit) : σ → Outcome σ :=
  task v.index v.worker

/-- Carries out the visits of a script one after another. -/
def follow (task : Nat → Nat → σ → Outcome σ) (script : Script) (s : σ) : Outcome σ :=
  .count (fun k ↦ attend task (script.visit k)) 0 script.length s

/-- Carries out tasks, each given its number and its worker. -/
def run (r : Runner) (tasks : Nat) (task : Nat → Nat → σ → Outcome σ) (s : σ) : Outcome σ :=
  match r with
  | inOrder => .count (fun index ↦ task index 0) 0 tasks s
  | pool workers => Pool.run workers tasks task s
  | scripted _ script => follow task (script tasks) s

/-- A script is followed visit by visit. -/
theorem follow_eq_each (task : Nat → Nat → σ → Outcome σ) (script : Script) (s : σ) :
    follow task script s = .each (attend task) script.visits s := by
  rw [follow, Outcome.count_eq_each, Script.visits, Outcome.each_map, List.range_eq_range']

end Runner

end Scanline
