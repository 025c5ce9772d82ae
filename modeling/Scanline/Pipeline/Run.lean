import Scanline.Pipeline.Worker
import Scanline.Runner

/-!
# Running a pipeline

A run checks its input, gets the sink and the workers' rows ready, and has the runner carry out
the tiles.  Whatever happens, the sink lets go of what it holds of others before the run
returns.  A tile is done row by row; `Pipeline.processTile_eq_each` is the same work over the
list of all its steps.
-/

namespace Scanline.Pipeline

variable (p : Pipeline)

/-- What a run works on: the rows of every worker, and the sink. -/
structure Progress where
  /-- The rows of each worker. -/
  workers : Array Workspace
  /-- The sink. -/
  sink : Sink

/-- One worker's step: it loads the channels that come into use, lets the stage work on the row,
and takes over what the stage wrote. -/
def perform (input : List Plane) (worker : Nat) (step : Step) (s : Progress) :
    Outcome Progress :=
  let ⟨workers, sink⟩ := s
  let rows := workers[worker]?.getD #[]
  if p.sourcesReady input step && p.windowsFit step rows then
    let rows := p.load input step rows
    match p.filters[step.stage]? with
    | some filter =>
      match filter.produce (p.rowsRead step rows) (p.rowsWritten step rows)
        (p.segment worker step) with
      | .ok written =>
        .done ⟨workers.setIfInBounds worker (p.takeOver step written rows), sink⟩
      | .error misuse => .misused ⟨workers, sink⟩ misuse
    | none =>
      let workers := workers.setIfInBounds worker rows
      (sink.receive (p.rowsRead step rows) (p.segment worker step)).map (Progress.mk workers)
  else .misused ⟨workers, sink⟩ .outOfRange

/-- One row of a tile, done by one worker. -/
def processRow (input : List Plane) (tile worker row : Nat) : Progress → Outcome Progress :=
  .each (p.perform input worker) (p.rowSteps tile row)

/-- One tile, done by one worker.  The row below a full tile must have a number. -/
def processTile (input : List Plane) (tile worker : Nat) (s : Progress) : Outcome Progress :=
  if worker < s.workers.size then
    match Size.ofNat (p.tileTop tile + p.tileSide) with
    | .ok _ => .count (p.processRow input tile worker) (p.tileTop tile) (p.tileRows tile) s
    | .error misuse => .misused s misuse
  else .faulted s (.pool (.unknownWorker worker s.workers.size))

/-- A known worker goes through the steps of its tile. -/
theorem processTile_eq_each (input : List Plane) {tile worker : Nat} {s : Progress}
    (known : worker < s.workers.size) (fits : p.tileTop tile + p.tileSide < Size.bound) :
    p.processTile input tile worker s = .each (p.perform input worker) (p.steps tile) s := by
  rw [processTile, if_pos known, Size.ofNat_of_lt fits, Outcome.count_eq_each, steps,
    Outcome.each_flatMap]
  rfl

/-- Checks the input, the workers and the memory they need. -/
def checkRun (input : List Plane) (workers : Nat) : Except Failure Unit := do
  if input.length ≠ p.channels then
    .error (.fault (.inconsistent (.planeCount p.channels input.length)))
  match input.findIdx? (·.size ≠ p.size) with
  | some c =>
    .error (.fault (.sizeMismatch c ((input[c]?.map Plane.size).getD p.size) p.size))
  | none => pure ()
  if workers = 0 then .error (.fault (.pool .emptyRunner))
  let bytes ← (p.rowMemory workers).mapError .misuse
  (p.limits.checkReserved bytes).mapError fun exceeded ↦ .fault (.limit exceeded)

/-- Reserves rows for every worker and carries out the tiles. -/
def processTiles (input : List Plane) (runner : Runner) (sink : Sink) : Outcome Sink :=
  match Workspace.reserve p.plans p.rowLength with
  | .error fault => .faulted sink fault
  | .ok rows =>
    match Size.ofNat p.tileCount with
    | .error misuse => .misused sink misuse
    | .ok tiles =>
      (runner.run tiles (p.processTile input)
        ⟨Array.replicate runner.workers rows, sink⟩).map Progress.sink

/-- Pushes a frame through the pipeline, and leaves the sink. -/
def run (input : List Plane) (runner : Runner) : Outcome Sink :=
  let o : Outcome Sink :=
    match p.checkRun input runner.workers with
    | .error failure => .failed p.sink failure
    | .ok () => (p.sink.prepare runner.workers).next (p.processTiles input runner)
  o.map Sink.release

end Scanline.Pipeline
