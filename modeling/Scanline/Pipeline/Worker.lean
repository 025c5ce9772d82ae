import Scanline.Pipeline.Basic
import Scanline.Row.Reflection

/-!
# A worker's rows

A worker keeps two rows for every channel in use: the front one, which stages read, and the
back one, which a stage that changes the channel fills; the two then change places.  The
first pixel of a tile sits in both at the offset of the widest border.
-/

namespace Scanline

/-- The rows of one channel. -/
structure RowPair where
  /-- The row that is read. -/
  front : Row
  /-- The row that is written; empty if no stage changes the channel. -/
  back : Row
deriving DecidableEq, Repr

/-- A worker's rows by channel; none for a channel that no stage uses. -/
abbrev Workspace := Array (Option RowPair)

namespace Workspace

/-- Reserves the rows of one channel. -/
def reserveChannel (length : Nat) (plan : Plan) : Except Fault (Option RowPair) :=
  if plan.inUse then do
    let front ← Storage.workerRow.reserve length
    let back ← Storage.workerRow.reserve (if plan.changed then length else 0)
    return some ⟨front, back⟩
  else return none

/-- Reserves the rows of all channels. -/
def reserve (plans : List Plan) (length : Nat) : Except Fault Workspace := do
  return (← plans.mapM (reserveChannel length)).toArray

end Workspace

namespace Pipeline

variable (p : Pipeline)

/-- Whether channel `c` is loaded at a stage. -/
def loadsAt (stage c : Nat) : Bool := (p.planAt c).first = some stage

/-- Whether channel `c` is handed to a stage. -/
def deliversAt (stage c : Nat) : Bool := (p.planAt c).spans stage && (p.modeAt stage c).reads

/-- Whether all planes hold the row that a step loads from them. -/
def sourcesReady (input : List Plane) (step : Step) : Bool :=
  input.zipIdx.all fun (plane, c) ↦ !p.loadsAt step.stage c || plane.hasRow step.row

/-- Whether a row holds the pixels of a step and `pad` further samples to either side. -/
def holdsWindow (row : Row) (pad : Nat) (step : Step) : Bool :=
  pad ≤ p.paddingAt 0 && p.paddingAt 0 + step.length + pad ≤ row.size

/-- Whether a worker's rows hold all that a step loads, reads and writes. -/
def windowsFit (step : Step) (rows : Workspace) : Bool :=
  rows.zipIdx.all fun (slot, c) ↦ slot.all fun ch ↦
    (!p.loadsAt step.stage c || p.holdsWindow ch.front (p.planAt c).border step) &&
    (!p.deliversAt step.stage c ||
      p.holdsWindow ch.front (p.paddingAt step.stage) step &&
      (!(p.modeAt step.stage c).changes ||
        p.holdsWindow ch.back (p.paddingAt (step.stage + 1)) step))

/-- The samples that a step loads of a channel, border included. -/
def loaded (plane : Plane) (border : Nat) (step : Step) : Row :=
  reflectedRun (plane.samplesOf step.row) (step.column - border) (step.length + 2 * border)

/-- Loads the channels whose first use is at hand. -/
def load (input : List Plane) (step : Step) (rows : Workspace) : Workspace :=
  rows.mapIdx fun c slot ↦
    match slot, input[c]? with
    | some ch, some plane =>
      if p.loadsAt step.stage c then
        let border := (p.planAt c).border
        some { ch with
          front := overwrite ch.front (p.paddingAt 0 - border) (loaded plane border step) }
      else slot
    | _, _ => slot

/-- The part of a row that lies within `pad` samples of the tile. -/
def window (row : Row) (pad : Nat) (step : Step) : Row :=
  row.extract (p.paddingAt 0 - pad) (p.paddingAt 0 + step.length + pad)

/-- The rows that a stage reads. -/
def rowsRead (step : Step) (rows : Workspace) : Rows :=
  { slots := rows.mapIdx fun c slot ↦
      if p.deliversAt step.stage c then
        slot.map fun ch ↦ p.window ch.front (p.paddingAt step.stage) step
      else none
    pad := p.paddingAt step.stage }

/-- The rows that a stage writes. -/
def rowsWritten (step : Step) (rows : Workspace) : Rows :=
  { slots := rows.mapIdx fun c slot ↦
      if p.deliversAt step.stage c && (p.modeAt step.stage c).changes then
        slot.map fun ch ↦ p.window ch.back (p.paddingAt (step.stage + 1)) step
      else none
    pad := p.paddingAt (step.stage + 1) }

/-- Takes over what a stage wrote: the back row comes to the front. -/
def takeOver (step : Step) (written : Rows) (rows : Workspace) : Workspace :=
  rows.mapIdx fun c slot ↦
    if (p.modeAt step.stage c).changes then
      slot.map fun ch ↦
        let samples := (written.get? c).getD #[]
        ⟨overwrite ch.back (p.paddingAt 0 - p.paddingAt (step.stage + 1)) samples, ch.front⟩
    else slot

end Pipeline

end Scanline
