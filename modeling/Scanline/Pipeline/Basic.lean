import Scanline.Stage.Basic

/-!
# Pipelines

A pipeline is a list of filters, a sink, and the schedule that follows from their modes and
borders.  A frame is cut into square tiles; a tile is one task, done row by row, each row stage
by stage.
-/

namespace Scanline

/-- The default side of a tile. -/
def standardTileSide : Nat := 256

/-- A list of stages that fits a frame. -/
structure Pipeline where
  /-- The filters, in order. -/
  filters : List Filter
  /-- The stage at the end. -/
  sink : Sink
  /-- The width of the frame. -/
  width : Nat
  /-- The height of the frame. -/
  height : Nat
  /-- The side of a tile. -/
  tileSide : Nat
  /-- The caps that still apply when rows are reserved. -/
  limits : Limits
  /-- How each stage uses each channel. -/
  modes : List (List Mode)
  /-- How far each stage reads beside a row. -/
  padding : List Nat
  /-- What becomes of each channel. -/
  plans : List Plan

namespace Pipeline

variable (p : Pipeline)

/-- The number of channels. -/
def channels : Nat := p.plans.length

/-- Width and height of the frame. -/
def size : Nat × Nat := (p.width, p.height)

/-- The number of stages, the sink included. -/
def stageCount : Nat := p.filters.length + 1

/-- The kinds of the stages in order. -/
def kinds : List StageKind := p.filters.map Filter.kind ++ [p.sink.kind]

/-- How far stage `i` reads beside a row; beyond the last stage, not at all. -/
def paddingAt (i : Nat) : Nat := p.padding[i]?.getD 0

/-- How stage `i` uses channel `c`. -/
def modeAt (i c : Nat) : Mode := ((p.modes[i]?.getD [])[c]?).getD .skip

/-- The plan of channel `c`. -/
def planAt (c : Nat) : Plan := p.plans[c]?.getD {}

/-! ### Memory -/

/-- The samples in a worker's row: a tile and the widest border on both sides. -/
def rowLength : Nat := min p.tileSide p.width + 2 * p.paddingAt 0

/-- The number of rows a worker needs: one for each channel in use, and another if a stage
changes it. -/
def rowCount : Nat :=
  ((p.plans.filter Plan.inUse).map fun plan ↦ if plan.changed then 2 else 1).foldr (· + ·) 0

/-- The estimated bytes of the rows of a number of workers.  Those of one worker must be a size;
those of all are cut off at the largest size. -/
def rowMemory (workers : Nat) : Except Misuse Nat := do
  let length ← Size.ofNat p.rowLength
  return Size.satMul (← Size.ofNat (p.rowCount * length * sampleBytes)) workers

/-! ### Tiles -/

/-- The number of tiles side by side. -/
def tilesAcross : Nat := (p.width + p.tileSide - 1) / p.tileSide

/-- The number of tiles on top of each other. -/
def tilesDown : Nat := (p.height + p.tileSide - 1) / p.tileSide

/-- The number of tiles. -/
def tileCount : Nat := p.tilesAcross * p.tilesDown

/-- One stage at work on one row of a tile. -/
structure Step where
  /-- The first column. -/
  column : Nat
  /-- The number of columns. -/
  length : Nat
  /-- The row. -/
  row : Nat
  /-- The stage. -/
  stage : Nat
deriving DecidableEq, Repr

/-- The first row of a tile. -/
def tileTop (tile : Nat) : Nat := tile / p.tilesAcross * p.tileSide

/-- The number of rows of a tile. -/
def tileRows (tile : Nat) : Nat := min (p.tileTop tile + p.tileSide) p.height - p.tileTop tile

/-- The steps of one row of a tile: the stages in order. -/
def rowSteps (tile row : Nat) : List Step :=
  let column := tile % p.tilesAcross * p.tileSide
  let length := min p.tileSide (p.width - column)
  (List.range p.stageCount).map fun stage ↦ ⟨column, length, row, stage⟩

/-- The steps of a tile: those of its rows from the top down. -/
def steps (tile : Nat) : List Step :=
  (List.range' (p.tileTop tile) (p.tileRows tile)).flatMap (p.rowSteps tile)

/-- The segment that a step produces. -/
def segment (worker : Nat) (step : Step) : Segment :=
  { extra := p.paddingAt (step.stage + 1)
    length := step.length
    column := step.column
    row := step.row
    worker }

end Pipeline

end Scanline
