import Scanline.Pipeline.Basic

/-!
# Building a pipeline

A list of stages is checked against the sizes of the channels, what becomes of each channel is
planned, and the sink gets to see the sizes.  The checks come in a fixed order and the first one
that fails is reported; only the last, the sink's own, may change anything.
-/

namespace Scanline

/-- What a pipeline is made of. -/
structure Blueprint where
  /-- Width and height of each channel, colors first. -/
  sizes : List (Nat × Nat)
  /-- The stages in order. -/
  stages : List Stage
  /-- The side of a tile. -/
  tileSide : Nat := standardTileSide
  /-- The caps on frame and memory. -/
  limits : Limits := {}

/-- What an attempt to build leaves: the stages, and a pipeline if it succeeded. -/
structure Built where
  /-- The stages as the attempt left them. -/
  stages : List Stage
  /-- The pipeline, or why there is none. -/
  pipeline : Except Failure Pipeline

namespace Blueprint

variable (b : Blueprint)

/-- Splits stages into filters and a sink at the end. -/
def split (stages : List Stage) : Except Inconsistency (List Filter × Sink) :=
  match stages.getLast? with
  | none => .error .noStages
  | some (.filter f) => .error (.lastNotSink f.kind)
  | some (.sink sink) =>
    match stages.dropLast.find? Stage.isSink with
    | some early => .error (.sinkNotLast early.kind)
    | none => .ok (stages.dropLast.filterMap Stage.filter?, sink)

/-- The size that all channels share. -/
def frameSize : Except Fault (Nat × Nat) :=
  match b.sizes with
  | [] => .error (.inconsistent .noChannels)
  | size :: rest =>
    if size.1 = 0 ∨ size.2 = 0 then .error (.buffer .badSize)
    else
      match rest.findIdx? (· ≠ size) with
      | some i => .error (.sizeMismatch (i + 1) (rest[i]?.getD size) size)
      | none => .ok size

/-- Checks that a stage finds all channels that it needs. -/
def checkChannels (stage : Stage) : Except Failure Unit := do
  let needed ← (Size.ofNat stage.channelsNeeded).mapError .misuse
  if b.sizes.length < needed then
    .error (.fault (.lacksChannel stage.kind (needed - 1) b.sizes.length))

/-- The checks of the list of stages and of the size of the frame: returns the filters, the sink
and that size. -/
def checkFrame : Except Fault (List Filter × Sink × Nat × Nat) := do
  let (filters, sink) ← (split b.stages).mapError .inconsistent
  if b.tileSide = 0 then .error (.inconsistent .noTileExtent)
  let (width, height) ← b.frameSize
  (b.limits.checkFrame (Limits.side width) (Limits.side height)).mapError .limit
  return (filters, sink, width, height)

/-- All checks that change nothing: returns the filters, the sink and the size of the
frame. -/
def check : Except Failure (List Filter × Sink × Nat × Nat) := do
  let checked ← b.checkFrame.mapError .fault
  b.stages.forM b.checkChannels
  return checked

/-- How each stage uses each channel. -/
def modes : List (List Mode) :=
  b.stages.map fun stage ↦ (List.range b.sizes.length).map stage.mode

/-- How far each stage reads beside a row. -/
def padding : List Nat := paddingOf (b.stages.map Stage.border)

/-- Checks, plans and sizes. -/
def build : Built :=
  match b.check with
  | .error failure => ⟨b.stages, .error failure⟩
  | .ok (filters, sink, width, height) =>
    let bound := sink.bind b.sizes
    let stages := filters.map Stage.filter ++ [Stage.sink bound.state]
    match bound.failure with
    | some failure => ⟨stages, .error failure⟩
    | none =>
      ⟨stages, .ok
        { filters
          sink := bound.state
          width
          height
          tileSide := b.tileSide
          limits := b.limits
          modes := b.modes
          padding := b.padding
          plans := planChannels b.modes b.padding b.sizes.length }⟩

end Blueprint

end Scanline
