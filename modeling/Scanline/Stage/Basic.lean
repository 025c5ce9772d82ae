import Scanline.Sink.Planes
import Scanline.Sink.Packed
import Scanline.Sink.Stream
import Scanline.Stage.Filter

/-!
# Stages

A pipeline is a list of filters that ends in one sink.  `Stage` is either, so that lists can
be written down before it is known whether they make a pipeline.
-/

namespace Scanline

/-- A stage that ends a pipeline. -/
inductive Sink where
  | packed (s : PackedSink)
  | stream (s : StreamSink)
  | frame (s : FrameSink)
  | planar (s : PlanarSink)

namespace Sink

/-- The kind of stage. -/
def kind : Sink → StageKind
  | packed _ => .packed
  | stream _ => .stream
  | frame _ => .frame
  | planar _ => .planar

/-- How a channel is used. -/
def mode : Sink → Nat → Mode
  | packed s => s.mode
  | stream s => s.options.mode
  | frame _ => FrameSink.mode
  | planar _ => PlanarSink.mode

/-- The fewest channels a frame must have. -/
def channelsNeeded : Sink → Nat
  | packed s => s.channelsNeeded
  | stream s => s.options.channelsNeeded
  | frame _ | planar _ => 3

/-- Takes note of the sizes of the channels. -/
def bind : Sink → List (Nat × Nat) → Outcome Sink
  | packed s, sizes => (s.bind sizes).map packed
  | stream s, _ => .done (stream s)
  | frame s, sizes => (s.bind sizes).map frame
  | planar s, sizes => (s.bind sizes).map planar

/-- Gets ready for a number of workers. -/
def prepare : Sink → Nat → Outcome Sink
  | stream s, workers => (s.prepare workers).map stream
  | s, _ => .done s

/-- Takes one segment. -/
def receive : Sink → Rows → Segment → Outcome Sink
  | packed s, input, segment => (s.receive input segment).map packed
  | stream s, input, segment => (s.receive input segment).map stream
  | frame s, input, segment => (s.receive input segment).map frame
  | planar s, input, segment => (s.receive input segment).map planar

/-- Gives up what the sink holds of others. -/
def release : Sink → Sink
  | stream s => stream s.release
  | s => s

end Sink

/-- A step of a pipeline. -/
inductive Stage where
  | filter (f : Filter)
  | sink (s : Sink)

namespace Stage

/-- The kind of stage. -/
def kind : Stage → StageKind
  | filter f => f.kind
  | sink s => s.kind

/-- Whether the stage ends a pipeline. -/
def isSink : Stage → Bool
  | filter _ => false
  | sink _ => true

/-- The filter, if the stage is one. -/
def filter? : Stage → Option Filter
  | filter f => some f
  | sink _ => none

/-- How a channel is used. -/
def mode : Stage → Nat → Mode
  | filter f => f.mode
  | sink s => s.mode

/-- How many neighbors are read on each side. -/
def border : Stage → Nat
  | filter f => f.border
  | sink _ => 0

/-- The fewest channels a frame must have. -/
def channelsNeeded : Stage → Nat
  | filter f => f.channelsNeeded
  | sink s => s.channelsNeeded

/-- Takes note of the sizes of the channels. -/
def bind : Stage → List (Nat × Nat) → Outcome Stage
  | filter f, _ => .done (filter f)
  | sink s, sizes => (s.bind sizes).map sink

/-- Gets ready for a number of workers. -/
def prepare : Stage → Nat → Outcome Stage
  | filter f, _ => .done (filter f)
  | sink s, workers => (s.prepare workers).map sink

end Stage

end Scanline
