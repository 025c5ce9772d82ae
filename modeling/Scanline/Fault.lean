import Scanline.Frame.Limits
import Scanline.Misuse
import Scanline.Sample.Decimal

/-!
# Faults

Why a pipeline could not be set up or run.  Every cause is a constructor, and `Fault.message` is
the one place that words them.  A fault is an answer that callers may expect; a misuse is not,
and a `Failure` is either.
-/

namespace Scanline

/-- The kinds of stages. -/
inductive StageKind where
  /-- Multiplies colors by alpha. -/
  | premultiply
  /-- Filters colors along the row. -/
  | smooth
  /-- Fills an interleaved 8-bit buffer. -/
  | packed
  /-- Hands runs of pixels to a consumer. -/
  | stream
  /-- Fills a frame of planes. -/
  | frame
  /-- Fills the three color planes of an image. -/
  | planar
deriving DecidableEq, Repr

/-- The short name of a stage in messages. -/
def StageKind.name : StageKind → String
  | premultiply => "Premultiply"
  | smooth => "Smooth"
  | packed => "WriteToU8"
  | stream => "WritePixelCB"
  | frame => "WriteIB"
  | planar => "WriteI3F"

/-- What memory was asked for. -/
inductive Storage where
  | imagePlane
  | workerRow
  | staging
deriving DecidableEq, Repr

/-- The name of a piece of memory in messages. -/
def Storage.name : Storage → String
  | imagePlane => "image plane"
  | workerRow => "pipeline row"
  | staging => "callback scratch"

/-- What is wrong with a caller's buffer. -/
inductive BufferFault where
  /-- It is too short. -/
  | tooShort
  /-- Its rows overlap, or are not apart at all. -/
  | rowsOverlap
  /-- A side is zero, or a size does not fit a word. -/
  | badSize
deriving DecidableEq, Repr

/-- The message for an unusable buffer. -/
def BufferFault.message : BufferFault → String
  | tooShort => "buffer is too small for the given stride and height"
  | rowsOverlap => "stride is smaller than width * bytes_per_pixel"
  | badSize => "dimensions are zero or cause overflow"

/-- Why a list of stages, or what is fed to it, makes no pipeline. -/
inductive Inconsistency where
  /-- There is no stage at all. -/
  | noStages
  /-- The last stage does not end a pipeline. -/
  | lastNotSink (stage : StageKind)
  /-- A stage that ends a pipeline has others after it. -/
  | sinkNotLast (stage : StageKind)
  /-- Tiles have no extent. -/
  | noTileExtent
  /-- The frame has no channels. -/
  | noChannels
  /-- The number of planes differs from that of channels. -/
  | planeCount (expected actual : Nat)
  /-- Alpha would be one of the color channels. -/
  | alphaOverlapsColor (channel : Nat)
  /-- Filter weights cannot be scaled to sum to one. -/
  | weights (center side : Sample)
  /-- A sink of planes has fewer than three channels. -/
  | tooFewColors (stage : StageKind) (channels : Nat)
  /-- A sink was given its sizes twice. -/
  | alreadyBound (stage : StageKind)
  /-- A reason given from outside. -/
  | other (reason : String)
deriving DecidableEq, Repr

/-- What a sink of planes is bound to. -/
def StageKind.targetName : StageKind → String
  | planar => "image"
  | _ => "frame"

/-- The message for an inconsistency. -/
def Inconsistency.message : Inconsistency → String
  | noStages => "pipeline has no stages"
  | lastNotSink stage => "last stage " ++ stage.name ++ " is not a sink"
  | sinkNotLast stage => "sink " ++ stage.name ++ " must be the last stage"
  | noTileExtent => "group_dim must be >= 1"
  | noChannels => "frame has no channels"
  | planeCount expected actual => s!"expected {expected} input planes, got {actual}"
  | alphaOverlapsColor channel => s!"alpha channel {channel} overlaps the color channels"
  | weights center side =>
    "smoothing weights (" ++ center.text ++ ", " ++ side.text ++ ") do not have a positive sum"
  | tooFewColors stage channels =>
    stage.name ++ s!" needs 3 color channels, the frame has {channels}"
  | alreadyBound stage => stage.name ++ " was already bound to its " ++ stage.targetName
  | other reason => reason

/-- What is wrong with a set of workers. -/
inductive PoolFault where
  /-- A pool was asked for without workers. -/
  | noWorkers
  /-- A runner says it has no workers. -/
  | emptyRunner
  /-- A runner named a worker that it does not have. -/
  | unknownWorker (worker workers : Nat)
  /-- A reason given from outside. -/
  | other (reason : String)
deriving DecidableEq, Repr

/-- The message for a faulty set of workers. -/
def PoolFault.message : PoolFault → String
  | noWorkers => "thread count must be >= 1"
  | emptyRunner => "runner reports zero threads"
  | unknownWorker worker workers =>
    s!"worker id {worker} out of range for {workers} threads"
  | other reason => reason

/-- Why a frame could not be written. -/
inductive Fault where
  /-- The consumer refused to start. -/
  | consumerRefused (reason : String)
  /-- The consumer gave up on the pixels at `(x, y)`. -/
  | consumerFailed (x y : Nat) (reason : String)
  /-- Memory could not be had. -/
  | outOfMemory (storage : Storage) (bytes : Nat)
  /-- A limit was exceeded. -/
  | limit (exceeded : Excess)
  /-- A caller's buffer is unusable. -/
  | buffer (fault : BufferFault)
  /-- A channel has another size than the first one. -/
  | sizeMismatch (channel : Nat) (actual expected : Nat × Nat)
  /-- A stage needs a channel that the frame lacks. -/
  | lacksChannel (stage : StageKind) (channel available : Nat)
  /-- Stages, options or input do not fit together. -/
  | inconsistent (cause : Inconsistency)
  /-- A sink was handed a row before it was set up. -/
  | unprepared (stage : StageKind)
  /-- The workers cannot be used. -/
  | pool (fault : PoolFault)
deriving DecidableEq, Repr

/-- A width and a height in messages. -/
def sizeText (size : Nat × Nat) : String := s!"({size.1}, {size.2})"

namespace Fault

/-- The message for a fault. -/
def message : Fault → String
  | consumerRefused reason => "pixel callback initialization failed: " ++ reason
  | consumerFailed x y reason => s!"pixel callback failed at ({x}, {y}): " ++ reason
  | outOfMemory storage bytes => s!"failed to allocate {bytes} bytes for " ++ storage.name
  | limit exceeded => exceeded.message
  | buffer fault => fault.message
  | sizeMismatch channel actual expected =>
    s!"channel {channel} is " ++ sizeText actual ++ ", expected " ++ sizeText expected
  | lacksChannel stage channel available =>
    "stage " ++ stage.name ++ s!" needs channel {channel}, but the frame has {available}"
  | inconsistent cause => "invalid pipeline: " ++ cause.message
  | unprepared stage => "stage " ++ stage.name ++ " processed a row before it was prepared"
  | pool fault => "worker pool error: " ++ fault.message

/-- The consumer's own reason, where the consumer caused the fault. -/
def reason? : Fault → Option String
  | consumerRefused reason | consumerFailed _ _ reason => some reason
  | _ => none

end Fault

/-- Why an activity stopped. -/
inductive Failure where
  /-- It met a fault. -/
  | fault (fault : Fault)
  /-- It was misused. -/
  | misuse (misuse : Misuse)
deriving DecidableEq, Repr

end Scanline
