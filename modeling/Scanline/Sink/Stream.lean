import Scanline.Pixel.Format
import Scanline.Pixel.Orientation
import Scanline.Row.Window
import Scanline.Sample.AlphaDivision
import Scanline.Sample.Code
import Scanline.Sink.Consumer
import Scanline.Stage.Usage

/-!
# The stream sink

Hands interleaved pixels to a consumer in runs of up to `runLimit`.  A run is gathered from the
rows, divided through alpha if that is asked for, reversed if the orientation exchanges left and
right, narrowed to the sample type and put into byte order; under an exchange of the axes every
pixel is a run of its own.

The consumer is opened before the first row and released when the sink is done with it.  The
workers' buffers are made after the consumer was opened, and stay until others are made in their
place: where memory for new ones is refused, the consumer is open and the old ones are there.
-/

namespace Scanline

/-- One worker's buffers for converting a run. -/
structure Staging where
  /-- The gathered samples. -/
  samples : Row
  /-- Their 16-bit forms. -/
  words : Array UInt16
  /-- Their 8-bit forms. -/
  bytes : Array UInt8
deriving DecidableEq, Repr, Inhabited

namespace Staging

/-- How many samples a full run of a format has. -/
def sampleCount (f : PixelFormat) : Nat := runLimit * f.channels

/-- How many 16-bit forms a full run of a format takes. -/
def wordCount (f : PixelFormat) : Nat :=
  match f.sampleType with
  | .word | .half => sampleCount f
  | .byte | .single => 0

/-- How many 8-bit forms a full run of a format takes. -/
def byteCount (f : PixelFormat) : Nat :=
  match f.sampleType with
  | .byte => sampleCount f
  | .word | .half | .single => 0

/-- Buffers large enough for a full run of a format. -/
def forFormat (f : PixelFormat) : Staging :=
  ⟨Array.replicate (sampleCount f) .zero, Array.replicate (wordCount f) 0,
    Array.replicate (byteCount f) 0⟩

/-- The bytes of these buffers, in the order in which memory is asked for. -/
def requests (f : PixelFormat) : List Nat := [4 * sampleCount f, 2 * wordCount f, byteCount f]

end Staging

/-- The bytes of the first request for memory that is refused, if one is.  Where no bytes are
needed, none are asked for. -/
def shortage (granted : Nat → Bool) (requests : List Nat) : Option Nat :=
  (requests.zipIdx.find? fun (bytes, k) ↦ bytes ≠ 0 && !granted k).map Prod.fst

/-- A run of columns of one row. -/
structure Batch where
  /-- The first column. -/
  start : Nat
  /-- The number of columns. -/
  length : Nat
deriving DecidableEq, Repr

/-- How many runs the columns `[first, stop)` are cut into. -/
def batchCount (first stop : Nat) : Nat := (stop - first + runLimit - 1) / runLimit

/-- Run `k` of the columns `[first, stop)`: all have `runLimit` columns, except the last. -/
def batchAt (first stop k : Nat) : Batch :=
  ⟨first + k * runLimit, min runLimit (stop - first - k * runLimit)⟩

/-- Reverses the order of pixels of `channels` samples each. -/
def reversePixels (channels : Nat) (samples : Row) : Row :=
  samples.mapIdx fun i a ↦
    (samples[(samples.size / channels - 1 - i / channels) * channels + i % channels]?).getD a

/-- What is handed over, and how. -/
structure StreamOptions where
  /-- The width of the output before its axes are exchanged. -/
  width : Nat
  /-- The height of the output before its axes are exchanged. -/
  height : Nat
  /-- The form of a pixel. -/
  format : PixelFormat
  /-- The channel that holds alpha. -/
  alpha : Option Nat := none
  /-- Whether colors are divided through alpha. -/
  dividesAlpha : Bool := false
  /-- The orientation that is undone. -/
  orientation : Orientation := .identity
  /-- How samples are coded. -/
  coder : Coder := .standard

namespace StreamOptions

/-- The rows that a run is gathered from. -/
structure Bands where
  /-- The colors. -/
  colors : List Row
  /-- Alpha, if the frame has it. -/
  alpha : Option Row

variable (o : StreamOptions)

/-- How a channel is used. -/
def mode (channel : Nat) : Mode :=
  if channel < o.format.colors || o.alpha = some channel then .read else .skip

/-- The fewest channels a frame must have. -/
def channelsNeeded : Nat :=
  match o.alpha with
  | some alpha => max (alpha + 1) o.format.colors
  | none => o.format.colors

/-- Picks the rows of a segment. -/
def bands (input : Rows) : Except Misuse Bands := do
  let colors ← (List.range o.format.colors).mapM input.row
  match o.alpha with
  | some channel => return ⟨colors, some (← input.row channel)⟩
  | none => return ⟨colors, none⟩

/-- The columns to hand over: those of the segment and of its extra samples that exist. -/
def columns (segment : Segment) : Except Misuse (Nat × Nat) := do
  let reach ← Size.ofNat segment.reach
  return (segment.column - min segment.extra segment.column, min reach o.width)

/-- Where the samples of column `start` sit in the rows of a segment. -/
def offsetOf (pad start : Nat) (segment : Segment) : Except Misuse Nat := do
  Size.sub (← Size.ofNat (pad + start)) segment.column

/-- Whether all rows that are read reach from `offset` over `length` samples. -/
def covers (b : Bands) (offset length : Nat) : Bool :=
  (b.colors ++ if o.format.hasAlpha then b.alpha.toList else []).all fun row ↦
    offset + length ≤ row.size

/-- Whether a worker's buffers have room for a run of `length` pixels. -/
def hasRoom (staging : Staging) (length : Nat) : Bool :=
  let count := length * o.format.channels
  count ≤ staging.samples.size &&
    match o.format.sampleType with
    | .byte => count ≤ staging.bytes.size
    | .word | .half => count ≤ staging.words.size
    | .single => true

/-! ### Converting a run -/

/-- The sample of one channel of the pixel at `offset`; a missing alpha is one. -/
def pixelSample (b : Bands) (offset channel : Nat) : Sample :=
  match b.colors[channel]?.or b.alpha with
  | some row => row[offset]?.getD .zero
  | none => .one

/-- The interleaved samples of a run. -/
def gather (b : Bands) (offset length : Nat) : Row :=
  Array.ofFn fun i : Fin (length * o.format.channels) ↦
    pixelSample b (offset + i / o.format.channels) (i % o.format.channels)

/-- Whether colors are divided: alpha must be there, be wanted, and the division asked for. -/
def divides (b : Bands) : Bool := b.alpha.isSome && o.format.hasAlpha && o.dividesAlpha

/-- What becomes of interleaved samples before they are narrowed. -/
def arrange (b : Bands) (samples : Row) : Row :=
  let samples := if o.divides b then unpremultiply o.format.colors samples else samples
  if o.orientation.flipsColumns then reversePixels o.format.channels samples else samples

/-- The 16-bit forms of samples in the byte order of the format. -/
def wordsOf (samples : Row) : Array UInt16 :=
  let words :=
    if o.format.sampleType = .half then o.coder.toHalves samples else o.coder.toWords samples
  if o.format.reversesBytes then words.map reverseWord else words

/-- Samples in the byte order of the format. -/
def ordered (samples : Row) : Row :=
  if o.format.reversesBytes then samples.map Sample.reverseBytes else samples

/-- Converts a run of samples at `offset` in a worker's buffers, and returns these and the bytes
of the run.  The bytes are read back from the buffer of the sample type. -/
def encode (b : Bands) (offset length : Nat) (staging : Staging) : Staging × Array UInt8 :=
  let count := length * o.format.channels
  let gathered := overwrite staging.samples 0 (o.gather b offset length)
  let samples := o.arrange b (gathered.extract 0 count)
  match o.format.sampleType with
  | .single =>
    let staging := { staging with samples := overwrite gathered 0 (o.ordered samples) }
    (staging, ((staging.samples.extract 0 count).toList.flatMap Sample.bytes).toArray)
  | .word | .half =>
    let staging := { staging with
      samples := overwrite gathered 0 samples
      words := overwrite staging.words 0 (o.wordsOf samples) }
    (staging, ((staging.words.extract 0 count).toList.flatMap wordBytes).toArray)
  | .byte =>
    let staging := { staging with
      samples := overwrite gathered 0 samples
      bytes := overwrite staging.bytes 0 (o.coder.toBytes samples) }
    (staging, staging.bytes.extract 0 count)

/-- The calls that hand over a converted run of row `y`. -/
def calls (worker y : Nat) (batch : Batch) (bytes : Array UInt8) : List Call :=
  let y := if o.orientation.flipsRows then Orientation.opposite o.height y else y
  let x :=
    if o.orientation.flipsColumns then o.width - batch.start - batch.length else batch.start
  if o.orientation.swapsAxes then
    let size := o.format.pixelSize
    (List.range batch.length).map fun i ↦
      ⟨worker, y, x + i, 1, bytes.extract (i * size) ((i + 1) * size)⟩
  else [⟨worker, x, y, batch.length, bytes⟩]

end StreamOptions

/-- A sink that hands pixels to a consumer. -/
structure StreamSink where
  /-- What is handed over, and how. -/
  options : StreamOptions
  /-- Who takes it. -/
  consumer : Consumer
  /-- Whether the consumer is open. -/
  isOpen : Bool := false
  /-- The buffers of the workers. -/
  buffers : Array Staging := #[]
  /-- All exchanges with the consumer so far. -/
  log : Array Event := #[]

namespace StreamSink

variable (s : StreamSink)

/-- Releases the consumer if it is open. -/
def close : StreamSink :=
  if s.isOpen then { s with isOpen := false, log := s.log.push .released } else s

/-- Gives up the consumer and the workers' buffers. -/
def release : StreamSink := { s.close with buffers := #[] }

/-- Opens the consumer for a number of workers and makes their buffers, as far as memory is granted
for one after another.  An open consumer is released first, and a refusal leaves none open.  The
buffers that were there are given up only once all of the new ones are made. -/
def prepareWithin (granted : Nat → Bool) (workers : Nat) : Outcome StreamSink :=
  let s := s.close
  let refusal := s.consumer.refusal s.log workers
  let s := { s with log := s.log.push (.opened workers runLimit refusal) }
  match refusal with
  | some reason => .faulted s (.consumerRefused reason)
  | none =>
    let s := { s with isOpen := true }
    match shortage granted (List.replicate workers (Staging.requests s.options.format)).flatten with
    | some bytes => .faulted s (.outOfMemory .staging bytes)
    | none =>
      .done { s with buffers := Array.replicate workers (Staging.forFormat s.options.format) }

/-- Opens the consumer for a number of workers, where there is memory for their buffers. -/
def prepare (workers : Nat) : Outcome StreamSink := s.prepareWithin (fun _ ↦ true) workers

/-- Hands one run to the consumer. -/
def offer (call : Call) (s : StreamSink) : Outcome StreamSink :=
  let failure := s.consumer.failure s.log call
  let s := { s with log := s.log.push (.called call failure) }
  match failure with
  | some reason => .faulted s (.consumerFailed call.x call.y reason)
  | none => .done s

/-- Converts and hands over one batch of a segment. -/
def handOver (b : StreamOptions.Bands) (pad : Nat) (segment : Segment) (batch : Batch)
    (s : StreamSink) : Outcome StreamSink :=
  match StreamOptions.offsetOf pad batch.start segment with
  | .error misuse => .misused s misuse
  | .ok offset =>
    if s.options.covers b offset batch.length then
      let staging := s.buffers[segment.worker]?.getD default
      if s.options.hasRoom staging batch.length then
        let (staging, bytes) := s.options.encode b offset batch.length staging
        let s := { s with buffers := s.buffers.setIfInBounds segment.worker staging }
        .each offer (s.options.calls segment.worker segment.row batch bytes) s
      else .misused s .outOfRange
    else .misused s .outOfRange

/-- Hands over one segment.  Rows below the last one are skipped. -/
def receive (input : Rows) (segment : Segment) : Outcome StreamSink :=
  if s.isOpen then
    if s.options.height ≤ segment.row then .done s
    else if s.buffers.size ≤ segment.worker then .faulted s (.unprepared .stream)
    else
      match s.options.bands input with
      | .error misuse => .misused s misuse
      | .ok b =>
        match s.options.columns segment with
        | .error misuse => .misused s misuse
        | .ok (first, stop) =>
          .count (fun k ↦ handOver b input.pad segment (batchAt first stop k)) 0
            (batchCount first stop) s
  else .faulted s (.unprepared .stream)

end StreamSink

end Scanline
