import Scanline.Stage.Usage
import Scanline.Sample.Code
import Scanline.Row.Window

/-!
# The packed sink

Writes interleaved 8-bit pixels into a caller's buffer.  Row `y` owns the bytes from
`y * stride` up to the next row, the last row only those that the buffer still has; pixel
`(x, y)` starts at byte `y * stride + x * pixelSize`.  Without an alpha channel the fourth
byte of a pixel is 255.
-/

namespace Scanline

/-- The bytes that `rows` rows of `rowBytes` bytes need when they start `stride` bytes apart; the
last row needs no gap after it. -/
def spannedBytes (rows stride rowBytes : Nat) : Except BufferFault Nat :=
  if rows = 0 then .ok 0
  else
    match (Size.mul? (rows - 1) stride).bind (Size.add? · rowBytes) with
    | some bytes => .ok bytes
    | none => .error .badSize

/-- Interleaves bands of bytes, `count` bytes from each. -/
def interleave (bands : List (Array UInt8)) (count : Nat) : Array UInt8 :=
  Array.ofFn fun i : Fin (count * bands.length) ↦
    ((bands[i.val % bands.length]?.getD #[])[i.val / bands.length]?).getD 0

/-- A buffer of interleaved 8-bit pixels. -/
structure PackedSink where
  /-- The caller's buffer. -/
  buffer : Array UInt8
  /-- How many bytes apart two rows start. -/
  stride : Nat
  /-- The number of rows. -/
  height : Nat
  /-- Whether a pixel has a fourth byte. -/
  fourBytes : Bool := false
  /-- The channel that the fourth byte is taken from. -/
  alpha : Option Nat := none
  /-- How samples are coded. -/
  coder : Coder := .standard

namespace PackedSink

/-- The sink for `height` rows of a buffer.  Each row must start within the buffer; whether it is
long enough is known only once the width is. -/
def ofBuffer (buffer : Array UInt8) (stride height : Nat) : Except BufferFault PackedSink :=
  if stride = 0 then .error .rowsOverlap
  else if (buffer.size + stride - 1) / stride < height then .error .tooShort
  else .ok { buffer, stride, height }

variable (s : PackedSink)

/-- The bytes one pixel takes. -/
def pixelSize : Nat := if s.fourBytes then 4 else 3

/-- How a channel is used. -/
def mode (channel : Nat) : Mode :=
  if channel < 3 || s.alpha = some channel then .read else .skip

/-- The fewest channels a frame must have. -/
def channelsNeeded : Nat :=
  match s.alpha with
  | some alpha => max (alpha + 1) 3
  | none => 3

/-- The number of bytes that row `y` owns. -/
def rowBytes (y : Nat) : Nat := min s.stride (s.buffer.size - y * s.stride)

/-- The number of bytes that all rows own. -/
def ownedBytes : Nat := ((List.range s.height).map s.rowBytes).foldr (· + ·) 0

/-- Checks that rows of the given width fit. -/
def checkWidth (width : Nat) : Except BufferFault Unit :=
  match Size.mul? width s.pixelSize with
  | none => .error .badSize
  | some rowBytes =>
    if s.stride < rowBytes then .error .rowsOverlap
    else do
      let needed ← spannedBytes s.height s.stride rowBytes
      if s.ownedBytes < needed then .error .tooShort else .ok ()

/-- Takes note of the sizes of the channels; an empty list counts as no width. -/
def bind (sizes : List (Nat × Nat)) : Outcome PackedSink :=
  match s.checkWidth ((sizes.head?.map Prod.fst).getD 0) with
  | .ok () => .done s
  | .error fault => .faulted s (.buffer fault)

/-- The rows that a pixel is made of. -/
structure Bands where
  /-- Channels 0 to 2. -/
  colors : List Row
  /-- The fourth band, unless it is constant. -/
  alpha : Option Row

/-- Picks the rows of a segment. -/
def bands (input : Rows) : Except Misuse Bands := do
  let colors := [← input.row 0, ← input.row 1, ← input.row 2]
  match s.alpha with
  | some channel =>
    if s.fourBytes then return ⟨colors, some (← input.row channel)⟩ else return ⟨colors, none⟩
  | none => return ⟨colors, none⟩

/-- The bytes of `count` pixels whose samples start at `offset`. -/
def pixelBytes (b : Bands) (offset count : Nat) : Except Misuse (Array UInt8) := do
  let colors ← b.colors.mapM fun row ↦ do return s.coder.toBytes (← row.slice offset count)
  let alpha ← match b.alpha with
    | some row => do pure (s.coder.toBytes (← row.slice offset count))
    | none => pure (Array.replicate count 255)
  return interleave (if s.fourBytes then colors ++ [alpha] else colors) count

/-- Bytes `[start, stop)` of a row, cut into pieces of as many pixels as a vector holds.  A piece
is given by its first pixel and its length in bytes. -/
def pieces (start stop : Nat) : List (Nat × Nat) :=
  let most := vectorWidth * s.pixelSize
  (List.range ((stop - start + most - 1) / most)).map fun k ↦
    (k * vectorWidth, min most (stop - start - k * most))

/-- Writes one piece of a row whose bytes start at `target` in the buffer. -/
def writePiece (b : Bands) (pad target : Nat) (piece : Nat × Nat) (s : PackedSink) :
    Outcome PackedSink :=
  match s.pixelBytes b (pad + piece.1) (piece.2 / s.pixelSize) with
  | .ok bytes =>
    .done { s with buffer := overwrite s.buffer (target + piece.1 * s.pixelSize) bytes }
  | .error misuse => .misused s misuse

/-- Writes one segment.  Rows below the last one are skipped; a segment that does not fit its row
is refused before anything is written. -/
def receive (input : Rows) (segment : Segment) : Outcome PackedSink :=
  if s.height ≤ segment.row then .done s
  else
    let start := segment.column * s.pixelSize
    match Size.ofNat (start + segment.length * s.pixelSize) with
    | .error misuse => .misused s misuse
    | .ok stop =>
      if stop ≤ s.rowBytes segment.row then
        match s.bands input with
        | .ok b =>
          .each (writePiece b input.pad (segment.row * s.stride + start)) (s.pieces start stop) s
        | .error misuse => .misused s misuse
      else .faulted s (.buffer .tooShort)

end PackedSink

end Scanline
