import Scanline.Row.Window

/-!
# Planes

A plane is one channel of samples in memory: rows of `width` samples whose starts are `stride`
samples apart.  Nothing promises that the buffer is long enough; `Plane.HoldsRows` says when it
is.  Memory is granted up to half the address space.

A segment of a row goes into a plane in two parts: `Plane.patchOf` finds the samples or a misuse
and looks at sizes only, `Plane.paste` writes them and cannot fail.
-/

namespace Scanline

/-- The bytes one sample takes in memory. -/
def sampleBytes : Nat := 4

/-- The most bytes that one buffer may take. -/
def largestBuffer : Nat := 1 <<< 63 - 1

/-- One more than the largest width or height of a plane. -/
def sideBound : Nat := 1 <<< 32

/-- Reserves memory for a number of samples, all zero. -/
def Storage.reserve (storage : Storage) (samples : Nat) : Except Fault Row :=
  if samples * sampleBytes ≤ largestBuffer then .ok (Array.replicate samples Sample.zero)
  else .error (.outOfMemory storage (Size.satMul samples sampleBytes))

/-- Consecutive samples for one row of a plane. -/
structure Patch where
  /-- The column of the first sample. -/
  column : Nat
  /-- The row. -/
  row : Nat
  /-- The samples. -/
  samples : Row
deriving DecidableEq, Repr

/-- One channel of samples. -/
structure Plane where
  /-- Samples per row. -/
  width : Nat
  /-- The number of rows. -/
  height : Nat
  /-- How far apart two rows start. -/
  stride : Nat
  /-- The buffer behind the rows. -/
  samples : Row
  /-- The width is a 32-bit word. -/
  width_lt : width < sideBound
  /-- The height is a 32-bit word. -/
  height_lt : height < sideBound
deriving DecidableEq, Repr

namespace Plane

variable (p : Plane)

/-- Width and height. -/
def size : Nat × Nat := (p.width, p.height)

/-- The plane over a buffer.  Its sides must be 32-bit words. -/
def ofSamples (width height stride : Nat) (samples : Row) : Except Misuse Plane :=
  if h : width < sideBound ∧ height < sideBound then
    .ok ⟨width, height, stride, samples, h.1, h.2⟩
  else .error .overflow

/-- A plane of zeros without gaps between its rows. -/
def allocate (width height : Nat) : Except Failure Plane :=
  match Size.mul? width height with
  | none | some 0 => .error (.fault (.buffer .badSize))
  | some count => do
    let samples ← (Storage.imagePlane.reserve count).mapError .fault
    (ofSamples width height width samples).mapError .misuse

/-- Where row `y` starts in the buffer. -/
def rowStart (y : Nat) : Nat := y * p.stride

/-- Whether the buffer holds row `y`. -/
def hasRow (y : Nat) : Bool := p.rowStart y + p.width ≤ p.samples.size

theorem hasRow_iff {y : Nat} : p.hasRow y ↔ p.rowStart y + p.width ≤ p.samples.size := by
  simp [hasRow]

/-- The samples that the buffer has of row `y`. -/
def samplesOf (y : Nat) : Row :=
  p.samples.extract (p.rowStart y) (p.rowStart y + p.width)

/-- The samples of row `y`, all of which must be there. -/
def row (y : Nat) : Except Misuse Row :=
  if p.hasRow y then .ok (p.samplesOf y) else .error .outOfRange

/-- How much of the buffer the rows take, from the start of the first to the end of the last;
nothing if there are no rows. -/
def extent : Nat := if p.height = 0 then 0 else p.rowStart (p.height - 1) + p.width

/-- The rows from the top down, all of which must be there. -/
def rows : Except Misuse (List Row) :=
  if p.extent ≤ p.samples.size then .ok ((List.range p.height).map p.samplesOf)
  else .error .outOfRange

/-- The last row ends furthest: if the buffer reaches that far, it holds every row. -/
theorem extent_le_size_iff : p.extent ≤ p.samples.size ↔ ∀ y < p.height, p.hasRow y := by
  unfold extent
  split
  next empty => simp [empty]
  next =>
    simp only [hasRow_iff, rowStart]
    refine ⟨fun reached y inside ↦ ?_, fun all ↦ all _ (by omega)⟩
    have before : y * p.stride ≤ (p.height - 1) * p.stride :=
      Nat.mul_le_mul_right _ (by omega)
    omega

/-- The rows do not overlap, and the buffer holds every one of them. -/
def HoldsRows : Prop :=
  p.width ≤ p.stride ∧ ∀ y < p.height, y * p.stride + p.width ≤ p.samples.size

/-- The number of rows that start within the buffer. -/
def presentRows : Nat := min p.height ((p.samples.size + p.stride - 1) / p.stride)

/-- Whether each row that starts within the buffer, and before the next one starts, has all of
its samples. -/
def rowsComplete : Bool :=
  (List.range p.presentRows).all fun y ↦
    p.width ≤ min p.stride (p.samples.size - y * p.stride)

/-- Writes a patch over what was there. -/
def paste (patch : Patch) : Plane :=
  { p with samples := overwrite p.samples (patch.row * p.stride + patch.column) patch.samples }

/-- What a row says about a segment and its extra samples.  Columns and rows that the plane does
not have are left out. -/
def patchOf (source : Row) (pad : Nat) (segment : Segment) : Except Misuse Patch := do
  let first := segment.column - segment.extra
  if segment.row < p.presentRows then
    let stop := min (← Size.ofNat segment.reach) p.width
    if first < stop then
      let offset ← Size.sub pad (segment.column - first)
      return ⟨first, segment.row, ← source.slice offset (stop - first)⟩
    else return ⟨first, segment.row, #[]⟩
  else return ⟨first, segment.row, #[]⟩

/-- What the rows that were handed over say about a segment, for each of a list of planes. -/
def patchesOf (planes : List Plane) (input : Rows) (segment : Segment) :
    Except Misuse (List Patch) :=
  planes.zipIdx.mapM fun (plane, channel) ↦ do
    plane.patchOf (← input.row channel) input.pad segment

/-- Writes the patch of a channel, if there is one. -/
def pasteFrom (patches : List Patch) (channel : Nat) (p : Plane) : Plane :=
  match patches[channel]? with
  | some patch => p.paste patch
  | none => p

/-- Whether two planes have the same rows, sample by sample as numbers.  Planes of different sizes
differ, and planes without columns do not, whether or not their rows are there. -/
def sameRows (p q : Plane) : Except Misuse Bool := do
  if p.size ≠ q.size then return false
  else if p.width = 0 then return true
  else
    let ps ← p.rows
    let qs ← q.rows
    return (ps.zip qs).all fun (a, b) ↦ (a.zip b).all fun (x, y) ↦ x.equals y

end Plane

end Scanline
