import Scanline.BinaryFormat

/-!
# Samples

A sample is a number of the 32-bit binary format, held as its bit pattern.  Every operation
computes its result exactly, on integers, and rounds once at the end; the rounding itself is
`BinaryFormat.round`.  All operations that have no number to give return the one pattern
`Sample.nan`.
-/

namespace Scanline

/-- A single-precision sample. -/
structure Sample where
  /-- The interchange pattern: sign, exponent and fraction. -/
  bits : UInt32
deriving DecidableEq, Repr, Inhabited

/-- A run of samples of one channel. -/
abbrev Row := Array Sample

namespace Sample

/-- One, counted in multiples of the smallest positive sample. -/
def unitsPerOne : Nat := 1 <<< 149

/-! ### Parts of a pattern -/

/-- The pattern without its sign bit. -/
def magnitude (a : Sample) : Nat := a.bits.toNat % BinaryFormat.single.signBit

/-- Whether the sign bit is set. -/
def isNegative (a : Sample) : Bool := BinaryFormat.single.signBit ≤ a.bits.toNat

/-- Whether the pattern stands for no number. -/
def isNaN (a : Sample) : Bool := BinaryFormat.single.infinity < a.magnitude

/-- Whether the pattern stands for one of the two infinities. -/
def isInfinite (a : Sample) : Bool := a.magnitude = BinaryFormat.single.infinity

/-- Whether the pattern stands for a finite number. -/
def isFinite (a : Sample) : Bool := a.magnitude < BinaryFormat.single.infinity

/-- Whether the pattern stands for one of the two zeros. -/
def isZero (a : Sample) : Bool := a.magnitude = 0

/-- The magnitude of a sample, in multiples of the smallest positive one. -/
def units (a : Sample) : Nat := BinaryFormat.single.units a.magnitude

/-- The value of a sample, in multiples of the smallest positive one. -/
def value (a : Sample) : Int := if a.isNegative then -(a.units : Int) else a.units

/-- The sample with the given sign and magnitude pattern. -/
def ofMagnitude (negative : Bool) (pattern : Nat) : Sample :=
  ⟨UInt32.ofNat (pattern + if negative then BinaryFormat.single.signBit else 0)⟩

/-! ### Constants -/

/-- The one pattern given where there is no number. -/
def nan : Sample := ⟨0x7fc00000⟩

/-- Positive zero. -/
def zero : Sample := ⟨0⟩

/-- The number `1`. -/
def one : Sample := ⟨0x3f800000⟩

/-- The number `2`. -/
def two : Sample := ⟨0x40000000⟩

/-- The sample nearest to a natural number. -/
def ofNat (n : Nat) : Sample :=
  ofMagnitude false (BinaryFormat.single.round (n * unitsPerOne) 1)

/-! ### Arithmetic -/

/-- The product. -/
def mul (a b : Sample) : Sample :=
  let negative := a.isNegative != b.isNegative
  if a.isNaN || b.isNaN then nan
  else if a.isInfinite || b.isInfinite then
    if a.isZero || b.isZero then nan else ofMagnitude negative BinaryFormat.single.infinity
  else ofMagnitude negative (BinaryFormat.single.round (a.units * b.units) unitsPerOne)

/-- The sum.  An exact zero is negative only if both terms are. -/
def add (a b : Sample) : Sample :=
  if a.isNaN || b.isNaN then nan
  else if a.isInfinite then
    if b.isInfinite && a.isNegative != b.isNegative then nan else a
  else if b.isInfinite then b
  else
    let sum := a.value + b.value
    let negative := if sum = 0 then a.isNegative && b.isNegative else decide (sum < 0)
    ofMagnitude negative (BinaryFormat.single.round sum.natAbs 1)

/-- The quotient. -/
def div (a b : Sample) : Sample :=
  let negative := a.isNegative != b.isNegative
  if a.isNaN || b.isNaN then nan
  else if a.isInfinite then
    if b.isInfinite then nan else ofMagnitude negative BinaryFormat.single.infinity
  else if b.isInfinite then ofMagnitude negative 0
  else if b.isZero then
    if a.isZero then nan else ofMagnitude negative BinaryFormat.single.infinity
  else ofMagnitude negative (BinaryFormat.single.round (a.units * unitsPerOne) b.units)

instance : Mul Sample := ⟨mul⟩
instance : Add Sample := ⟨add⟩
instance : Div Sample := ⟨div⟩

/-! ### Comparison -/

/-- Whether `a` is a smaller number than `b`; nothing is smaller or larger than no number. -/
def below (a b : Sample) : Bool := !a.isNaN && !b.isNaN && a.value < b.value

/-- Whether `a` and `b` are the same number; the two zeros are, and no number is not. -/
def equals (a b : Sample) : Bool := !a.isNaN && !b.isNaN && a.value = b.value

/-- The larger of two samples; a number wins over no number. -/
def max (a b : Sample) : Sample :=
  if a.isNaN then b else if b.isNaN then a else if a.below b then b else a

/-- The smaller of two samples; a number wins over no number. -/
def min (a b : Sample) : Sample :=
  if a.isNaN then b else if b.isNaN then a else if b.below a then b else a

/-- The sample, moved to the nearer end of `[0, 1]` if it lies outside. -/
def clampUnit (a : Sample) : Sample :=
  if a.below zero then zero else if one.below a then one else a

/-! ### Bytes -/

/-- The pattern with its four bytes in reverse order. -/
def reverseBytes (a : Sample) : Sample :=
  let middle : UInt32 := 0xff00
  ⟨a.bits <<< 24 ||| (a.bits &&& middle) <<< 8 ||| (a.bits >>> 8 &&& middle) ||| a.bits >>> 24⟩

/-- The four bytes of the pattern, the least significant first. -/
def bytes (a : Sample) : List UInt8 :=
  [a.bits.toUInt8, (a.bits >>> 8).toUInt8, (a.bits >>> 16).toUInt8, (a.bits >>> 24).toUInt8]

end Sample

end Scanline
