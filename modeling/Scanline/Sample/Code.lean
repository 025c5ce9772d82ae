import Scanline.Sample

/-!
# Integer and half-precision codes

A sample leaves the pipeline as an unsigned code of 8 or 16 bits, or as a 16-bit float.  Codes
cut a sample to `[0, 1]`, scale it to the largest code in single precision, and round half to
even; no number has the code zero.

Two coders compute whole runs: one sample at a time, or eight at a time on a vector unit with
the remainder taken one at a time.  A vector unit brings its own maximum and minimum, which may
return either zero where both zeros meet; `VectorUnit.Lawful` says what is relied on.
-/

namespace Scanline

namespace Sample

/-- The integer nearest to the magnitude of a finite sample, a half going to the even one. -/
def nearest (a : Sample) : Nat := roundHalfEven a.units unitsPerOne

/-- The nearest integer, cut to `0 … largest`; no number gives zero. -/
def saturate (largest : Nat) (a : Sample) : Nat :=
  if a.isNaN || a.isNegative then 0 else Nat.min largest a.nearest

/-- The code of a sample on the scale `0 … largest`. -/
def code (largest : Nat) (a : Sample) : Nat :=
  (a.clampUnit * Sample.ofNat largest).saturate largest

/-- The 8-bit code. -/
def toByte (a : Sample) : UInt8 := UInt8.ofNat (a.code 255)

/-- The 16-bit code. -/
def toWord (a : Sample) : UInt16 := UInt16.ofNat (a.code 65535)

/-- The pattern of the nearest half-precision number; no number gives the quiet pattern. -/
def toHalf (a : Sample) : UInt16 :=
  if a.isNaN then 0x7e00
  else
    UInt16.ofNat (BinaryFormat.half.round a.units (1 <<< 125) +
      if a.isNegative then BinaryFormat.half.signBit else 0)

end Sample

/-- The comparisons that a vector unit supplies, lane by lane. -/
structure VectorUnit where
  /-- The larger of two lanes. -/
  max : Sample → Sample → Sample
  /-- The smaller of two lanes. -/
  min : Sample → Sample → Sample

namespace VectorUnit

/-- The unit whose comparisons are those of single samples. -/
def plain : VectorUnit := ⟨Sample.max, Sample.min⟩

/-- On numbers, the maximum and the minimum are one of the two operands and bound the other. -/
structure Lawful (unit : VectorUnit) : Prop where
  /-- The maximum is one of its operands. -/
  max_mem : ∀ a b, ¬a.isNaN → ¬b.isNaN → unit.max a b = a ∨ unit.max a b = b
  /-- Neither operand exceeds the maximum. -/
  le_max : ∀ a b, ¬a.isNaN → ¬b.isNaN →
    a.value ≤ (unit.max a b).value ∧ b.value ≤ (unit.max a b).value
  /-- The minimum is one of its operands. -/
  min_mem : ∀ a b, ¬a.isNaN → ¬b.isNaN → unit.min a b = a ∨ unit.min a b = b
  /-- Neither operand is below the minimum. -/
  min_le : ∀ a b, ¬a.isNaN → ¬b.isNaN →
    (unit.min a b).value ≤ a.value ∧ (unit.min a b).value ≤ b.value

/-- One lane on the way to a code: no number becomes zero, the rest is moved into `[0, 1]`,
scaled, and rounded half to even to a signed integer. -/
def laneCode (unit : VectorUnit) (largest : Nat) (a : Sample) : Int :=
  let number := if a.isNaN then Sample.zero else a
  let scaled := unit.min (unit.max number Sample.zero) Sample.one * Sample.ofNat largest
  if scaled.isNegative then -(scaled.nearest : Int) else scaled.nearest

end VectorUnit

/-- The number of samples a vector holds. -/
def vectorWidth : Nat := 8

/-- Runs full vectors through `vector` and what is left through `single`. -/
def byVectors {α : Type} (vector : List Sample → List α) (single : Sample → α)
    (samples : List Sample) : List α :=
  if (samples.take vectorWidth).length = vectorWidth then
    vector (samples.take vectorWidth) ++ byVectors vector single (samples.drop vectorWidth)
  else samples.map single
termination_by samples.length
decreasing_by simp only [List.length_take, List.length_drop, vectorWidth] at *; omega

/-- How whole runs of samples are coded. -/
inductive Coder where
  /-- One sample at a time. -/
  | single
  /-- Eight samples at a time on a vector unit, the remainder one at a time. -/
  | vector (unit : VectorUnit)

namespace Coder

/-- The coder used unless one is asked for. -/
def standard : Coder := .vector .plain

/-- What is made of the samples of a run: one at a time, or full vectors of them in the lanes of a
vector unit and the remainder one at a time. -/
def codes {α : Type} (coder : Coder) (lane : VectorUnit → Sample → α) (one : Sample → α)
    (row : Row) : Array α :=
  match coder with
  | .single => row.map one
  | .vector unit => (byVectors (List.map (lane unit)) one row.toList).toArray

/-- The 8-bit codes of a run. -/
def toBytes (coder : Coder) : Row → Array UInt8 :=
  coder.codes (fun unit a ↦ UInt8.ofInt (unit.laneCode 255 a)) Sample.toByte

/-- The 16-bit codes of a run. -/
def toWords (coder : Coder) : Row → Array UInt16 :=
  coder.codes (fun unit a ↦ UInt16.ofInt (unit.laneCode 65535 a)) Sample.toWord

/-- The half-precision patterns of a run; every coder converts sample by sample. -/
def toHalves (_ : Coder) (row : Row) : Array UInt16 := row.map Sample.toHalf

end Coder

/-- A 16-bit word with its two bytes exchanged. -/
def reverseWord (w : UInt16) : UInt16 := w <<< 8 ||| w >>> 8

/-- The two bytes of a word, the least significant first. -/
def wordBytes (w : UInt16) : List UInt8 := [w.toUInt8, (w >>> 8).toUInt8]

end Scanline
