/-!
# Pixel formats

What an interleaved sink hands to the outside: which channels a pixel has, how a sample is
stored, and in which order the bytes of a sample go.  The host stores the least significant
byte first.
-/

namespace Scanline

/-- How one sample is stored. -/
inductive SampleType where
  /-- An 8-bit code. -/
  | byte
  /-- A 16-bit code. -/
  | word
  /-- A half-precision float. -/
  | half
  /-- A single-precision float, passed through. -/
  | single
deriving DecidableEq, Repr

/-- The bytes one sample takes. -/
def SampleType.size : SampleType → Nat
  | .byte => 1
  | .word | .half => 2
  | .single => 4

/-- Which channels a pixel interleaves. -/
inductive Layout where
  | gray
  | grayAlpha
  | rgb
  | rgba
deriving DecidableEq, Repr

namespace Layout

/-- The number of channels. -/
def channels : Layout → Nat
  | .gray => 1
  | .grayAlpha => 2
  | .rgb => 3
  | .rgba => 4

/-- The number of channels that are not alpha. -/
def colors : Layout → Nat
  | .gray | .grayAlpha => 1
  | .rgb | .rgba => 3

/-- Whether the last channel is alpha. -/
def hasAlpha : Layout → Bool
  | .gray | .rgb => false
  | .grayAlpha | .rgba => true

theorem channels_eq (l : Layout) : l.channels = l.colors + if l.hasAlpha then 1 else 0 := by
  cases l <;> rfl

end Layout

/-- The order of the bytes of a sample. -/
inductive ByteOrder where
  /-- The order of the host. -/
  | native
  /-- The least significant byte first. -/
  | little
  /-- The most significant byte first. -/
  | big
deriving DecidableEq, Repr

/-- Whether an order is the reverse of the host's. -/
def ByteOrder.reversed : ByteOrder → Bool
  | .native | .little => false
  | .big => true

/-- An interleaved pixel format. -/
structure PixelFormat where
  /-- The channels of a pixel. -/
  layout : Layout
  /-- How a sample is stored. -/
  sampleType : SampleType
  /-- The order of the bytes of a sample. -/
  byteOrder : ByteOrder := .native
deriving DecidableEq, Repr

namespace PixelFormat

variable (f : PixelFormat)

/-- The number of channels. -/
def channels : Nat := f.layout.channels

/-- The number of channels that are not alpha. -/
def colors : Nat := f.layout.colors

/-- Whether a pixel carries alpha. -/
def hasAlpha : Bool := f.layout.hasAlpha

/-- The bytes one pixel takes. -/
def pixelSize : Nat := f.sampleType.size * f.channels

/-- Whether the bytes of a sample are reversed; a single byte never is. -/
def reversesBytes : Bool := 1 < f.sampleType.size && f.byteOrder.reversed

/-- 8-bit gray. -/
def gray8 : PixelFormat := ⟨.gray, .byte, .native⟩
/-- 8-bit gray with alpha. -/
def grayAlpha8 : PixelFormat := ⟨.grayAlpha, .byte, .native⟩
/-- 8-bit color. -/
def rgb8 : PixelFormat := ⟨.rgb, .byte, .native⟩
/-- 8-bit color with alpha. -/
def rgba8 : PixelFormat := ⟨.rgba, .byte, .native⟩
/-- 16-bit color. -/
def rgb16 : PixelFormat := ⟨.rgb, .word, .native⟩
/-- 16-bit color with alpha. -/
def rgba16 : PixelFormat := ⟨.rgba, .word, .native⟩
/-- Half-precision color with alpha. -/
def rgbaHalf : PixelFormat := ⟨.rgba, .half, .native⟩
/-- Single-precision color. -/
def rgbSingle : PixelFormat := ⟨.rgb, .single, .native⟩
/-- Single-precision color with alpha. -/
def rgbaSingle : PixelFormat := ⟨.rgba, .single, .native⟩

end PixelFormat

end Scanline
