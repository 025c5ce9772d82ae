/-!
# Color encodings

What the color planes of a frame mean.  Nothing here converts; the encoding travels with the
samples so that a later step can interpret them.
-/

namespace Scanline

/-- A coding-independent color description. -/
structure ColorDescription where
  /-- The color primaries. -/
  primaries : Nat
  /-- The transfer characteristics. -/
  transfer : Nat
  /-- The matrix coefficients. -/
  matrix : Nat
  /-- Whether samples use the full range. -/
  fullRange : Bool
deriving DecidableEq, Repr

namespace ColorDescription

/-- The standard display primaries and transfer, without a matrix. -/
def srgb : ColorDescription := ⟨1, 13, 0, true⟩

/-- The standard primaries with linear light. -/
def linear : ColorDescription := ⟨1, 8, 0, true⟩

/-- Whether the transfer is that of linear light. -/
def isLinear (d : ColorDescription) : Bool := d.transfer = 8

end ColorDescription

/-- What the color planes of a frame hold. -/
structure ColorEncoding where
  /-- The color description, if known. -/
  description : Option ColorDescription
  /-- The bytes of a color profile, if there is one. -/
  profile : Option (List UInt8)
  /-- Whether the planes repeat one gray channel. -/
  grayscale : Bool
deriving DecidableEq, Repr

namespace ColorEncoding

/-- The encoding given by a color description. -/
def ofDescription (d : ColorDescription) : ColorEncoding := ⟨some d, none, false⟩

/-- The encoding given by a color profile. -/
def ofProfile (bytes : List UInt8) : ColorEncoding := ⟨none, some bytes, false⟩

/-- The standard display encoding, which is also the one taken when nothing is said. -/
def srgb : ColorEncoding := ofDescription .srgb

/-- The standard primaries with linear light. -/
def linear : ColorEncoding := ofDescription .linear

/-- Whether the description is the standard display one. -/
def isSrgb (e : ColorEncoding) : Bool := e.description = some .srgb

/-- Whether the description says linear light. -/
def isLinear (e : ColorEncoding) : Bool := e.description.any ColorDescription.isLinear

end ColorEncoding

instance : Inhabited ColorEncoding := ⟨.srgb⟩

end Scanline
