import Scanline.Frame.Color
import Scanline.Frame.Plane

/-!
# Images

An `Image` is three color planes of one size.  A `Bundle` is a frame as a sink leaves it: maybe
an image, further channels such as alpha, and what the colors mean.
-/

namespace Scanline

/-- Three color planes. -/
structure Image where
  /-- Channel 0. -/
  plane0 : Plane
  /-- Channel 1. -/
  plane1 : Plane
  /-- Channel 2. -/
  plane2 : Plane
deriving DecidableEq, Repr

namespace Image

variable (i : Image)

/-- The planes in channel order. -/
def planes : List Plane := [i.plane0, i.plane1, i.plane2]

/-- Samples per row. -/
def width : Nat := i.plane0.width

/-- The number of rows. -/
def height : Nat := i.plane0.height

/-- Width and height. -/
def size : Nat × Nat := i.plane0.size

/-- An image of zeros. -/
def allocate (width height : Nat) : Except Failure Image := do
  return ⟨← Plane.allocate width height, ← Plane.allocate width height,
    ← Plane.allocate width height⟩

/-- The image with the given planes, which must share their size. -/
def ofPlanes (plane0 plane1 plane2 : Plane) : Except Fault Image :=
  if plane1.size ≠ plane0.size then .error (.sizeMismatch 1 plane1.size plane0.size)
  else if plane2.size ≠ plane0.size then .error (.sizeMismatch 2 plane2.size plane0.size)
  else .ok ⟨plane0, plane1, plane2⟩

/-- Replaces each plane, given its channel. -/
def mapPlanes (f : Nat → Plane → Plane) : Image :=
  ⟨f 0 i.plane0, f 1 i.plane1, f 2 i.plane2⟩

/-- Whether two images have the same rows, sample by sample as numbers.  The first plane that
differs decides. -/
def sameRows (i j : Image) : Except Misuse Bool := do
  if ← i.plane0.sameRows j.plane0 then
    if ← i.plane1.sameRows j.plane1 then i.plane2.sameRows j.plane2 else return false
  else return false

end Image

/-- A frame: its colors, its further channels, and what the colors mean. -/
structure Bundle where
  /-- The color planes, once there are any. -/
  color : Option Image := none
  /-- The channels from number three on. -/
  extras : List Plane := []
  /-- What the color planes hold. -/
  encoding : ColorEncoding := .srgb
deriving DecidableEq, Repr

namespace Bundle

variable (b : Bundle)

/-- The frame with the given colors and nothing else. -/
def ofColor (color : Image) (encoding : ColorEncoding) : Bundle := ⟨some color, [], encoding⟩

/-- Replaces the colors and what they mean, and keeps the further channels. -/
def setColor (color : Image) (encoding : ColorEncoding) : Bundle :=
  { b with color := some color, encoding }

/-- Appends a further channel, which must have the size of the colors if there are any. -/
def pushExtra (plane : Plane) : Except Fault Bundle :=
  let pushed := { b with extras := b.extras ++ [plane] }
  match b.color with
  | none => .ok pushed
  | some color =>
    if plane.size = color.size then .ok pushed
    else .error (.sizeMismatch (3 + b.extras.length) plane.size color.size)

/-- All channels, colors first; none if there are no colors. -/
def channels : List Plane :=
  match b.color with
  | none => []
  | some color => color.planes ++ b.extras

/-- Replaces each plane, given its channel; the further channels are those from number three
on. -/
def mapPlanes (f : Nat → Plane → Plane) : Bundle :=
  { b with color := b.color.map (·.mapPlanes f), extras := b.extras.mapIdx fun i ↦ f (3 + i) }

end Bundle

end Scanline
