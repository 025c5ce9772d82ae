import Scanline.Misuse
import Scanline.Sample

/-!
# Dividing through alpha

Interleaved pixels carry their colors first and alpha last.  `unpremultiply` multiplies the
colors of every complete pixel by the reciprocal of its alpha, which is raised to `leastAlpha`
first, so that a transparent pixel has a finite multiplier.
-/

namespace Scanline

/-- The smallest divisor, `2 ^ (-26)`. -/
def leastAlpha : Sample := ⟨0x32800000⟩

/-- What the colors of a pixel with the given alpha are multiplied by. -/
def alphaMultiplier (alpha : Sample) : Sample := Sample.one / alpha.max leastAlpha

/-- Divides the colors of each complete pixel through its alpha.  Alpha samples and an incomplete
last pixel stay as they are. -/
def unpremultiply (colors : Nat) (samples : Row) : Row :=
  samples.mapIdx fun i a ↦
    if i % (colors + 1) = colors then a
    else
      match samples[i / (colors + 1) * (colors + 1) + colors]? with
      | some alpha => a * alphaMultiplier alpha
      | none => a

/-- Divides the colors of complete pixels, provided that the number of samples of a pixel is a
size. -/
def unpremultiplyPixels (colors : Nat) (samples : Row) : Except Misuse Row := do
  let _ ← Size.ofNat (colors + 1)
  return unpremultiply colors samples

@[simp] theorem size_unpremultiply (colors : Nat) (samples : Row) :
    (unpremultiply colors samples).size = samples.size := by
  simp [unpremultiply]

end Scanline
