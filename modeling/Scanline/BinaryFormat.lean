/-!
# Binary floating formats

A format is given by the widths of its fraction and exponent fields.  A *magnitude pattern* is an
encoding without its sign bit; patterns are ordered like the values they stand for, and `units`
counts a value in multiples of the smallest positive one, so that every finite value is a natural
number.  The same formula gives infinity the power of two that follows the largest finite value.

`BinaryFormat.round` is the only place where a value is rounded: it takes an exact quotient and
returns the nearest magnitude pattern, a tie going to the even one.
-/

namespace Scanline

/-- The integer nearest to `n / d`; of two that are equally near, the even one. -/
def roundHalfEven (n d : Nat) : Nat :=
  if 2 * (n % d) < d then n / d
  else if d < 2 * (n % d) then n / d + 1
  else n / d + n / d % 2

/-- An interchange format with a sign bit, an exponent field and a fraction field. -/
structure BinaryFormat where
  /-- Width of the fraction field. -/
  fractionBits : Nat
  /-- Width of the exponent field. -/
  exponentBits : Nat
deriving DecidableEq, Repr

namespace BinaryFormat

/-- The 32-bit format. -/
def single : BinaryFormat := ⟨23, 8⟩

/-- The 16-bit format. -/
def half : BinaryFormat := ⟨10, 5⟩

variable (F : BinaryFormat)

/-- The magnitude pattern of infinity: all exponent bits set and no fraction. -/
def infinity : Nat := (1 <<< F.exponentBits - 1) <<< F.fractionBits

/-- The bit that carries the sign, above every magnitude pattern. -/
def signBit : Nat := 1 <<< (F.exponentBits + F.fractionBits)

/-- The magnitude that a pattern stands for, in multiples of the smallest positive value.  With
an exponent field of zero the fraction counts alone; above it the leading one is implied and
each further exponent doubles. -/
def units (pattern : Nat) : Nat :=
  let top := 1 <<< F.fractionBits
  if pattern < top then pattern else (top + pattern % top) <<< (pattern / top - 1)

/-- How many doublings of the spacing a magnitude of `n / d` units needs before its significand
fits the format. -/
def binade (n d : Nat) : Nat := (n / d).log2 - F.fractionBits

/-- The magnitude pattern nearest to `n / d` units.  The significand is rounded to the spacing
of its binade; a carry out of it runs into the exponent field by itself, and whatever passes
the largest finite pattern is infinity. -/
def round (n d : Nat) : Nat :=
  min F.infinity
    (F.binade n d <<< F.fractionBits + roundHalfEven n (d <<< F.binade n d))

end BinaryFormat

end Scanline
