import Scanline.Sample

/-!
# Decimal text of a sample

`Sample.text` writes a sample with the fewest significant digits that read back to it, in
positional notation.  The search is exact: a decimal reads back if it lies in the interval of
numbers that round to the sample, whose ends belong to it when the pattern is even.
-/

namespace Scanline.Sample

/-- The multiples of `10 ^ exponent` just below and just above the magnitude of a pattern that
read back to it, the nearer one if both do, and the larger of two that are equally near. -/
def decimalAt? (pattern : Nat) (exponent : Int) : Option Nat :=
  let F := BinaryFormat.single
  -- everything is doubled, so that the ends of the interval are integers
  let up := Nat.pow 10 (-exponent).toNat
  let unit := 2 * unitsPerOne * Nat.pow 10 exponent.toNat
  let low := (F.units (pattern - 1) + F.units pattern) * up
  let exact := 2 * F.units pattern * up
  let high := (F.units pattern + F.units (pattern + 1)) * up
  let readsBack (c : Nat) : Bool :=
    if pattern % 2 = 0 then low ≤ c * unit && c * unit ≤ high
    else low < c * unit && c * unit < high
  let c := exact / unit
  match readsBack c, readsBack (c + 1) with
  | true, true => some (if 2 * (exact % unit) < unit then c else c + 1)
  | true, false => some c
  | false, true => some (c + 1)
  | false, false => none

/-- The exponents tried in turn, from above the largest sample to below the smallest. -/
def decimalExponents : List Int := (List.range 100).map fun i : Nat ↦ 39 - (i : Int)

/-- The shortest decimal of a positive finite pattern, as digits and a power of ten. -/
def shortestDecimal (pattern : Nat) : Nat × Int :=
  (decimalExponents.findSome? fun e ↦ (decimalAt? pattern e).map fun c ↦ (c, e)).getD (0, 0)

/-- The number `digits * 10 ^ exponent` in positional notation. -/
def positional (digits : Nat) (exponent : Int) : String :=
  let text := Nat.toDigits 10 digits
  if 0 ≤ exponent then String.ofList (text ++ List.replicate exponent.toNat '0')
  else
    let places := (-exponent).toNat
    let padded := List.replicate (places + 1 - text.length) '0' ++ text
    let whole := padded.length - places
    String.ofList (padded.take whole ++ '.' :: padded.drop whole)

/-- The text of a sample: the fewest digits that read back to it, never with an exponent. -/
def text (a : Sample) : String :=
  if a.isNaN then "NaN"
  else
    let sign := if a.isNegative then "-" else ""
    let size :=
      if a.isInfinite then "inf"
      else if a.isZero then "0"
      else
        let (digits, exponent) := shortestDecimal a.magnitude
        positional digits exponent
    sign ++ size

end Scanline.Sample
