import Scanline.Size

/-!
# Resource limits

Optional caps on the size of a frame and on the memory reserved for row buffers.  Width and
height are checked as 32-bit numbers and their product exactly.
-/

namespace Scanline

/-- A quantity that exceeded its limit. -/
inductive Excess where
  | width (actual limit : Nat)
  | height (actual limit : Nat)
  | pixels (actual limit : Nat)
  | memory (actual limit : Nat)
deriving DecidableEq, Repr

/-- The message for an exceeded limit. -/
def Excess.message : Excess → String
  | width actual limit => s!"width {actual} exceeds limit {limit}"
  | height actual limit => s!"height {actual} exceeds limit {limit}"
  | pixels actual limit => s!"pixel count {actual} exceeds limit {limit}"
  | memory actual limit => s!"memory {actual} bytes exceeds limit {limit}"

/-- Caps on a frame; an absent one does not limit. -/
structure Limits where
  /-- The most pixels. -/
  pixels : Option Nat := none
  /-- The most bytes reserved for row buffers. -/
  memory : Option Nat := none
  /-- The greatest width. -/
  width : Option Nat := none
  /-- The greatest height. -/
  height : Option Nat := none
deriving DecidableEq, Repr

namespace Limits

/-- Refuses a quantity above its limit. -/
def check (limit : Option Nat) (actual : Nat) (exceeded : Nat → Nat → Excess) :
    Except Excess Unit :=
  match limit with
  | some most => if most < actual then .error (exceeded actual most) else .ok ()
  | none => .ok ()

/-- Checks the size of a frame: width first, then height, then their product. -/
def checkFrame (l : Limits) (width height : Nat) : Except Excess Unit := do
  check l.width width .width
  check l.height height .height
  check l.pixels (width * height) .pixels

/-- Checks an amount of memory. -/
def checkReserved (l : Limits) (bytes : Nat) : Except Excess Unit :=
  check l.memory bytes .memory

/-- The largest dimension that a check sees; a longer side counts as this long. -/
def largestSide : Nat := 1 <<< 32 - 1

/-- A side as the checks see it. -/
def side (n : Nat) : Nat := min n largestSide

end Limits

end Scanline
