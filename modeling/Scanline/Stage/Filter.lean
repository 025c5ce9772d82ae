import Scanline.Stage.Usage
import Scanline.Row.Window

/-!
# Filters

Stages that change the three color channels and pass everything else on.  `Premultiply` folds
alpha into color; `Smooth` weighs neighbors along the row, and is the one filter that reads
samples beside the segment.
-/

namespace Scanline

/-- The channels that hold color. -/
def colorChannels : List Nat := [0, 1, 2]

/-- Writes the samples made for each color into its row, from `target` on. -/
def Rows.writeColors (output : Rows) (target : Nat) (make : Nat → Except Misuse Row) :
    Except Misuse Rows :=
  colorChannels.foldlM (fun output channel ↦ do output.write channel target (← make channel))
    output

/-- Multiplies the colors by an alpha channel. -/
structure Premultiply where
  /-- The alpha channel. -/
  alpha : Nat
  /-- Alpha is not one of the colors. -/
  le_alpha : 3 ≤ alpha
deriving DecidableEq, Repr

namespace Premultiply

/-- Premultiplies by a channel that is not one of the colors. -/
def ofAlpha (alpha : Nat) : Except Fault Premultiply :=
  if h : alpha < 3 then .error (.inconsistent (.alphaOverlapsColor alpha))
  else .ok ⟨alpha, Nat.le_of_not_lt h⟩

variable (s : Premultiply)

/-- How a channel is used. -/
def mode (channel : Nat) : Mode :=
  if channel < 3 then .change else if channel = s.alpha then .read else .skip

/-- The fewest channels a frame must have. -/
def channelsNeeded : Nat := s.alpha + 1

/-- Color times alpha, sample by sample. -/
def apply (color alpha : Row) : Row := Array.zipWith (· * ·) color alpha

/-- Produces one segment. -/
def produce (input output : Rows) (segment : Segment) : Except Misuse Rows := do
  let length ← Size.ofNat segment.produced
  let start ← Size.sub input.pad segment.extra
  let target ← Size.sub output.pad segment.extra
  let alpha ← (← input.row s.alpha).slice start length
  output.writeColors target fun channel ↦ do
    return apply (← (← input.row channel).slice start length) alpha

end Premultiply

/-- Smooths the colors along the row, with one weight for the sample itself and one for each
neighbor. -/
structure Smooth where
  /-- The weight of the sample itself. -/
  center : Sample
  /-- The weight of each neighbor. -/
  side : Sample
deriving DecidableEq, Repr

namespace Smooth

/-- One half for the sample itself and a quarter for each neighbor. -/
def standard : Smooth := ⟨⟨0x3f000000⟩, ⟨0x3e800000⟩⟩

/-- The filter with the given weights, scaled to sum to one. -/
def ofWeights (center side : Sample) : Except Fault Smooth :=
  let sum := center + Sample.two * side
  if sum.isFinite && Sample.zero.below sum then .ok ⟨center / sum, side / sum⟩
  else .error (.inconsistent (.weights center side))

variable (s : Smooth)

/-- How a channel is used. -/
def mode (channel : Nat) : Mode := if channel < 3 then .change else .skip

/-- How many neighbors are read on each side. -/
def border : Nat := 1

/-- The smoothed samples of a row; the outermost ones only serve as neighbors. -/
def apply (row : Row) : Row :=
  Array.ofFn fun i : Fin (row.size - 2) ↦
    s.center * row[i.val + 1] + s.side * (row[i.val] + row[i.val + 2])

/-- Produces one segment. -/
def produce (input output : Rows) (segment : Segment) : Except Misuse Rows := do
  let length ← Size.ofNat segment.produced
  let start ← Size.sub input.pad (segment.extra + border)
  let target ← Size.sub output.pad segment.extra
  output.writeColors target fun channel ↦ do
    return s.apply (← (← input.row channel).slice start (length + 2))

end Smooth

/-- A stage that changes channels. -/
inductive Filter where
  | premultiply (s : Premultiply)
  | smooth (s : Smooth)
deriving DecidableEq, Repr

namespace Filter

/-- The kind of stage. -/
def kind : Filter → StageKind
  | premultiply _ => .premultiply
  | smooth _ => .smooth

/-- How a channel is used. -/
def mode : Filter → Nat → Mode
  | premultiply s => s.mode
  | smooth _ => Smooth.mode

/-- How many neighbors are read on each side. -/
def border : Filter → Nat
  | premultiply _ => 0
  | smooth _ => Smooth.border

/-- The fewest channels a frame must have. -/
def channelsNeeded : Filter → Nat
  | premultiply s => s.channelsNeeded
  | smooth _ => 3

/-- Produces one segment. -/
def produce : Filter → Rows → Rows → Segment → Except Misuse Rows
  | premultiply s => s.produce
  | smooth s => s.produce

end Filter

end Scanline
