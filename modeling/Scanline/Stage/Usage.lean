import Scanline.Misuse

/-!
# How stages use channels

Every stage declares a mode for each channel.  From the modes of all stages a `Plan` is made for
each channel: at which stage it is loaded, with how many border samples, and whether a second
row is needed because some stage changes it.

`sizedPadding` says how far a stage reads beyond the pixels of a row: as far as its own border and
those of all later stages together, if that is a size.  `paddingOf` is the same for the borders of a
pipeline's own stages, which add up to no more than the number of stages.
-/

namespace Scanline

/-- How a stage uses one channel. -/
inductive Mode where
  /-- Read, and passed on unchanged. -/
  | read
  /-- Read and changed. -/
  | change
  /-- Left alone; the stage receives no row. -/
  | skip
deriving DecidableEq, Repr

namespace Mode

/-- Whether the stage receives a row. -/
def reads : Mode → Bool
  | read | change => true
  | skip => false

/-- Whether the stage writes a row. -/
def changes : Mode → Bool
  | change => true
  | read | skip => false

end Mode

/-- Samples available beside a row to each stage, and after the last stage none: entry `i` is
the sum of the borders from stage `i` on. -/
def paddingOf : List Nat → List Nat
  | [] => [0]
  | border :: rest =>
    let later := paddingOf rest
    (later.headD 0 + border) :: later

/-- The padding in sizes.  Borders are added up from the last stage on, and each sum must be a
size. -/
def sizedPadding : List Nat → Except Misuse (List Nat)
  | [] => .ok [0]
  | border :: rest => do
    let later ← sizedPadding rest
    return (← Size.ofNat (later.headD 0 + border)) :: later

/-- What becomes of one channel on its way through the stages. -/
structure Plan where
  /-- The first stage that uses the channel. -/
  first : Option Nat := none
  /-- The last stage that uses the channel. -/
  last : Option Nat := none
  /-- Whether a stage changes the channel. -/
  changed : Bool := false
  /-- How many samples are loaded beside a row, on each side. -/
  border : Nat := 0
deriving DecidableEq, Repr, Inhabited

namespace Plan

variable (p : Plan)

/-- Whether any stage uses the channel. -/
def inUse : Bool := p.first.isSome

/-- Whether a stage lies between the first and the last use. -/
def spans (stage : Nat) : Bool :=
  match p.first, p.last with
  | some first, some last => first ≤ stage && stage ≤ last
  | _, _ => false

/-- Takes account of one more stage, which has the given padding and uses the channel so. -/
def note (stage padding : Nat) (mode : Mode) : Plan :=
  if mode.reads then
    { first := some (p.first.getD stage)
      last := some stage
      changed := p.changed || mode.changes
      border := if p.first.isSome then p.border else padding }
  else p

/-- Takes account of a run of stages, numbered from `stage` on. -/
def noteAll : Plan → Nat → List Nat → List Mode → Plan
  | p, stage, padding :: paddings, mode :: modes =>
    noteAll (p.note stage padding mode) (stage + 1) paddings modes
  | p, _, _, _ => p

/-- The plan of a channel that the stages use in the given modes. -/
def ofModes (padding : List Nat) (modes : List Mode) : Plan :=
  noteAll {} 0 padding modes

end Plan

/-- The modes in which the stages use one channel. -/
def modesOf (modes : List (List Mode)) (channel : Nat) : List Mode :=
  modes.map fun row ↦ row[channel]?.getD .skip

/-- The plans of all channels. -/
def planChannels (modes : List (List Mode)) (padding : List Nat) (channels : Nat) : List Plan :=
  (List.range channels).map fun c ↦ Plan.ofModes padding (modesOf modes c)

end Scanline
