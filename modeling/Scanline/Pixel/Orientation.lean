import Scanline.Misuse

/-!
# Orientations

The eight ways in which stored pixels may lie relative to the display.  Undoing one is an
optional exchange of left and right, an optional exchange of top and bottom, and then an
optional exchange of the two axes.  `Orientation.place` says where a pixel of the image lands;
`Orientation.locate` also answers for positions outside it, as far as there is an answer.
-/

namespace Scanline

/-- How stored pixels lie relative to the display. -/
inductive Orientation where
  | identity
  | flipHorizontal
  | rotate180
  | flipVertical
  | transpose
  | rotate90
  | antiTranspose
  | rotate270
deriving DecidableEq, Repr

namespace Orientation

/-- The orientation with a given tag value; an unknown tag asks for nothing. -/
def ofTag : Nat → Orientation
  | 2 => flipHorizontal
  | 3 => rotate180
  | 4 => flipVertical
  | 5 => transpose
  | 6 => rotate90
  | 7 => antiTranspose
  | 8 => rotate270
  | _ => identity

/-- The tag value of an orientation. -/
def tag : Orientation → Nat
  | identity => 1
  | flipHorizontal => 2
  | rotate180 => 3
  | flipVertical => 4
  | transpose => 5
  | rotate90 => 6
  | antiTranspose => 7
  | rotate270 => 8

@[simp] theorem ofTag_tag (o : Orientation) : ofTag o.tag = o := by cases o <;> rfl

/-- Whether undoing exchanges left and right. -/
def flipsColumns : Orientation → Bool
  | flipHorizontal | rotate180 | rotate270 | antiTranspose => true
  | identity | flipVertical | transpose | rotate90 => false

/-- Whether undoing exchanges top and bottom. -/
def flipsRows : Orientation → Bool
  | flipVertical | rotate180 | rotate90 | antiTranspose => true
  | identity | flipHorizontal | transpose | rotate270 => false

/-- Whether undoing exchanges the axes, after the flips. -/
def swapsAxes : Orientation → Bool
  | transpose | rotate90 | rotate270 | antiTranspose => true
  | identity | flipHorizontal | rotate180 | flipVertical => false

/-- Whether there is nothing to undo. -/
def isIdentity (o : Orientation) : Bool := o = identity

/-- The size on display of an image stored with the given width and height. -/
def displaySize (o : Orientation) (width height : Nat) : Nat × Nat :=
  if o.swapsAxes then (height, width) else (width, height)

/-- The index opposite to `i` among `n`, counted from the other end. -/
def opposite (n i : Nat) : Nat := n - 1 - i

/-- Where the stored pixel `(x, y)` of a `width × height` image lands. -/
def place (o : Orientation) (x y width height : Nat) : Nat × Nat :=
  let x := if o.flipsColumns then opposite width x else x
  let y := if o.flipsRows then opposite height y else y
  if o.swapsAxes then (y, x) else (x, y)

/-- Where a position lands.  It may lie outside the image, but not in a direction that is
flipped: beyond the far end there is no opposite index. -/
def locate (o : Orientation) (x y width height : Nat) : Except Misuse (Nat × Nat) :=
  if (o.flipsColumns → x < width) ∧ (o.flipsRows → y < height) then
    .ok (o.place x y width height)
  else .error .overflow

theorem locate_of_lt (o : Orientation) {x y width height : Nat} (hx : x < width)
    (hy : y < height) : o.locate x y width height = .ok (o.place x y width height) :=
  if_pos ⟨fun _ ↦ hx, fun _ ↦ hy⟩

end Orientation

end Scanline
