import Mathlib.Algebra.Group.Defs
import Mathlib.Data.Set.Function
import Scanline.Pixel.Orientation

/-!
# Orientations as symmetries

An orientation is made of three parts: two flips, and an exchange of the axes after them.  One
orientation after another is again one, whose parts are found by sorting the flips of the second by
the axes that the first has exchanged.  This makes the orientations a group, and `Orientation.place`
its action on images of all sizes (`place_mul`).  Hence undoing an orientation is a bijection of the
pixels (`bijOn_place`), and any two orientations have exactly one composition
(`followedBy_iff`).
-/

namespace Scanline

namespace Orientation

/-! ## Indices from either end -/

/-- An index, counted from the other end if it is flipped. -/
def turned (flip : Bool) (n i : Nat) : Nat := if flip then opposite n i else i

theorem turned_lt {flip : Bool} {n i : Nat} (h : i < n) : turned flip n i < n := by
  unfold turned opposite
  split <;> omega

theorem turned_turned {n i : Nat} (h : i < n) (a b : Bool) :
    turned b n (turned a n i) = turned (a ^^ b) n i := by
  have hback : opposite n (opposite n i) = i := by
    unfold opposite
    omega
  cases a <;> cases b <;> simp [turned, hback]

theorem place_eq (o : Orientation) (x y width height : Nat) :
    o.place x y width height =
      if o.swapsAxes then (turned o.flipsRows height y, turned o.flipsColumns width x)
      else (turned o.flipsColumns width x, turned o.flipsRows height y) := rfl

/-! ## Composition -/

/-- The orientation with the given parts. -/
def ofParts : (flipsColumns flipsRows swapsAxes : Bool) → Orientation
  | false, false, false => identity
  | true, false, false => flipHorizontal
  | true, true, false => rotate180
  | false, true, false => flipVertical
  | false, false, true => transpose
  | false, true, true => rotate90
  | true, true, true => antiTranspose
  | true, false, true => rotate270

section OfParts

variable (columns rows axes : Bool)

@[simp] theorem flipsColumns_ofParts : (ofParts columns rows axes).flipsColumns = columns := by
  cases columns <;> cases rows <;> cases axes <;> rfl

@[simp] theorem flipsRows_ofParts : (ofParts columns rows axes).flipsRows = rows := by
  cases columns <;> cases rows <;> cases axes <;> rfl

@[simp] theorem swapsAxes_ofParts : (ofParts columns rows axes).swapsAxes = axes := by
  cases columns <;> cases rows <;> cases axes <;> rfl

@[simp] theorem ofParts_parts (o : Orientation) :
    ofParts o.flipsColumns o.flipsRows o.swapsAxes = o := by cases o <;> rfl

end OfParts

theorem eq_of_parts {o p : Orientation} (columns : o.flipsColumns = p.flipsColumns)
    (rows : o.flipsRows = p.flipsRows) (axes : o.swapsAxes = p.swapsAxes) : o = p := by
  rw [← ofParts_parts o, ← ofParts_parts p, columns, rows, axes]

/-- `q * o` is `o` and then `q`.  A flip of `q` is one of the other axis where `o` exchanges
them. -/
instance : Mul Orientation where
  mul q o := ofParts
    (o.flipsColumns ^^ if o.swapsAxes then q.flipsRows else q.flipsColumns)
    (o.flipsRows ^^ if o.swapsAxes then q.flipsColumns else q.flipsRows)
    (o.swapsAxes ^^ q.swapsAxes)

instance : One Orientation := ⟨identity⟩

/-- What undoes an orientation: the same flips, of the axes that it leaves. -/
instance : Inv Orientation where
  inv o := ofParts
    (if o.swapsAxes then o.flipsRows else o.flipsColumns)
    (if o.swapsAxes then o.flipsColumns else o.flipsRows)
    o.swapsAxes

section Mul

variable (q o : Orientation)

@[simp] theorem flipsColumns_mul : (q * o).flipsColumns =
    (o.flipsColumns ^^ if o.swapsAxes then q.flipsRows else q.flipsColumns) :=
  flipsColumns_ofParts _ _ _

@[simp] theorem flipsRows_mul : (q * o).flipsRows =
    (o.flipsRows ^^ if o.swapsAxes then q.flipsColumns else q.flipsRows) :=
  flipsRows_ofParts _ _ _

@[simp] theorem swapsAxes_mul : (q * o).swapsAxes = (o.swapsAxes ^^ q.swapsAxes) :=
  swapsAxes_ofParts _ _ _

end Mul

/-- The orientations are the symmetries of a rectangle, with an exchange of its sides. -/
instance : Group Orientation where
  mul_assoc r q o := by
    refine eq_of_parts ?_ ?_ ?_
    · simp only [flipsColumns_mul, flipsRows_mul, swapsAxes_mul]
      cases o.swapsAxes <;> cases q.swapsAxes <;> simp
    · simp only [flipsColumns_mul, flipsRows_mul, swapsAxes_mul]
      cases o.swapsAxes <;> cases q.swapsAxes <;> simp
    · simp
  one_mul o := by cases o <;> rfl
  mul_one o := by cases o <;> rfl
  inv_mul_cancel o := by cases o <;> rfl

/-! ## The action on images -/

/-- The pixels of an image of the given size. -/
def pixels (size : Nat × Nat) : Set (Nat × Nat) := {p | p.1 < size.1 ∧ p.2 < size.2}

section Action

variable (o q : Orientation) {x y width height : Nat}

theorem displaySize_mul :
    q.displaySize (o.displaySize width height).1 (o.displaySize width height).2 =
      (q * o).displaySize width height := by
  simp only [displaySize, swapsAxes_mul]
  cases o.swapsAxes <;> cases q.swapsAxes <;> rfl

variable (hx : x < width) (hy : y < height)
include hx hy

theorem place_mem : o.place x y width height ∈ pixels (o.displaySize width height) := by
  have hcolumn : turned o.flipsColumns width x < width := turned_lt hx
  have hrow : turned o.flipsRows height y < height := turned_lt hy
  rw [place_eq, displaySize]
  split
  · exact ⟨hrow, hcolumn⟩
  · exact ⟨hcolumn, hrow⟩

/-- Where a pixel lands by one orientation and then by another, it lands by their composition. -/
theorem place_mul :
    q.place (o.place x y width height).1 (o.place x y width height).2
        (o.displaySize width height).1 (o.displaySize width height).2 =
      (q * o).place x y width height := by
  simp only [place_eq, displaySize, flipsColumns_mul, flipsRows_mul, swapsAxes_mul]
  cases o.swapsAxes <;> cases q.swapsAxes <;> simp [turned_turned hx, turned_turned hy]

end Action

/-- Undoing an orientation moves every pixel of the image to one on display, and each of these is
reached from one pixel: the inverse orientation leads back. -/
theorem bijOn_place (o : Orientation) (width height : Nat) :
    Set.BijOn (fun p ↦ o.place p.1 p.2 width height) (pixels (width, height))
      (pixels (o.displaySize width height)) := by
  have hsize : o⁻¹.displaySize (o.displaySize width height).1 (o.displaySize width height).2 =
      (o⁻¹ * o).displaySize width height := displaySize_mul o o⁻¹
  rw [inv_mul_cancel] at hsize
  let back : Nat × Nat → Nat × Nat := fun p ↦
    o⁻¹.place p.1 p.2 (o.displaySize width height).1 (o.displaySize width height).2
  have hinverse : Set.InvOn back (fun p ↦ o.place p.1 p.2 width height) (pixels (width, height))
      (pixels (o.displaySize width height)) := by
    constructor
    · rintro ⟨x, y⟩ ⟨hx, hy⟩
      have hback := place_mul o o⁻¹ hx hy
      rwa [inv_mul_cancel] at hback
    · rintro ⟨x, y⟩ ⟨hx, hy⟩
      have hback := place_mul o⁻¹ o hx hy
      rwa [mul_inv_cancel, hsize] at hback
  refine hinverse.bijOn ?_ ?_
  · rintro ⟨x, y⟩ ⟨hx, hy⟩
    exact o.place_mem hx hy
  · rintro ⟨x, y⟩ ⟨hx, hy⟩
    have hmem := o⁻¹.place_mem hx hy
    rwa [hsize] at hmem

/-- Whether an orientation does to every image what two others do one after the other: it takes each
pixel to the same place, in an image of the same size. -/
def FollowedBy (o q both : Orientation) : Prop :=
  ∀ ⦃width height x y : Nat⦄, x < width → y < height →
    let size := o.displaySize width height
    let pixel := o.place x y width height
    q.place pixel.1 pixel.2 size.1 size.2 = both.place x y width height ∧
      q.displaySize size.1 size.2 = both.displaySize width height

/-- Orientations differ on an image of two columns and three rows: its size on display tells whether
axes are exchanged, and the place of its first pixel what is flipped. -/
theorem eq_of_small {o p : Orientation} (pixel : o.place 0 0 2 3 = p.place 0 0 2 3)
    (size : o.displaySize 2 3 = p.displaySize 2 3) : o = p := by
  have hcolumns : ∀ o : Orientation,
      o.flipsColumns = decide ((o.place 0 0 2 3).1 = 1 ∨ (o.place 0 0 2 3).2 = 1) := by
    intro o
    cases o <;> rfl
  have hrows : ∀ o : Orientation,
      o.flipsRows = decide ((o.place 0 0 2 3).1 = 2 ∨ (o.place 0 0 2 3).2 = 2) := by
    intro o
    cases o <;> rfl
  have haxes : ∀ o : Orientation, o.swapsAxes = decide ((o.displaySize 2 3).1 = 3) := by
    intro o
    cases o <;> rfl
  exact eq_of_parts (by rw [hcolumns, pixel, ← hcolumns]) (by rw [hrows, pixel, ← hrows])
    (by rw [haxes, size, ← haxes])

/-- Two orientations, one after the other, are their composition and no other. -/
theorem followedBy_iff {o q both : Orientation} : o.FollowedBy q both ↔ both = q * o := by
  constructor
  · intro h
    obtain ⟨hpixel, hsize⟩ := @h 2 3 0 0 (by decide) (by decide)
    rw [place_mul o q (by decide) (by decide)] at hpixel
    rw [displaySize_mul] at hsize
    exact (eq_of_small hpixel hsize).symm
  · rintro rfl width height x y hx hy
    exact ⟨place_mul o q hx hy, displaySize_mul o q⟩

/-- The eight orientations act as a group on images of any size.  Each has a place for every pixel,
one for one; any two of them, one after the other, are exactly one of the eight; and each is undone
by exactly one, the turns by a right angle by each other and the six others by themselves. -/
theorem place_symmetries :
    (∀ (o : Orientation) (width height : Nat),
      (∀ x < width, ∀ y < height, o.locate x y width height = .ok (o.place x y width height)) ∧
      Set.BijOn (fun p ↦ o.place p.1 p.2 width height) (pixels (width, height))
        (pixels (o.displaySize width height))) ∧
    (∀ o q : Orientation, ∃! both, o.FollowedBy q both) ∧
    (∀ o : Orientation, ∃! q, o.FollowedBy q identity ∧ q.FollowedBy o identity) ∧
    (∀ o ∈ [identity, flipHorizontal, flipVertical, rotate180, transpose, antiTranspose],
      o.FollowedBy o identity) ∧
    rotate90.FollowedBy rotate270 identity ∧ rotate270.FollowedBy rotate90 identity := by
  refine ⟨fun o width height ↦ ⟨fun x hx y hy ↦ o.locate_of_lt hx hy, o.bijOn_place _ _⟩,
    fun o q ↦ ⟨q * o, followedBy_iff.2 rfl, fun both ↦ followedBy_iff.1⟩, fun o ↦ ?_, ?_, ?_, ?_⟩
  · refine ⟨o⁻¹, ⟨followedBy_iff.2 (inv_mul_cancel o).symm,
      followedBy_iff.2 (mul_inv_cancel o).symm⟩, ?_⟩
    rintro q ⟨hafter, -⟩
    exact eq_inv_of_mul_eq_one_left (followedBy_iff.1 hafter).symm
  · simp only [List.forall_mem_cons, List.not_mem_nil, false_implies, implies_true, and_true,
      followedBy_iff]
    decide
  · exact followedBy_iff.2 rfl
  · exact followedBy_iff.2 rfl

end Orientation

end Scanline
