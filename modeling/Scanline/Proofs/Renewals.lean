import Scanline.Proofs.Targets

/-!
# Targets that are bound

A sink of planes keeps what its target already has of the right size and replaces the rest by
zeros.  `Plane.Renewed` says so of a list of planes that are kept or replaced together; a bundle has
two such lists, its colors and its further planes, and an image one (`Sink.Renews`).

Main statements:

- the plane of a channel is the one that was there or one of zeros, and the three colors are kept
  together (`Sink.isBase_of_bind`), whatever sizes they have;
- a target whose colors have one size is renewed (`Sink.renews_of_bind`).  All of its planes then
  have the size of the frame's channels (`Sink.Renews.map_size_planes`), and they hold their rows
  if those did that were there (`Sink.Renews.holdsRows`).
-/

namespace Scanline

/-! ## Planes that are kept or replaced -/

namespace Plane

/-- A plane of zeros without gaps between its rows. -/
structure IsBlank (plane : Plane) (size : Nat × Nat) : Prop where
  /-- It has the size that is asked for. -/
  size_eq : plane.size = size
  /-- Its rows follow one another. -/
  stride_eq : plane.stride = size.1
  /-- All of its samples are zero. -/
  samples_eq : plane.samples = Array.replicate (size.1 * size.2) .zero

theorem isBlank_of_allocate {width height : Nat} {plane : Plane}
    (h : allocate width height = .ok plane) : plane.IsBlank (width, height) := by
  obtain ⟨hsize, hstride, hsamples, -⟩ := of_allocate h
  exact ⟨hsize, hstride, hsamples⟩

theorem IsBlank.holdsRows {plane : Plane} {size : Nat × Nat} (h : plane.IsBlank size) :
    plane.HoldsRows := by
  obtain ⟨width, height⟩ := size
  obtain ⟨hsize, hstride, hsamples⟩ := h
  obtain ⟨hwidth, hheight⟩ := Prod.mk.inj hsize
  dsimp only at hstride hsamples
  refine ⟨by rw [hwidth, hstride], fun y hy ↦ ?_⟩
  rw [hsamples, Array.size_replicate, hstride, hwidth]
  rw [hheight] at hy
  calc y * width + width = (y + 1) * width := by rw [Nat.add_mul, Nat.one_mul]
    _ ≤ height * width := Nat.mul_le_mul_right _ hy
    _ = width * height := Nat.mul_comm _ _

/-- What becomes of planes when there must be `count` of a size: those that were there stay if they
fit, and otherwise all of them are replaced by zeros. -/
structure Renewed (old new : List Plane) (count : Nat) (size : Nat × Nat) : Prop where
  /-- There are as many as there must be, and they have the size. -/
  sizes_eq : new.map Plane.size = List.replicate count size
  /-- They are the ones that were there exactly if these fit. -/
  kept_iff : new = old ↔ old.map Plane.size = List.replicate count size
  /-- If those that were there do not fit, all are new. -/
  blank : old.map Plane.size ≠ List.replicate count size → ∀ plane ∈ new, plane.IsBlank size

section Renewed

variable {old new : List Plane} {count : Nat} {size : Nat × Nat}

theorem renewed_of_fits (fits : old.map Plane.size = List.replicate count size) :
    Renewed old old count size :=
  ⟨fits, iff_of_true rfl fits, fun hne ↦ absurd fits hne⟩

theorem renewed_of_blank (hlength : new.length = count)
    (hblank : ∀ plane ∈ new, plane.IsBlank size)
    (hfits : old.map Plane.size ≠ List.replicate count size) : Renewed old new count size := by
  have hsizes : new.map Plane.size = List.replicate count size := by
    refine List.eq_replicate_iff.2 ⟨by rw [List.length_map, hlength], fun other hother ↦ ?_⟩
    obtain ⟨plane, hmem, rfl⟩ := List.mem_map.1 hother
    exact (hblank plane hmem).size_eq
  exact ⟨hsizes, iff_of_false (fun h ↦ hfits (h ▸ hsizes)) hfits, fun _ ↦ hblank⟩

theorem Renewed.holdsRows (h : Renewed old new count size)
    (hold : ∀ plane ∈ old, plane.HoldsRows) : ∀ plane ∈ new, plane.HoldsRows := by
  by_cases fits : old.map Plane.size = List.replicate count size
  · rw [h.kept_iff.2 fits]
    exact hold
  · exact fun plane hmem ↦ (h.blank fits plane hmem).holdsRows

end Renewed

end Plane

/-- Whether a plane holds its rows can be computed. -/
instance Plane.decidableHoldsRows (plane : Plane) : Decidable plane.HoldsRows :=
  inferInstanceAs (Decidable (_ ∧ ∀ y < plane.height, _))

/-! ## Colors and further planes -/

/-- An image whose planes have one size, as all have that are made of planes that are there. -/
def Image.Uniform (image : Image) : Prop :=
  image.planes.map Plane.size = List.replicate 3 image.size

/-- An image whose planes hold their rows and have one size. -/
structure Image.Whole (image : Image) : Prop where
  /-- All planes have the size of the image. -/
  sizes_eq : image.planes.map Plane.size = List.replicate 3 image.size
  /-- Their buffers hold all rows. -/
  holdsRows : ∀ plane ∈ image.planes, plane.HoldsRows

/-- Images that are made of planes which are there are uniform, since their sizes are compared. -/
theorem Image.uniform_of_ofPlanes {plane0 plane1 plane2 : Plane} {image : Image}
    (h : Image.ofPlanes plane0 plane1 plane2 = .ok image) : image.Uniform := by
  unfold ofPlanes at h
  split_ifs at h with h1 h2
  cases h
  simp only [Uniform, planes, size, List.map_cons, List.map_nil, not_not.1 h1, not_not.1 h2]
  rfl

/-- The colors that a target has once it is bound: those that were there, all three of them, if the
first fits, and otherwise three planes of zeros. -/
theorem Image.kept_or_blank_of_reuse {old : Option Image} {size : Nat × Nat} {image : Image}
    (h : Image.reuse old size = .ok image) :
    (old.map Image.size = some size → old = some image) ∧
      (old.map Image.size ≠ some size → ∀ plane ∈ image.planes, plane.IsBlank size) := by
  rcases Image.of_reuse h with ⟨rfl, hsize⟩ | ⟨hsize, hmade⟩
  · exact ⟨fun _ ↦ rfl, fun hne ↦ absurd (congrArg some hsize) hne⟩
  · refine ⟨fun hfits ↦ ?_, fun _ plane hmem ↦
      Plane.isBlank_of_allocate (Image.of_allocate hmade plane hmem)⟩
    obtain ⟨there, rfl, hthere⟩ := Option.map_eq_some_iff.1 hfits
    exact absurd hthere (hsize there rfl)

/-- The colors of a target are kept or replaced as a whole. -/
theorem Image.renewed_of_reuse {old : Option Image} {size : Nat × Nat} {image : Image}
    (h : Image.reuse old size = .ok image)
    (uniform : ∀ there, old = some there → there.Uniform) :
    Plane.Renewed ((old.map Image.planes).getD []) image.planes 3 size := by
  obtain ⟨hkept, hblank⟩ := kept_or_blank_of_reuse h
  by_cases hsize : old.map Image.size = some size
  · obtain ⟨there, rfl, hthere⟩ := Option.map_eq_some_iff.1 hsize
    obtain rfl : there = image := Option.some.inj (hkept hsize)
    exact Plane.renewed_of_fits (hthere ▸ uniform there rfl)
  · refine Plane.renewed_of_blank rfl (hblank hsize) fun hfits ↦ hsize ?_
    cases old with
    | none => cases hfits
    | some there =>
      have hsame : List.replicate 3 there.size = List.replicate 3 size :=
        (uniform there rfl).symm.trans hfits
      exact congrArg some (List.replicate_right_injective (by decide) hsame)

/-- The further planes of a bundle are kept or replaced as a whole, and nothing else changes. -/
theorem FrameSink.renewed_of_bindExtras {s t : FrameSink} {n : Nat} {size : Nat × Nat}
    (h : s.bindExtras (List.replicate n size) = .done t) :
    Plane.Renewed s.bundle.extras t.bundle.extras n size := by
  have hlength := (of_bindExtras h).2
  unfold bindExtras at h
  split_ifs at h with hfits
  · cases h
    exact Plane.renewed_of_fits hfits
  · simp only [Outcome.done, Outcome.mk.injEq] at h
    obtain ⟨rfl, hnone⟩ := h
    refine Plane.renewed_of_blank hlength (fun plane hmem ↦ ?_) hfits
    obtain ⟨i, hi⟩ := List.mem_iff_getElem?.1 hmem
    obtain ⟨other, hother, hnew⟩ := (Plane.of_allocateAll hnone).2 i plane hi
    rw [List.eq_of_mem_replicate (List.mem_of_getElem? hother)] at hnew
    exact Plane.isBlank_of_allocate hnew

/-! ## Targets -/

/-- What becomes of a bundle when it is bound: it is marked, and colors and further planes are kept
or replaced, neither of them minding the other. -/
structure FrameSink.Renews (s t : FrameSink) (channels : Nat) (size : Nat × Nat) : Prop where
  /-- It is marked as the sink says. -/
  encoding_eq : t.bundle.encoding = s.encoding
  /-- It has colors, which are three planes. -/
  exists_color : ∃ color, t.bundle.color = some color ∧
    Plane.Renewed ((s.bundle.color.map Image.planes).getD []) color.planes 3 size
  /-- It has a further plane for every channel after these. -/
  extras : Plane.Renewed s.bundle.extras t.bundle.extras (channels - 3) size

/-- Binding a bundle renews it. -/
theorem FrameSink.renews_of_bind {s t : FrameSink} {n : Nat} {size : Nat × Nat}
    (h : s.bind (List.replicate n size) = .done t)
    (uniform : ∀ image, s.bundle.color = some image → image.Uniform) : s.Renews t n size := by
  obtain ⟨-, color, mid, hcolor, hextras, hadopt⟩ := exists_of_bind h
  have hmid := (of_bindExtras hextras).1
  have ht := (of_adopt hadopt).1
  have hrenewed := renewed_of_bindExtras hextras
  rw [show mid.bundle.extras = t.bundle.extras by rw [ht]] at hrenewed
  exact ⟨by rw [ht, hmid], ⟨color, by rw [ht, hmid], Image.renewed_of_reuse hcolor uniform⟩,
    hrenewed⟩

namespace Sink

/-- The planes of a target in channel order; none if it has no colors. -/
def planes : Sink → List Plane
  | frame s => s.bundle.channels
  | planar s => (s.image.map Image.planes).getD []
  | packed _ | stream _ => []

/-- A target whose colors, if it has any, have one size. -/
def Uniform : Sink → Prop
  | frame s => ∀ image, s.bundle.color = some image → image.Uniform
  | planar s => ∀ image, s.image = some image → image.Uniform
  | packed _ | stream _ => True

/-- A target whose planes hold their rows, and whose colors have one size. -/
def Whole : Sink → Prop
  | frame s => (∀ image, s.bundle.color = some image → image.Whole) ∧
      ∀ plane ∈ s.bundle.extras, plane.HoldsRows
  | planar s => ∀ image, s.image = some image → image.Whole
  | packed _ | stream _ => True

/-- What becomes of a target when it is bound to the channels of a frame. -/
def Renews (channels : Nat) (size : Nat × Nat) : Sink → Sink → Prop
  | frame s, frame t => s.Renews t channels size
  | planar s, planar t => ∃ image, t.image = some image ∧
      Plane.Renewed ((s.image.map Image.planes).getD []) image.planes 3 size
  | _, _ => False

/-- Whether a target keeps the plane of a channel when it is bound.  The colors stay, all three of
them, if the first has the size of the frame, and the further planes if there is one of that size
for every further channel. -/
def Keeps (channels : Nat) (size : Nat × Nat) : Sink → Nat → Prop
  | frame s, c =>
    if c < 3 then s.bundle.color.map Image.size = some size
    else s.bundle.extras.map Plane.size = List.replicate (channels - 3) size
  | planar s, _ => s.image.map Image.size = some size
  | packed _, _ | stream _, _ => False

/-- The plane of a channel that a target has once it is bound to the channels of a frame. -/
structure IsBase (s : Sink) (channels : Nat) (size : Nat × Nat) (c : Nat) (base : Plane) :
    Prop where
  /-- A plane that is kept is the one that was there. -/
  kept : s.Keeps channels size c → s.plane? c = some base
  /-- A plane that is not is one of zeros. -/
  blank : ¬s.Keeps channels size c → base.IsBlank size

section Renews

variable {s t : Sink} {n c : Nat} {size : Nat × Nat} {base : Plane}

theorem Whole.uniform (h : s.Whole) : s.Uniform := by
  cases s with
  | packed s => trivial
  | stream s => trivial
  | frame s => exact fun image himage ↦ (h.1 image himage).sizes_eq
  | planar s => exact fun image himage ↦ (h image himage).sizes_eq

/-- If the colors of a target have one size, its planes have that of the frame. -/
theorem IsBase.size_eq (h : s.IsBase n size c base) (uniform : s.Uniform) : base.size = size := by
  have hcolors : ∀ {old : Option Image}, (∀ image, old = some image → image.Uniform) →
      old.map Image.size = some size → old.bind (·.planes[c]?) = some base → base.size = size := by
    intro old huniform hfits hplane
    obtain ⟨image, rfl, rfl⟩ := Option.map_eq_some_iff.1 hfits
    have hmem := List.mem_of_getElem? hplane
    exact List.eq_of_mem_replicate (huniform image rfl ▸ List.mem_map_of_mem hmem)
  by_cases keeps : s.Keeps n size c
  case neg => exact (h.blank keeps).size_eq
  have hplane := h.kept keeps
  cases s with
  | packed s => cases hplane
  | stream s => cases hplane
  | planar s => exact hcolors uniform keeps hplane
  | frame s =>
    rw [Keeps] at keeps
    rw [plane?, Bundle.plane?] at hplane
    split_ifs at keeps hplane
    · exact hcolors uniform keeps hplane
    · have hmem := List.mem_of_getElem? hplane
      exact List.eq_of_mem_replicate (keeps ▸ List.mem_map_of_mem hmem)

/-- If the planes of a target hold their rows, so do those that it has once it is bound. -/
theorem IsBase.holdsRows (h : s.IsBase n size c base) (whole : s.Whole) : base.HoldsRows := by
  have hcolors : ∀ {old : Option Image}, (∀ image, old = some image → image.Whole) →
      old.bind (·.planes[c]?) = some base → base.HoldsRows := by
    intro old hwhole hplane
    obtain ⟨image, rfl, hplane⟩ := Option.bind_eq_some_iff.1 hplane
    exact (hwhole image rfl).holdsRows base (List.mem_of_getElem? hplane)
  by_cases keeps : s.Keeps n size c
  case neg => exact (h.blank keeps).holdsRows
  have hplane := h.kept keeps
  cases s with
  | packed s => cases hplane
  | stream s => cases hplane
  | planar s => exact hcolors whole hplane
  | frame s =>
    rw [plane?, Bundle.plane?] at hplane
    split_ifs at hplane
    · exact hcolors whole.1 hplane
    · exact whole.2 base (List.mem_of_getElem? hplane)

/-- Binding a target renews it. -/
theorem renews_of_bind (h : s.bind (List.replicate n size) = .done t)
    (kind : s.kind = .frame ∨ s.kind = .planar) (uniform : s.Uniform) : s.Renews n size t := by
  cases s with
  | packed s => exact absurd kind (by simp [Sink.kind])
  | stream s => exact absurd kind (by simp [Sink.kind])
  | frame s =>
    obtain ⟨t, ht, rfl⟩ := Outcome.map_eq_done_iff.1 h
    exact FrameSink.renews_of_bind ht uniform
  | planar s =>
    obtain ⟨t, ht, rfl⟩ := Outcome.map_eq_done_iff.1 h
    obtain ⟨image, himage, rfl, -⟩ := PlanarSink.exists_of_bind ht
    exact ⟨image, rfl, Image.renewed_of_reuse himage uniform⟩

/-- A renewed target has all its planes, which have the size of the frame. -/
theorem Renews.map_size_planes (h : s.Renews n size t) (needs : s.channelsNeeded ≤ n) :
    t.planes.map Plane.size = List.replicate (s.planeCount n) size := by
  cases s with
  | packed s => exact h.elim
  | stream s => exact h.elim
  | frame s =>
    cases t with
    | frame t =>
      obtain ⟨-, ⟨color, hcolor, hcolors⟩, hextras⟩ := h
      have hn : 3 + (n - 3) = n := Nat.add_sub_cancel' needs
      rw [planes, Bundle.channels, hcolor]
      dsimp only
      rw [List.map_append, hcolors.sizes_eq, hextras.sizes_eq, ← List.replicate_add, hn,
        planeCount]
    | _ => exact h.elim
  | planar s =>
    cases t with
    | planar t =>
      obtain ⟨image, himage, hcolors⟩ := h
      rw [planes, himage, planeCount, ← hcolors.sizes_eq]
      rfl
    | _ => exact h.elim

/-- The planes of a renewed target hold their rows. -/
theorem Renews.holdsRows (h : s.Renews n size t) (whole : s.Whole) :
    ∀ plane ∈ t.planes, plane.HoldsRows := by
  have hcolors : ∀ {old : Option Image} {image : Image},
      Plane.Renewed ((old.map Image.planes).getD []) image.planes 3 size →
      (∀ there, old = some there → there.Whole) → ∀ plane ∈ image.planes, plane.HoldsRows := by
    intro old image hrenewed hwhole
    refine hrenewed.holdsRows fun plane hmem ↦ ?_
    cases old with
    | none => cases hmem
    | some there => exact (hwhole there rfl).holdsRows plane hmem
  cases s with
  | packed s => exact h.elim
  | stream s => exact h.elim
  | frame s =>
    cases t with
    | frame t =>
      obtain ⟨-, ⟨color, hcolor, hrenewed⟩, hextras⟩ := h
      intro plane hmem
      rw [planes, Bundle.channels, hcolor] at hmem
      rcases List.mem_append.1 hmem with hmem | hmem
      · exact hcolors hrenewed whole.1 plane hmem
      · exact hextras.holdsRows whole.2 plane hmem
    | _ => exact h.elim
  | planar s =>
    cases t with
    | planar t =>
      obtain ⟨image, himage, hrenewed⟩ := h
      rw [planes, himage]
      exact hcolors hrenewed whole
    | _ => exact h.elim

end Renews

end Sink

end Scanline
