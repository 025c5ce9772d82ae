import Scanline.Proofs.Built
import Scanline.Proofs.Planes

/-!
# The planes of a target

Both sinks of planes fill a target channel by channel.  `Sink.plane?` is the plane of a channel;
binding leaves a target with all of its planes (`FrameSink.bound_of_bind`,
`PlanarSink.bound_of_bind`), and a segment that is handed over is drawn on every plane
(`FrameSink.receive_eq_draw`, `PlanarSink.receive_eq_draw`).
-/

namespace Scanline

/-! ## Planes by channel -/

/-- The plane of a channel of a bundle, if it is there. -/
def Bundle.plane? (b : Bundle) (c : Nat) : Option Plane :=
  if c < 3 then b.color.bind fun color ↦ color.planes[c]? else b.extras[c - 3]?

theorem Image.getElem?_planes_mapPlanes (image : Image) (f : Nat → Plane → Plane) (c : Nat) :
    (image.mapPlanes f).planes[c]? = (image.planes[c]?).map (f c) := by
  rcases c with _ | _ | _ | c <;> simp [Image.planes, Image.mapPlanes]

theorem Image.mapPlanes_congr {image : Image} {f g : Nat → Plane → Plane}
    (h : ∀ c plane, image.planes[c]? = some plane → f c plane = g c plane) :
    image.mapPlanes f = image.mapPlanes g := by
  simp only [Image.mapPlanes, h 0 image.plane0 rfl, h 1 image.plane1 rfl, h 2 image.plane2 rfl]

theorem Image.mapPlanes_mapPlanes (image : Image) (f g : Nat → Plane → Plane) :
    (image.mapPlanes f).mapPlanes g = image.mapPlanes fun c plane ↦ g c (f c plane) := rfl

namespace Bundle

variable (b : Bundle) (f g : Nat → Plane → Plane)

theorem mapPlanes_mapPlanes :
    (b.mapPlanes f).mapPlanes g = b.mapPlanes fun c plane ↦ g c (f c plane) := by
  have hextras : (b.extras.mapIdx fun i ↦ f (3 + i)).mapIdx (fun i ↦ g (3 + i)) =
      b.extras.mapIdx fun i plane ↦ g (3 + i) (f (3 + i) plane) := List.mapIdx_mapIdx
  have hcolor : (b.color.map (·.mapPlanes f)).map (·.mapPlanes g) =
      b.color.map (·.mapPlanes fun c plane ↦ g c (f c plane)) := by
    cases b.color <;> rfl
  simp only [mapPlanes, hextras, hcolor]

theorem getElem?_channels {b : Bundle} {color : Image} (h : b.color = some color) (c : Nat) :
    b.channels[c]? = b.plane? c := by
  simp only [channels, plane?, h, Option.bind_some]
  split
  case isTrue hc => rw [List.getElem?_append_left (by simpa [Image.planes] using hc)]
  case isFalse hc =>
    rw [List.getElem?_append_right (by simp [Image.planes]; omega)]
    simp [Image.planes]

theorem plane?_mapPlanes (c : Nat) : (b.mapPlanes f).plane? c = (b.plane? c).map (f c) := by
  unfold plane? mapPlanes
  split
  case isTrue => cases b.color <;> simp [Image.getElem?_planes_mapPlanes]
  case isFalse hc =>
    have hback : 3 + (c - 3) = c := by omega
    simp [List.getElem?_mapIdx, hback]

/-- Replacements that agree on the planes of a bundle give one bundle. -/
theorem mapPlanes_congr {b : Bundle} {f g : Nat → Plane → Plane}
    (h : ∀ c plane, b.plane? c = some plane → f c plane = g c plane) :
    b.mapPlanes f = b.mapPlanes g := by
  have hcolor : b.color.map (·.mapPlanes f) = b.color.map (·.mapPlanes g) := by
    cases hb : b.color with
    | none => rfl
    | some color =>
      refine congrArg some (Image.mapPlanes_congr fun c plane hplane ↦ h c plane ?_)
      have hc : c < 3 := (List.getElem?_eq_some_iff.1 hplane).1
      rwa [plane?, if_pos hc, hb]
  have hextras : b.extras.mapIdx (fun i ↦ f (3 + i)) = b.extras.mapIdx fun i ↦ g (3 + i) := by
    apply List.ext_getElem?
    intro i
    rw [List.getElem?_mapIdx, List.getElem?_mapIdx]
    cases hi : b.extras[i]? with
    | none => rfl
    | some plane =>
      refine congrArg some (h (3 + i) plane ?_)
      rw [plane?, if_neg (by omega), Nat.add_sub_cancel_left, hi]
  rw [mapPlanes, mapPlanes, hcolor, hextras]

end Bundle

namespace Sink

/-- The plane of a channel of the target, if it is there. -/
def plane? : Sink → Nat → Option Plane
  | frame s, c => s.bundle.plane? c
  | planar s, c => s.image.bind fun image ↦ image.planes[c]?
  | packed _, _ | stream _, _ => none

/-- How many planes a sink fills of a frame with a number of channels. -/
def planeCount (channels : Nat) : Sink → Nat
  | frame _ => channels
  | planar _ => 3
  | packed _ | stream _ => 0

end Sink

/-! ## Drawing on all planes -/

/-- Draws a step of a strip on all planes of the target. -/
def FrameSink.draw (s : FrameSink) (strip : Strip) (step : Pipeline.Step) : FrameSink :=
  { s with bundle := s.bundle.mapPlanes (Plane.draw strip step) }

/-- Draws a step of a strip on all planes of the target. -/
def PlanarSink.draw (s : PlanarSink) (strip : Strip) (step : Pipeline.Step) : PlanarSink :=
  { s with image := s.image.map (·.mapPlanes (Plane.draw strip step)) }

/-- A bound sink draws what it is shown. -/
theorem FrameSink.receive_eq_draw {s : FrameSink} {color : Image} {input : Rows} {strip : Strip}
    {segment : Segment} (bound : s.binding = .bound) (hcolor : s.bundle.color = some color)
    (shown : input.Shows strip segment (· < s.bundle.channels.length))
    (small : ∀ plane ∈ s.bundle.channels,
      segment.row < plane.presentRows → segment.reach < Size.bound) :
    s.receive input segment = .done (s.draw strip segment.span) := by
  rw [receive, if_pos bound, Plane.patchesOf_eq shown small]
  have hmap : s.bundle.mapPlanes (Plane.pasteFrom (s.bundle.channels.zipIdx.map fun x ↦
      x.1.patchFrom strip segment.span x.2)) =
        s.bundle.mapPlanes (Plane.draw strip segment.span) := by
    refine Bundle.mapPlanes_congr fun c plane hplane ↦ Plane.pasteFrom_patches ?_
    rw [Bundle.getElem?_channels hcolor, hplane]
  rw [draw, ← hmap]

/-- A bound sink draws what it is shown. -/
theorem PlanarSink.receive_eq_draw {s : PlanarSink} {image : Image} {input : Rows} {strip : Strip}
    {segment : Segment} (bound : s.binding = .bound) (himage : s.image = some image)
    (shown : input.Shows strip segment (· < 3))
    (small : ∀ plane ∈ image.planes,
      segment.row < plane.presentRows → segment.reach < Size.bound) :
    s.receive input segment = .done (s.draw strip segment.span) := by
  have hpatches := Plane.patchesOf_eq
    (show input.Shows strip segment (· < image.planes.length) from shown) small
  rw [receive, if_pos bound, draw, himage]
  simp only [Option.map_some, Option.getD_some, hpatches]
  rw [Image.mapPlanes_congr fun c plane hplane ↦ Plane.pasteFrom_patches hplane]

/-! ## Binding -/

/-- A plane of zeros has the size it was made for and no gaps between its rows. -/
theorem Plane.of_allocate {width height : Nat} {plane : Plane}
    (h : Plane.allocate width height = .ok plane) :
    plane.size = (width, height) ∧ plane.stride = width ∧
      plane.samples = Array.replicate (width * height) .zero ∧ 0 < width ∧ 0 < height := by
  unfold allocate at h
  split at h
  case h_1 => cases h
  case h_2 => cases h
  case h_3 count hzero hcount =>
    obtain ⟨-, rfl⟩ := Size.mul?_eq_some_iff.1 hcount
    obtain ⟨samples, hsamples, hplane⟩ := bind_eq_ok_iff.1 h
    rw [mapError_eq_ok_iff] at hsamples hplane
    unfold Storage.reserve at hsamples
    unfold ofSamples at hplane
    split_ifs at hsamples hplane
    cases hsamples
    cases hplane
    have hpos : width * height ≠ 0 := hzero
    exact ⟨rfl, rfl, rfl, Nat.pos_of_ne_zero fun h ↦ hpos (by simp [h]),
      Nat.pos_of_ne_zero fun h ↦ hpos (by simp [h])⟩

theorem Image.of_allocate {width height : Nat} {image : Image}
    (h : Image.allocate width height = .ok image) :
    ∀ plane ∈ image.planes, Plane.allocate width height = .ok plane := by
  obtain ⟨plane0, h0, h⟩ := bind_eq_ok_iff.1 h
  obtain ⟨plane1, h1, h⟩ := bind_eq_ok_iff.1 h
  obtain ⟨plane2, h2, h⟩ := bind_eq_ok_iff.1 h
  cases h
  intro plane hmem
  simp only [Image.planes, List.mem_cons, List.not_mem_nil, or_false] at hmem
  rcases hmem with rfl | rfl | rfl <;> assumption

/-- The colors of a target are those that were there, all of them, or new ones. -/
theorem Image.of_reuse {old : Option Image} {size : Nat × Nat} {image : Image}
    (h : Image.reuse old size = .ok image) :
    (old = some image ∧ image.size = size) ∨
      ((∀ there, old = some there → there.size ≠ size) ∧
        Image.allocate size.1 size.2 = .ok image) := by
  unfold reuse at h
  split at h
  case h_1 there =>
    split_ifs at h with hsize
    · cases h
      exact .inl ⟨rfl, hsize⟩
    · exact .inr ⟨fun other hother ↦ Option.some.inj hother ▸ hsize, h⟩
  case h_2 => exact .inr ⟨fun _ hother ↦ (nomatch hother), h⟩

/-- Planes of zeros that could all be had. -/
theorem Plane.of_allocateAll {sizes : List (Nat × Nat)}
    (h : (Plane.allocateAll sizes).2 = none) :
    (Plane.allocateAll sizes).1.map Plane.size = sizes ∧
      ∀ (i : Nat) (plane : Plane), (Plane.allocateAll sizes).1[i]? = some plane →
        ∃ size, sizes[i]? = some size ∧ Plane.allocate size.1 size.2 = .ok plane := by
  induction sizes with
  | nil => simp [allocateAll]
  | cons size rest ih =>
    rw [allocateAll] at h ⊢
    cases hplane : Plane.allocate size.1 size.2 with
    | error failure => simp [hplane] at h
    | ok plane =>
      simp only [hplane] at h ⊢
      obtain ⟨hsizes, hplanes⟩ := ih h
      refine ⟨by simp [hsizes, (Plane.of_allocate hplane).1], fun i other hother ↦ ?_⟩
      cases i with
      | zero =>
        simp only [List.getElem?_cons_zero, Option.some.injEq] at hother
        exact ⟨size, rfl, by rw [hplane, hother]⟩
      | succ i => exact hplanes i other (by simpa using hother)

/-- There are as many further planes as are asked for, and nothing else changes. -/
theorem FrameSink.of_bindExtras {s t : FrameSink} {n : Nat} {size : Nat × Nat}
    (h : s.bindExtras (List.replicate n size) = .done t) :
    t = { s with bundle := { s.bundle with extras := t.bundle.extras } } ∧
      t.bundle.extras.length = n := by
  have hlength : ∀ {planes : List Plane},
      planes.map Plane.size = List.replicate n size → planes.length = n := by
    intro planes hsizes
    simpa using congrArg List.length hsizes
  unfold bindExtras at h
  split_ifs at h with hsame
  · cases h
    exact ⟨rfl, hlength hsame⟩
  · simp only [Outcome.done, Outcome.mk.injEq] at h
    obtain ⟨rfl, hnone⟩ := h
    exact ⟨rfl, hlength (Plane.of_allocateAll hnone).1⟩

/-- Whatever the sizes of further planes, the colors are kept. -/
theorem FrameSink.color_of_bindExtras {s t : FrameSink} {sizes : List (Nat × Nat)}
    (h : s.bindExtras sizes = .done t) : t.bundle.color = s.bundle.color := by
  unfold bindExtras at h
  split_ifs at h
  · cases h
    rfl
  · simp only [Outcome.done, Outcome.mk.injEq] at h
    obtain ⟨rfl, -⟩ := h
    rfl

/-- Taking planes into use checks their rows and changes only the marks. -/
theorem FrameSink.of_adopt {s t : FrameSink} (h : s.adopt = .done t) :
    t = { s with bundle := { s.bundle with encoding := s.encoding }, binding := .bound } ∧
      ∀ plane ∈ t.bundle.channels, plane.rowsComplete := by
  unfold adopt at h
  dsimp only at h
  split_ifs at h with hrows
  · cases h
    exact ⟨rfl, List.all_eq_true.1 hrows⟩
  · exact absurd h (Outcome.misused_ne_done _ _ _)

theorem commonSize_replicate {stage : StageKind} {n checked : Nat} {size common : Nat × Nat}
    (h : commonSize stage (List.replicate n size) checked = .ok common) :
    common = size ∧ 3 ≤ n := by
  unfold commonSize at h
  split at h
  case h_1 expected a b rest hsizes =>
    have hn : n = rest.length + 3 := by simpa using congrArg List.length hsizes
    have hexpected : expected = size := by
      have := List.eq_of_mem_replicate (a := size) (n := n) (b := expected) (by simp [hsizes])
      exact this
    split at h
    case h_1 => cases h
    case h_2 =>
      cases h
      exact ⟨hexpected, by omega⟩
  case h_2 => cases h

/-- A sink of a bundle that is bound to `n` channels. -/
structure FrameSink.Bound (s : FrameSink) (n : Nat) : Prop where
  /-- It says so. -/
  binding_eq : s.binding = .bound
  /-- It has colors. -/
  exists_color : ∃ color, s.bundle.color = some color
  /-- It has a plane for every further channel. -/
  length_extras : s.bundle.extras.length + 3 = n
  /-- Rows that start in the buffer of a plane are complete. -/
  rows : ∀ c plane, s.bundle.plane? c = some plane → plane.rowsComplete

/-- A sink of an image that is bound. -/
structure PlanarSink.Bound (s : PlanarSink) : Prop where
  /-- It says so. -/
  binding_eq : s.binding = .bound
  /-- It has an image. -/
  exists_image : ∃ image, s.image = some image
  /-- Rows that start in the buffer of a plane are complete. -/
  rows : ∀ c plane, (Sink.planar s).plane? c = some plane → plane.rowsComplete

theorem FrameSink.Bound.length_channels {s : FrameSink} {n : Nat} (h : s.Bound n) :
    s.bundle.channels.length = n := by
  obtain ⟨color, hcolor⟩ := h.exists_color
  have hlength := h.length_extras
  simp only [Bundle.channels, hcolor, List.length_append, Image.planes, List.length_cons,
    List.length_nil]
  omega

/-- Binding a bundle finds its colors and its further planes, and takes them into use. -/
theorem FrameSink.exists_of_bind {s t : FrameSink} {n : Nat} {size : Nat × Nat}
    (h : s.bind (List.replicate n size) = .done t) :
    3 ≤ n ∧ ∃ color mid, Image.reuse s.bundle.color size = .ok color ∧
      FrameSink.bindExtras
        { s with bundle := { s.bundle with color := some color }, binding := .spent }
        (List.replicate (n - 3) size) = .done mid ∧ mid.adopt = .done t := by
  unfold bind at h
  split at h
  case h_1 => exact absurd h (Outcome.faulted_ne_done _ _ _)
  case h_2 common hcommon =>
    obtain ⟨rfl, hn⟩ := commonSize_replicate hcommon
    split_ifs at h with hfree
    case neg => exact absurd h (Outcome.faulted_ne_done _ _ _)
    dsimp only at h
    split at h
    case h_1 => exact absurd h (Outcome.failed_ne_done _ _ _)
    case h_2 color hcolor =>
      obtain ⟨mid, hextras, hadopt⟩ := Outcome.next_eq_done_iff.1 h
      rw [List.drop_replicate] at hextras
      exact ⟨hn, color, mid, hcolor, hextras, hadopt⟩

/-- Binding a bundle leaves it bound. -/
theorem FrameSink.bound_of_bind {s t : FrameSink} {n : Nat} {size : Nat × Nat}
    (h : s.bind (List.replicate n size) = .done t) : t.Bound n := by
  obtain ⟨hn, color, mid, -, hextras, hadopt⟩ := exists_of_bind h
  obtain ⟨hmid, hlength⟩ := of_bindExtras hextras
  obtain ⟨ht, hrows⟩ := of_adopt hadopt
  have htcolor : t.bundle.color = some color := by rw [ht, hmid]
  have hcount : t.bundle.extras.length + 3 = n := by
    rw [show t.bundle.extras = mid.bundle.extras by rw [ht], hlength]
    omega
  refine ⟨by rw [ht], ⟨color, htcolor⟩, hcount, fun c plane hplane ↦ ?_⟩
  rw [← Bundle.getElem?_channels htcolor] at hplane
  exact hrows plane (List.mem_of_getElem? hplane)

/-- Binding an image finds its colors, and takes them into use. -/
theorem PlanarSink.exists_of_bind {s t : PlanarSink} {n : Nat} {size : Nat × Nat}
    (h : s.bind (List.replicate n size) = .done t) :
    ∃ image, Image.reuse s.image size = .ok image ∧ t = ⟨some image, .bound⟩ ∧
      ∀ plane ∈ image.planes, plane.rowsComplete := by
  unfold bind at h
  split at h
  case h_1 => exact absurd h (Outcome.faulted_ne_done _ _ _)
  case h_2 common hcommon =>
    obtain ⟨rfl, -⟩ := commonSize_replicate hcommon
    split_ifs at h with hfree
    case neg => exact absurd h (Outcome.faulted_ne_done _ _ _)
    split at h
    case h_1 => exact absurd h (Outcome.failed_ne_done _ _ _)
    case h_2 image himage =>
      dsimp only at h
      split_ifs at h with hrows
      case neg => exact absurd h (Outcome.misused_ne_done _ _ _)
      cases h
      exact ⟨image, himage, rfl, List.all_eq_true.1 hrows⟩

/-- Binding an image leaves it bound. -/
theorem PlanarSink.bound_of_bind {s t : PlanarSink} {n : Nat} {size : Nat × Nat}
    (h : s.bind (List.replicate n size) = .done t) : t.Bound := by
  obtain ⟨image, -, rfl, hrows⟩ := exists_of_bind h
  exact ⟨rfl, ⟨image, rfl⟩, fun c plane hplane ↦ hrows plane (List.mem_of_getElem? hplane)⟩

end Scanline
