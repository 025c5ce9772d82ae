import Scanline.Proofs.Reuse

/-!
# Binding when memory runs out

Whether memory can be had is not up to a sink.  `Grants` says which of the planes that are asked for
one after another there is memory for, and `FrameSink.bindWithin`, `PlanarSink.bindWithin` bind a
target under any grants; where everything is granted they are `FrameSink.bind` and `PlanarSink.bind`
(`bindWithin_all`).

An image is kept until all three of its new planes are there, so that a binding that fails leaves it
as it was.  A bundle gives up its further planes before it asks for others.  It is left as it was by
every fault but one, `FrameSink.RunsOut`: the planes that were given up have not all been replaced.
Main statement: `bind_keeps_target`.
-/

namespace Scanline

/-! ## Asking for planes -/

/-- What memory there is: for the planes of new colors, and for new further planes, each numbered
in the order in which they are asked for. -/
structure Grants where
  /-- Whether there is memory for a plane of the colors. -/
  color : Nat → Bool
  /-- Whether there is memory for a further plane. -/
  extra : Nat → Bool

/-- There is memory for everything that is asked for. -/
def Grants.all : Grants := ⟨fun _ ↦ true, fun _ ↦ true⟩

namespace Plane

/-- A plane of zeros, if its memory is granted. -/
def ask (granted : Bool) (size : Nat × Nat) : Except Failure Plane :=
  match allocate size.1 size.2 with
  | .error (.fault fault) => .error (.fault fault)
  | answer =>
    if granted then answer
    else .error (.fault (.outOfMemory .imagePlane (Size.satMul (size.1 * size.2) sampleBytes)))

/-- Planes of zeros from number `n` on, as many as can be had before the first failure. -/
def askAll (granted : Nat → Bool) : Nat → List (Nat × Nat) → List Plane × Option Failure
  | _, [] => ([], none)
  | n, size :: rest =>
    match ask (granted n) size with
    | .ok plane =>
      let (planes, failure) := askAll granted (n + 1) rest
      (plane :: planes, failure)
    | .error failure => ([], some failure)

theorem allocate_of_ask {granted : Bool} {size : Nat × Nat} {plane : Plane}
    (h : ask granted size = .ok plane) : allocate size.1 size.2 = .ok plane := by
  unfold ask at h
  split at h
  · cases h
  · split_ifs at h
    exact h

@[simp] theorem ask_true (size : Nat × Nat) : ask true size = allocate size.1 size.2 := by
  unfold ask
  split
  case h_1 fault h => exact h.symm
  case h_2 => rfl

@[simp] theorem askAll_true (n : Nat) (sizes : List (Nat × Nat)) :
    askAll (fun _ ↦ true) n sizes = allocateAll sizes := by
  induction sizes generalizing n with
  | nil => rfl
  | cons size rest ih =>
    simp only [askAll, ask_true, ih]
    rfl

/-- Planes that are granted are planes of zeros, as many as were asked for unless one of them
failed. -/
theorem of_askAll (granted : Nat → Bool) (n count : Nat) (size : Nat × Nat) :
    (∀ plane ∈ (askAll granted n (List.replicate count size)).1, plane.IsBlank size) ∧
      ((askAll granted n (List.replicate count size)).2 ≠ none →
        (askAll granted n (List.replicate count size)).1.length < count) := by
  induction count generalizing n with
  | zero => simp [askAll]
  | succ count ih =>
    rw [List.replicate_succ, askAll]
    cases hplane : ask (granted n) size with
    | error failure => simp
    | ok plane =>
      obtain ⟨hblank, hlength⟩ := ih (n + 1)
      refine ⟨List.forall_mem_cons.2 ⟨isBlank_of_allocate (allocate_of_ask hplane), hblank⟩,
        fun hfailed ↦ ?_⟩
      simpa using hlength hfailed

/-- If one plane of a size can be had, so can any number of them. -/
theorem allocateAll_of_allocate {size : Nat × Nat} {plane : Plane}
    (h : allocate size.1 size.2 = .ok plane) (count : Nat) :
    (allocateAll (List.replicate count size)).2 = none := by
  induction count with
  | zero => rfl
  | succ count ih =>
    rw [List.replicate_succ, allocateAll, h]
    exact ih

end Plane

namespace Image

/-- An image of zeros, if the memory of its three planes is granted. -/
def ask (granted : Nat → Bool) (size : Nat × Nat) : Except Failure Image := do
  return ⟨← Plane.ask (granted 0) size, ← Plane.ask (granted 1) size,
    ← Plane.ask (granted 2) size⟩

/-- An image of the given size: the one that is there if it fits, or one that is granted. -/
def find (granted : Nat → Bool) (image : Option Image) (size : Nat × Nat) :
    Except Failure Image :=
  match image with
  | some image => if image.size = size then .ok image else ask granted size
  | none => ask granted size

@[simp] theorem find_true (image : Option Image) (size : Nat × Nat) :
    find (fun _ ↦ true) image size = reuse image size := by
  simp only [find, ask, Plane.ask_true]
  rfl

theorem of_ask {granted : Nat → Bool} {size : Nat × Nat} {image : Image}
    (h : ask granted size = .ok image) :
    ∀ plane ∈ image.planes, Plane.allocate size.1 size.2 = .ok plane := by
  obtain ⟨plane0, h0, h⟩ := bind_eq_ok_iff.1 h
  obtain ⟨plane1, h1, h⟩ := bind_eq_ok_iff.1 h
  obtain ⟨plane2, h2, h⟩ := bind_eq_ok_iff.1 h
  cases h
  simp only [planes, List.forall_mem_cons, List.not_mem_nil, false_implies, implies_true, and_true]
  exact ⟨Plane.allocate_of_ask h0, Plane.allocate_of_ask h1, Plane.allocate_of_ask h2⟩

/-- An image that is found is the one that was there, if it fits, or a new one. -/
theorem of_find {granted : Nat → Bool} {old : Option Image} {size : Nat × Nat} {image : Image}
    (h : find granted old size = .ok image) :
    (old = some image ∧ image.size = size) ∨
      ((∀ there, old = some there → there.size ≠ size) ∧
        ∀ plane ∈ image.planes, Plane.allocate size.1 size.2 = .ok plane) := by
  unfold find at h
  split at h
  case h_1 there =>
    split_ifs at h with hsize
    · cases h
      exact .inl ⟨rfl, hsize⟩
    · refine .inr ⟨fun other hother ↦ ?_, of_ask h⟩
      cases hother
      exact hsize
  case h_2 => exact .inr ⟨fun _ hother ↦ (nomatch hother), of_ask h⟩

end Image

theorem eq_replicate_of_commonSize {stage : StageKind} {sizes : List (Nat × Nat)}
    {size : Nat × Nat} (h : commonSize stage sizes sizes.length = .ok size) :
    sizes = List.replicate sizes.length size := by
  unfold commonSize at h
  split at h
  case h_2 => cases h
  case h_1 expected a b rest =>
    split at h
    case h_1 => cases h
    case h_2 hall =>
      cases h
      rw [List.take_length, List.findIdx?_eq_none_iff] at hall
      exact List.eq_replicate_of_mem fun other hother ↦ by simpa using hall other hother

/-! ## Binding within what is granted -/

namespace FrameSink

variable (s : FrameSink) (g : Grants) (sizes : List (Nat × Nat))

/-- Finds the further planes of a bundle within what is granted. -/
def bindExtrasWithin : Outcome FrameSink :=
  if s.bundle.extras.map Plane.size = sizes then .done s
  else
    let (extras, failure) := Plane.askAll g.extra 0 sizes
    ⟨{ s with bundle := { s.bundle with extras } }, failure⟩

/-- Binds a bundle within what is granted. -/
def bindWithin : Outcome FrameSink :=
  match commonSize .frame sizes sizes.length with
  | .error fault => .faulted s fault
  | .ok size =>
    if s.binding = .free then
      let s := { s with binding := .spent }
      match Image.find g.color s.bundle.color size with
      | .error failure => .failed s failure
      | .ok color =>
        let s := { s with bundle := { s.bundle with color := some color } }
        (s.bindExtrasWithin g (sizes.drop 3)).next adopt
    else .faulted s (.inconsistent (.alreadyBound .frame))

/-- Where everything is granted, a bundle is bound as far as it can be. -/
theorem bindWithin_all : s.bindWithin .all sizes = s.bind sizes := by
  have hextras : ∀ (s : FrameSink) (sizes : List (Nat × Nat)),
      s.bindExtrasWithin .all sizes = s.bindExtras sizes := by
    intro s sizes
    simp only [bindExtrasWithin, bindExtras, Grants.all, Plane.askAll_true]
  simp only [bindWithin, hextras]
  simp only [Grants.all, Image.find_true]
  rfl

/-- Memory runs out after the further planes of a bundle were given up: they did not fit, colors of
the size of the channels were found, and of the planes in their place one could not be had. -/
structure RunsOut (size : Nat × Nat) (color : Image) (e : Failure) : Prop where
  /-- The channels have one size. -/
  common : commonSize .frame sizes sizes.length = .ok size
  /-- The sink has not been bound before. -/
  free : s.binding = .free
  /-- There are colors. -/
  found : Image.find g.color s.bundle.color size = .ok color
  /-- The further planes are not those that are asked for. -/
  unfit : s.bundle.extras.map Plane.size ≠ sizes.drop 3
  /-- One of those that are asked for could not be had. -/
  failed : (Plane.askAll g.extra 0 (sizes.drop 3)).2 = some e

variable {s g sizes}

theorem failure_adopt_ne_fault (s : FrameSink) (fault : Fault) :
    s.adopt.failure ≠ some (.fault fault) := by
  unfold adopt
  dsimp only
  split <;> simp [Outcome.done, Outcome.misused, Outcome.failed]

/-- Unless memory runs out, a fault leaves a bundle as it was. -/
theorem bundle_of_fault {fault : Fault}
    (h : (s.bindWithin g sizes).failure = some (.fault fault))
    (enough : ∀ size color e, ¬s.RunsOut g sizes size color e) :
    (s.bindWithin g sizes).state.bundle = s.bundle := by
  unfold bindWithin at h ⊢
  split
  case h_1 => rfl
  case h_2 size hcommon =>
    simp only [hcommon] at h
    split_ifs with hfree
    case neg => rfl
    simp only [if_pos hfree] at h
    dsimp only
    split
    case h_1 => rfl
    case h_2 color hcolor =>
      -- colors were found: what is left to fail are further planes, and that is running out
      exfalso
      simp only [hcolor, bindExtrasWithin] at h
      split_ifs at h with hfits
      · exact failure_adopt_ne_fault _ _ h
      · cases hfailed : (Plane.askAll g.extra 0 (sizes.drop 3)).2 with
        | none =>
          simp only [hfailed] at h
          exact failure_adopt_ne_fault _ _ h
        | some e => exact enough size color e ⟨hcommon, hfree, hcolor, hfits, hfailed⟩

namespace RunsOut

variable {size : Nat × Nat} {color : Image} {e : Failure} (h : s.RunsOut g sizes size color e)
include h

/-- A bundle that memory runs out for is left with the colors that were found and with those of the
further planes that could be had. -/
theorem bindWithin_eq : s.bindWithin g sizes =
    .failed { s with
      bundle :=
        { s.bundle with color := some color, extras := (Plane.askAll g.extra 0 (sizes.drop 3)).1 }
      binding := .spent } e := by
  simp only [bindWithin, h.common, if_pos h.free, h.found, bindExtrasWithin, if_neg h.unfit,
    h.failed, Outcome.next, Outcome.failed]

theorem drop_eq : sizes.drop 3 = List.replicate (sizes.length - 3) size := by
  have hsizes := congrArg (List.drop 3) (eq_replicate_of_commonSize h.common)
  rwa [List.drop_replicate] at hsizes

/-- The colors that were found were there, or none of their size was. -/
theorem color_cases : (s.bundle.color = some color ∧ color.size = size) ∨
    ((∀ there, s.bundle.color = some there → there.size ≠ size) ∧
      ∀ plane ∈ color.planes, plane.IsBlank size) := by
  rcases Image.of_find h.found with hthere | ⟨hnone, hnew⟩
  · exact .inl hthere
  · exact .inr ⟨hnone, fun plane hmem ↦ Plane.isBlank_of_allocate (hnew plane hmem)⟩

end RunsOut

/-- Where everything is granted, colors are never lost: had new ones been found, so would have been
any number of planes of their size. -/
theorem RunsOut.color_of_all {size : Nat × Nat} {color : Image} {e : Failure}
    (h : s.RunsOut .all sizes size color e) : s.bundle.color = some color := by
  rcases Image.of_find h.found with ⟨hthere, -⟩ | ⟨-, hnew⟩
  · exact hthere
  · have hfailed := h.failed
    rw [h.drop_eq] at hfailed
    simp only [Grants.all, Plane.askAll_true] at hfailed
    rw [Plane.allocateAll_of_allocate (hnew color.plane0 List.mem_cons_self)] at hfailed
    cases hfailed

end FrameSink

namespace PlanarSink

variable (s : PlanarSink) (g : Grants) (sizes : List (Nat × Nat))

/-- Binds an image within what is granted. -/
def bindWithin : Outcome PlanarSink :=
  match commonSize .planar sizes 3 with
  | .error fault => .faulted s fault
  | .ok size =>
    if s.binding = .free then
      match Image.find g.color s.image size with
      | .error failure => .failed { s with binding := .spent } failure
      | .ok image =>
        let s := { s with image := some image }
        if image.planes.all Plane.rowsComplete then .done { s with binding := .bound }
        else .misused s .outOfRange
    else .faulted s (.inconsistent (.alreadyBound .planar))

/-- Where everything is granted, an image is bound as far as it can be. -/
theorem bindWithin_all : s.bindWithin .all sizes = s.bind sizes := by
  simp only [bindWithin, Grants.all, Image.find_true]
  rfl

variable {s g sizes}

/-- An image is left as it was by whatever ends a binding: new planes are complete. -/
theorem image_of_failure {e : Failure} (h : (s.bindWithin g sizes).failure = some e) :
    (s.bindWithin g sizes).state.image = s.image := by
  unfold bindWithin at h ⊢
  split
  case h_1 => rfl
  case h_2 size hcommon =>
    simp only [hcommon] at h
    split_ifs with hfree
    case neg => rfl
    simp only [if_pos hfree] at h
    split
    case h_1 => rfl
    case h_2 image himage =>
      simp only [himage] at h
      split_ifs at h with hrows
      · cases h
      · rcases Image.of_find himage with ⟨hthere, -⟩ | ⟨-, hnew⟩
        · dsimp only
          rw [if_neg hrows, hthere]
          rfl
        · refine absurd (List.all_eq_true.2 fun plane hmem ↦ ?_) hrows
          exact (Plane.isBlank_of_allocate (hnew plane hmem)).holdsRows.rowsComplete

end PlanarSink

/-- Whatever memory there is, a binding that ends with a fault leaves its target as it was, a bundle
with colors, further planes and marks, an image with its planes, unless memory runs out for the
further planes of a bundle.  These have then been given up: it is left with fewer planes than were
asked for, all zeros, and with its marks.  Its colors were kept if they fit, and otherwise replaced
by zeros, which can only be if more than size decides what memory can be had. -/
theorem bind_keeps_target (g : Grants) (sizes : List (Nat × Nat)) :
    (∀ s : FrameSink, s.bindWithin .all sizes = s.bind sizes ∧
      ((∀ size color e, ¬s.RunsOut g sizes size color e) →
        ∀ fault, (s.bindWithin g sizes).failure = some (.fault fault) →
          (s.bindWithin g sizes).state.bundle = s.bundle) ∧
      ∀ size color e, s.RunsOut g sizes size color e →
        (s.bindWithin g sizes).failure = some e ∧
        ∃ extras, (s.bindWithin g sizes).state.bundle = ⟨some color, extras, s.bundle.encoding⟩ ∧
          extras.length < sizes.length - 3 ∧ (∀ plane ∈ extras, plane.IsBlank size) ∧
          ((s.bundle.color = some color ∧ color.size = size) ∨
            g ≠ .all ∧ (∀ there, s.bundle.color = some there → there.size ≠ size) ∧
              ∀ plane ∈ color.planes, plane.IsBlank size)) ∧
    ∀ s : PlanarSink, s.bindWithin .all sizes = s.bind sizes ∧
      ∀ e, (s.bindWithin g sizes).failure = some e →
        (s.bindWithin g sizes).state.image = s.image := by
  refine ⟨fun s ↦ ⟨s.bindWithin_all sizes, fun enough fault h ↦ FrameSink.bundle_of_fault h enough,
    fun size color e h ↦ ?_⟩, fun s ↦ ⟨s.bindWithin_all sizes, fun e ↦ PlanarSink.image_of_failure⟩⟩
  obtain ⟨hblank, hlength⟩ := Plane.of_askAll g.extra 0 (sizes.length - 3) size
  rw [← h.drop_eq] at hblank hlength
  rw [h.bindWithin_eq]
  refine ⟨rfl, _, rfl, hlength (by simp [h.failed]), hblank, ?_⟩
  rcases h.color_cases with hthere | ⟨hnone, hnew⟩
  · exact .inl hthere
  · refine .inr ⟨?_, hnone, hnew⟩
    rintro rfl
    have hthere := h.color_of_all
    exact hnone color hthere (hnew color.plane0 List.mem_cons_self).size_eq

/-- There is memory for new colors and for one further plane, where two are asked for: the colors
and the plane that a bundle had are lost, and its marks are kept. -/
theorem bind_keeps_target_scarce :
    let plane : Plane := ⟨1, 1, 1, #[.one], by decide, by decide⟩
    let s : FrameSink := ⟨⟨some ⟨plane, plane, plane⟩, [plane], .srgb⟩, .linear, .free⟩
    let g : Grants := ⟨fun _ ↦ true, (· < 1)⟩
    let o := s.bindWithin g (List.replicate 5 (2, 1))
    ∃ color e, s.RunsOut g (List.replicate 5 (2, 1)) (2, 1) color e ∧ o.failure = some e ∧
      o.state.bundle.extras.length < 2 ∧ o.state.bundle.encoding = .srgb ∧
      ∀ plane ∈ color.planes, plane.IsBlank (2, 1) := by
  intro plane s g o
  have hout : s.RunsOut g (List.replicate 5 (2, 1)) (2, 1) _ _ :=
    ⟨rfl, rfl, rfl, by decide, rfl⟩
  obtain ⟨hfailure, extras, hbundle, hlength, -, hcolor⟩ :=
    ((bind_keeps_target g (List.replicate 5 (2, 1))).1 s).2.2 _ _ _ hout
  rw [hbundle]
  refine ⟨_, _, hout, hfailure, hlength, rfl, ?_⟩
  rcases hcolor with ⟨hsame, -⟩ | ⟨-, -, hblank⟩
  · exact absurd hsame (by decide)
  · exact hblank

/-- Even where everything is granted, a bundle loses its further planes to sizes that no plane can
have: colors without columns are kept, and the plane that is to come after them is refused. -/
theorem bind_gives_up_extras :
    let narrow : Plane := ⟨0, 1, 1, #[], by decide, by decide⟩
    let extra : Plane := ⟨2, 1, 2, #[.one, .two], by decide, by decide⟩
    let s : FrameSink := ⟨⟨some ⟨narrow, narrow, narrow⟩, [extra], .srgb⟩, .linear, .free⟩
    let o := s.bind (List.replicate 4 (0, 1))
    o.failure = some (.fault (.buffer .badSize)) ∧ s.bundle.extras = [extra] ∧
      o.state.bundle.extras = [] := ⟨rfl, rfl, rfl⟩

end Scanline
