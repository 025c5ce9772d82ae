import Scanline.Proofs.Refusals

/-!
# Frames within their limits

`Limits.Admits` says in exact numbers that a frame keeps to every limit that is set, and
`Limits.Breaks` that it exceeds the one that is reported.  The checks look at sides that are cut off
at `Limits.largestSide`, and on these they are exact (`Limits.checkFrame_eq_ok_iff`).

Main statement: a frame that is built for keeps to every limit below `Limits.largestSide`, and to
all limits if its sides are no larger than that; a frame that is refused for a limit really exceeds
it (`Blueprint.build_keeps_to_limits`).  Nothing more holds: a longer side may pass a limit that is
as large as the sides are cut off at (`Blueprint.build_beyond_limits`).
-/

namespace Scanline

namespace Limits

variable {l : Limits} {width height : Nat}

/-- A frame that keeps to every limit that is set. -/
structure Admits (l : Limits) (width height : Nat) : Prop where
  /-- It is not too wide. -/
  width_le : ∀ most, l.width = some most → width ≤ most
  /-- It is not too high. -/
  height_le : ∀ most, l.height = some most → height ≤ most
  /-- It has not too many pixels. -/
  pixels_le : ∀ most, l.pixels = some most → width * height ≤ most

/-- A frame that exceeds the limit that is reported, by at least the amount that is reported. -/
def Breaks (l : Limits) (width height : Nat) : Excess → Prop
  | .width actual most => l.width = some most ∧ most < actual ∧ actual ≤ width
  | .height actual most => l.height = some most ∧ most < actual ∧ actual ≤ height
  | .pixels actual most => l.pixels = some most ∧ most < actual ∧ actual ≤ width * height
  | .memory .. => False

theorem Breaks.mono {width' height' : Nat} {e : Excess} (h : l.Breaks width height e)
    (hwidth : width ≤ width') (hheight : height ≤ height') : l.Breaks width' height' e := by
  cases e with
  | width actual most => exact ⟨h.1, h.2.1, Nat.le_trans h.2.2 hwidth⟩
  | height actual most => exact ⟨h.1, h.2.1, Nat.le_trans h.2.2 hheight⟩
  | pixels actual most => exact ⟨h.1, h.2.1, Nat.le_trans h.2.2 (Nat.mul_le_mul hwidth hheight)⟩
  | memory actual most => exact h

theorem check_eq_ok_iff {limit : Option Nat} {actual : Nat} {exceeded : Nat → Nat → Excess} :
    check limit actual exceeded = .ok () ↔ ∀ most, limit = some most → actual ≤ most := by
  cases limit with
  | none => simp [check]
  | some most =>
    unfold check
    dsimp only
    split_ifs with hlt
    · simpa using hlt
    · simpa using hlt

theorem of_check_eq_error {limit : Option Nat} {actual : Nat} {exceeded : Nat → Nat → Excess}
    {e : Excess} (h : check limit actual exceeded = .error e) :
    ∃ most, limit = some most ∧ most < actual ∧ e = exceeded actual most := by
  cases limit with
  | none => cases h
  | some most =>
    unfold check at h
    dsimp only at h
    split_ifs at h with hlt
    cases h
    exact ⟨most, rfl, hlt, rfl⟩

theorem check_of_le {limit : Option Nat} {a b : Nat} {exceeded : Nat → Nat → Excess}
    (h : check limit b exceeded = .ok ()) (hle : a ≤ b) : check limit a exceeded = .ok () :=
  check_eq_ok_iff.2 fun most hmost ↦ Nat.le_trans hle (check_eq_ok_iff.1 h most hmost)

/-- The checks pass exactly for the frames that keep to the limits. -/
theorem checkFrame_eq_ok_iff : l.checkFrame width height = .ok () ↔ l.Admits width height := by
  unfold checkFrame
  simp only [bind_eq_ok_iff]
  constructor
  · rintro ⟨_, hwidth, _, hheight, hpixels⟩
    exact ⟨check_eq_ok_iff.1 hwidth, check_eq_ok_iff.1 hheight, check_eq_ok_iff.1 hpixels⟩
  · rintro ⟨hwidth, hheight, hpixels⟩
    exact ⟨(), check_eq_ok_iff.2 hwidth, (), check_eq_ok_iff.2 hheight, check_eq_ok_iff.2 hpixels⟩

theorem breaks_of_checkFrame {e : Excess} (h : l.checkFrame width height = .error e) :
    l.Breaks width height e := by
  rcases bind_eq_error_iff.1 h with h | ⟨_, -, h⟩
  · obtain ⟨most, hlimit, hmost, rfl⟩ := of_check_eq_error h
    exact ⟨hlimit, hmost, le_rfl⟩
  rcases bind_eq_error_iff.1 h with h | ⟨_, -, h⟩
  · obtain ⟨most, hlimit, hmost, rfl⟩ := of_check_eq_error h
    exact ⟨hlimit, hmost, le_rfl⟩
  · obtain ⟨most, hlimit, hmost, rfl⟩ := of_check_eq_error h
    exact ⟨hlimit, hmost, le_rfl⟩

/-! ## Sides as they are seen -/

theorem side_of_le {n : Nat} (h : n ≤ largestSide) : side n = n := Nat.min_eq_left h

theorem le_of_side_le {n most : Nat} (h : side n ≤ most) (hmost : most < largestSide) :
    n ≤ most := by
  unfold side at h
  omega

/-- A product that is seen below the cut is that of the sides as they are. -/
theorem mul_le_of_side_mul_le {width height most : Nat} (hwidth : 0 < width) (hheight : 0 < height)
    (h : side width * side height ≤ most) (hmost : most < largestSide) :
    width * height ≤ most := by
  have hpos : 0 < largestSide := by decide
  have hleft : side width ≤ side width * side height :=
    Nat.le_mul_of_pos_right _ (lt_min hheight hpos)
  have hright : side height ≤ side width * side height :=
    Nat.le_mul_of_pos_left _ (lt_min hwidth hpos)
  have hsame : ∀ n, side n ≤ most → side n = n := fun n hn ↦
    side_of_le (Nat.le_trans (le_of_side_le hn hmost) (Nat.le_of_lt hmost))
  have hsameWidth := hsame width (Nat.le_trans hleft h)
  have hsameHeight := hsame height (Nat.le_trans hright h)
  rwa [hsameWidth, hsameHeight] at h

end Limits

/-! ## Building -/

namespace Blueprint

variable {b : Blueprint}

theorem admits_of_build {p : Pipeline} (h : b.build.pipeline = .ok p) :
    b.limits.Admits (Limits.side p.width) (Limits.side p.height) := by
  obtain ⟨filters, sink, hcheck⟩ := exists_check h
  obtain ⟨-, -, -, hlimits⟩ := checkFrame_eq_ok_iff.1 (check_eq_ok_iff.1 hcheck).1
  exact Limits.checkFrame_eq_ok_iff.1 hlimits

/-- Once stages and sizes are found to fit, a frame is refused if its sides, as they are seen,
exceed a limit. -/
theorem exists_limit_of_not_admits {filters : List Filter} {sink : Sink} {width height : Nat}
    (hsplit : split b.stages = .ok (filters, sink)) (hside : b.tileSide ≠ 0)
    (hsize : b.frameSize = .ok (width, height))
    (h : ¬b.limits.Admits (Limits.side width) (Limits.side height)) :
    ∃ exceeded, b.build.pipeline = .error (.fault (.limit exceeded)) := by
  rw [← Limits.checkFrame_eq_ok_iff] at h
  cases hlimits : b.limits.checkFrame (Limits.side width) (Limits.side height) with
  | ok _ => exact absurd hlimits h
  | error exceeded =>
    have hframe : b.checkFrame = .error (.limit exceeded) := by
      rw [checkFrame_of_sized hsplit hside hsize, hlimits]
      rfl
    exact ⟨exceeded, build_eq_error_iff.2 (.inl (check_eq_error_iff.2 (.inl ⟨_, hframe, rfl⟩)))⟩

theorem exists_breaks_of_build {exceeded : Excess}
    (h : b.build.pipeline = .error (.fault (.limit exceeded))) :
    ∃ width height, b.frameSize = .ok (width, height) ∧
      b.limits.Breaks width height exceeded := by
  rcases build_eq_error_iff.1 h with h | ⟨_, _, _, _, -, h⟩
  case inr => exact (Sink.isMisfit_of_bind h).elim
  rcases check_eq_error_iff.1 h with ⟨fault, hframe, hfault⟩ | ⟨_, -, h⟩
  · cases hfault
    rcases of_checkFrame_eq_error hframe with h | ⟨width, height, e, hsize, he, hlimit⟩
    · exact h.elim
    · cases hlimit
      exact ⟨width, height, hsize,
        (Limits.breaks_of_checkFrame he).mono (Nat.min_le_left _ _) (Nat.min_le_left _ _)⟩
  · obtain ⟨_, stage, _, -, -, h⟩ := forM_eq_error_iff.1 h
    rw [checkChannels_eq] at h
    split_ifs at h <;> cases h

/-- A frame that is built for, whose channels all have its size, keeps to every limit, in exact
numbers, that is below `Limits.largestSide`, or that is checked on sides which are no larger than
that.  A frame that is refused for a limit exceeds it.  When stages and sizes fit, a frame is
refused as soon as its sides, cut off at `Limits.largestSide`, exceed a limit. -/
theorem build_keeps_to_limits (b : Blueprint) :
    (∀ p, b.build.pipeline = .ok p →
      b.sizes = List.replicate b.sizes.length p.size ∧
      (∀ most, b.limits.width = some most →
        most < Limits.largestSide ∨ p.width ≤ Limits.largestSide → p.width ≤ most) ∧
      (∀ most, b.limits.height = some most →
        most < Limits.largestSide ∨ p.height ≤ Limits.largestSide → p.height ≤ most) ∧
      ∀ most, b.limits.pixels = some most →
        most < Limits.largestSide ∨ p.width ≤ Limits.largestSide ∧ p.height ≤ Limits.largestSide →
          p.width * p.height ≤ most) ∧
    (∀ exceeded, b.build.pipeline = .error (.fault (.limit exceeded)) →
      ∃ width height, b.frameSize = .ok (width, height) ∧
        b.limits.Breaks width height exceeded) ∧
    ∀ filters sink width height, split b.stages = .ok (filters, sink) → b.tileSide ≠ 0 →
      b.frameSize = .ok (width, height) →
      ¬b.limits.Admits (Limits.side width) (Limits.side height) →
        ∃ exceeded, b.build.pipeline = .error (.fault (.limit exceeded)) := by
  refine ⟨fun p h ↦ ?_, fun exceeded ↦ exists_breaks_of_build,
    fun _ _ _ _ ↦ exists_limit_of_not_admits⟩
  obtain ⟨hwidth, hheight, hpixels⟩ := admits_of_build h
  obtain ⟨_, hyields⟩ := exists_yields h
  refine ⟨hyields.sizes_eq_replicate, fun most hmost hcase ↦ ?_, fun most hmost hcase ↦ ?_,
    fun most hmost hcase ↦ ?_⟩
  · rcases hcase with hcase | hcase
    · exact Limits.le_of_side_le (hwidth most hmost) hcase
    · exact Limits.side_of_le hcase ▸ hwidth most hmost
  · rcases hcase with hcase | hcase
    · exact Limits.le_of_side_le (hheight most hmost) hcase
    · exact Limits.side_of_le hcase ▸ hheight most hmost
  · rcases hcase with hcase | ⟨hw, hh⟩
    · exact Limits.mul_le_of_side_mul_le hyields.planned.width_pos hyields.planned.height_pos
        (hpixels most hmost) hcase
    · have := hpixels most hmost
      rwa [Limits.side_of_le hw, Limits.side_of_le hh] at this

/-- A frame of three by two pixels that keeps to all limits, and one that is refused. -/
theorem build_keeps_to_limits_refused :
    let sink : Sink :=
      .stream ⟨{ width := 3, height := 2, format := .gray8 }, .willing, false, #[], #[]⟩
    let b (limits : Limits) : Blueprint := ⟨[(3, 2)], [.sink sink], 2, limits⟩
    (∃ p, (b { width := some 3, pixels := some 6 }).build.pipeline = .ok p ∧ p.width ≤ 3 ∧
      p.width * p.height ≤ 6) ∧
    (b { pixels := some 5 }).build.pipeline = .error (.fault (.limit (.pixels 6 5))) ∧
      ∃ width height, (b { pixels := some 5 }).frameSize = .ok (width, height) ∧
        (b { pixels := some 5 }).limits.Breaks width height (.pixels 6 5) := by
  intro sink b
  obtain ⟨-, hwidth, -, hpixels⟩ :=
    (build_keeps_to_limits (b { width := some 3, pixels := some 6 })).1 _ rfl
  exact ⟨⟨_, rfl, hwidth 3 rfl (.inl (by decide)), hpixels 6 rfl (.inl (by decide))⟩, rfl,
    (build_keeps_to_limits (b { pixels := some 5 })).2.1 _ rfl⟩

/-- A frame with longer sides passes limits that it exceeds: one on its width as large as the sides
are cut off at, and one on its pixels a little larger. -/
theorem build_beyond_limits :
    let sink : Sink :=
      .stream ⟨{ width := 1, height := 1, format := .gray8 }, .willing, false, #[], #[]⟩
    (∃ p, (Blueprint.build ⟨[(4294967296, 1)], [.sink sink], 256,
        { width := some 4294967295 }⟩).pipeline = .ok p ∧ ¬p.width ≤ 4294967295) ∧
      ∃ p, (Blueprint.build ⟨[(1099511627776, 1)], [.sink sink], 256,
        { pixels := some 4294967296 }⟩).pipeline = .ok p ∧ ¬p.width * p.height ≤ 4294967296 :=
  ⟨⟨_, rfl, by decide⟩, _, rfl, by decide⟩

end Blueprint

end Scanline
