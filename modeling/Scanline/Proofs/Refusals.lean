import Scanline.Proofs.Built

/-!
# Why a build is refused

A blueprint that yields no pipeline failed one of its checks or the binding of its sink
(`Blueprint.build_eq_error_iff`).  The checks of stages and frame come first, and of these the
limits are the last (`checkFrame_of_sized`); then every stage is asked for its channels in order
(`check_eq_error_iff`).  Everything else that may go wrong is a `Failure.IsMisfit`: stages, sizes,
buffers or planes that do not fit together.
-/

namespace Scanline

/-- The failures that say that stages, sizes, buffers or planes do not fit together, or that planes
cannot be had. -/
def Failure.IsMisfit : Failure → Prop
  | .fault (.inconsistent _) | .fault (.buffer _) | .fault (.sizeMismatch ..)
  | .fault (.outOfMemory ..) | .misuse _ => True
  | _ => False

/-! ## Binding -/

/-- A plane of zeros that cannot be had does not fit into memory. -/
theorem Plane.isMisfit_of_allocate {width height : Nat} {e : Failure}
    (h : Plane.allocate width height = .error e) : e.IsMisfit := by
  unfold allocate at h
  split at h
  case h_1 | h_2 =>
    cases h
    trivial
  case h_3 count _ _ =>
    rcases bind_eq_error_iff.1 h with h | ⟨samples, -, h⟩
    · obtain ⟨fault, hfault, rfl⟩ := mapError_eq_error_iff.1 h
      unfold Storage.reserve at hfault
      split_ifs at hfault
      cases hfault
      trivial
    · obtain ⟨misuse, -, rfl⟩ := mapError_eq_error_iff.1 h
      trivial

/-- Colors that cannot be had do not fit into memory. -/
theorem Image.isMisfit_of_reuse {old : Option Image} {size : Nat × Nat} {e : Failure}
    (h : Image.reuse old size = .error e) : e.IsMisfit := by
  have hnew : Image.allocate size.1 size.2 = .error e → e.IsMisfit := by
    intro h
    rcases bind_eq_error_iff.1 h with h | ⟨_, -, h⟩
    · exact Plane.isMisfit_of_allocate h
    rcases bind_eq_error_iff.1 h with h | ⟨_, -, h⟩
    · exact Plane.isMisfit_of_allocate h
    rcases bind_eq_error_iff.1 h with h | ⟨_, -, h⟩
    · exact Plane.isMisfit_of_allocate h
    · cases h
  unfold reuse at h
  split at h
  · split_ifs at h
    exact hnew h
  · exact hnew h

theorem Plane.isMisfit_of_allocateAll {sizes : List (Nat × Nat)} {e : Failure}
    (h : (Plane.allocateAll sizes).2 = some e) : e.IsMisfit := by
  induction sizes with
  | nil => cases h
  | cons size rest ih =>
    rw [allocateAll] at h
    cases hplane : Plane.allocate size.1 size.2 with
    | error failure =>
      rw [hplane] at h
      cases h
      exact isMisfit_of_allocate hplane
    | ok plane =>
      rw [hplane] at h
      exact ih h

theorem isMisfit_of_commonSize {stage : StageKind} {sizes : List (Nat × Nat)} {checked : Nat}
    {e : Fault} (h : commonSize stage sizes checked = .error e) :
    (Failure.fault e).IsMisfit := by
  unfold commonSize at h
  split at h
  · split at h <;> cases h
    trivial
  · cases h
    trivial

/-- A bundle that cannot be bound does not fit. -/
theorem FrameSink.isMisfit_of_bind {s : FrameSink} {sizes : List (Nat × Nat)} {e : Failure}
    (h : (s.bind sizes).failure = some e) : e.IsMisfit := by
  unfold bind at h
  split at h
  case h_1 fault hfault =>
    cases h
    exact isMisfit_of_commonSize hfault
  case h_2 =>
    split_ifs at h with hfree
    case neg =>
      cases h
      trivial
    dsimp only at h
    split at h
    case h_1 failure hfailure =>
      cases h
      exact Image.isMisfit_of_reuse hfailure
    case h_2 =>
      have hextras : ∀ t : FrameSink, ∀ sizes,
          (t.bindExtras sizes).Keeps (fun _ ↦ True) Failure.IsMisfit := by
        intro t sizes
        refine ⟨trivial, fun e he ↦ ?_⟩
        unfold bindExtras at he
        split_ifs at he
        · cases he
        · exact Plane.isMisfit_of_allocateAll he
      refine ((hextras _ _).next fun t _ ↦ ⟨trivial, fun e he ↦ ?_⟩).2 e h
      unfold adopt at he
      dsimp only at he
      split_ifs at he <;> cases he
      trivial

/-- An image that cannot be bound does not fit. -/
theorem PlanarSink.isMisfit_of_bind {s : PlanarSink} {sizes : List (Nat × Nat)} {e : Failure}
    (h : (s.bind sizes).failure = some e) : e.IsMisfit := by
  unfold bind at h
  split at h
  case h_1 fault hfault =>
    cases h
    exact isMisfit_of_commonSize hfault
  case h_2 =>
    split_ifs at h with hfree
    case neg =>
      cases h
      trivial
    split at h
    case h_1 failure hfailure =>
      cases h
      exact Image.isMisfit_of_reuse hfailure
    case h_2 =>
      dsimp only at h
      split_ifs at h <;> cases h
      trivial

theorem Sink.isMisfit_of_bind {s : Sink} {sizes : List (Nat × Nat)} {e : Failure}
    (h : (s.bind sizes).failure = some e) : e.IsMisfit := by
  cases s with
  | packed s =>
    rw [bind, Outcome.failure_map] at h
    unfold PackedSink.bind at h
    split at h <;> cases h
    trivial
  | stream s => cases h
  | frame s => exact FrameSink.isMisfit_of_bind h
  | planar s => exact PlanarSink.isMisfit_of_bind h

/-! ## Checking -/

namespace Blueprint

variable {b : Blueprint}

theorem isMisfit_of_frameSize {e : Fault} (h : b.frameSize = .error e) :
    (Failure.fault e).IsMisfit := by
  unfold frameSize at h
  split at h
  · cases h
    trivial
  · split_ifs at h
    · cases h
      trivial
    · split at h <;> cases h
      trivial

/-- Once stages and sizes are found to fit, the limits decide. -/
theorem checkFrame_of_sized {filters : List Filter} {sink : Sink} {width height : Nat}
    (hsplit : split b.stages = .ok (filters, sink)) (hside : b.tileSide ≠ 0)
    (hsize : b.frameSize = .ok (width, height)) :
    b.checkFrame =
      (b.limits.checkFrame (Limits.side width) (Limits.side height)).mapError Fault.limit >>=
        fun _ ↦ .ok (filters, sink, width, height) := by
  unfold checkFrame
  rw [hsplit, hsize]
  simp only [Except.mapError, bind, Except.bind, if_neg hside]
  rfl

/-- The checks of stages and frame fail because these do not fit, or else because a limit is
exceeded. -/
theorem of_checkFrame_eq_error {e : Fault} (h : b.checkFrame = .error e) :
    (Failure.fault e).IsMisfit ∨ ∃ width height exceeded, b.frameSize = .ok (width, height) ∧
      b.limits.checkFrame (Limits.side width) (Limits.side height) = .error exceeded ∧
        e = .limit exceeded := by
  cases hsplit : split b.stages with
  | error cause =>
    unfold checkFrame at h
    rw [hsplit] at h
    cases h
    exact .inl trivial
  | ok parts =>
    by_cases hside : b.tileSide = 0
    · unfold checkFrame at h
      simp only [hsplit, hside] at h
      cases h
      exact .inl trivial
    · cases hsize : b.frameSize with
      | error fault =>
        unfold checkFrame at h
        simp only [hsplit, hsize, Except.mapError, bind, Except.bind, if_neg hside] at h
        cases h
        exact .inl (isMisfit_of_frameSize hsize)
      | ok size =>
        rw [checkFrame_of_sized hsplit hside hsize] at h
        rcases bind_eq_error_iff.1 h with h | ⟨_, -, h⟩
        · obtain ⟨exceeded, hexceeded, rfl⟩ := mapError_eq_error_iff.1 h
          exact .inr ⟨size.1, size.2, exceeded, rfl, hexceeded, rfl⟩
        · cases h

theorem checkChannels_eq (stage : Stage) :
    b.checkChannels stage =
      if Size.bound ≤ stage.channelsNeeded then .error (.misuse .overflow)
      else if b.sizes.length < stage.channelsNeeded then
        .error (.fault (.lacksChannel stage.kind (stage.channelsNeeded - 1) b.sizes.length))
      else .ok () := by
  unfold checkChannels Size.ofNat
  by_cases hsized : stage.channelsNeeded < Size.bound
  · rw [if_pos hsized, if_neg (Nat.not_le.2 hsized)]
    rfl
  · rw [if_neg hsized, if_pos (Nat.not_lt.1 hsized)]
    rfl

/-- A check fails where stages or frame do, or else where a stage lacks a channel. -/
theorem check_eq_error_iff {e : Failure} :
    b.check = .error e ↔ (∃ fault, b.checkFrame = .error fault ∧ .fault fault = e) ∨
      ∃ checked, b.checkFrame = .ok checked ∧ b.stages.forM b.checkChannels = .error e := by
  unfold check
  rw [bind_eq_error_iff, mapError_eq_error_iff]
  refine or_congr_right (exists_congr fun checked ↦ ?_)
  rw [mapError_eq_ok_iff, bind_eq_error_iff]
  exact and_congr_right fun _ ↦ or_iff_left (by rintro ⟨_, -, h⟩; cases h)

/-- A build fails where a check does, or else where the sink cannot be bound. -/
theorem build_eq_error_iff {e : Failure} :
    b.build.pipeline = .error e ↔ b.check = .error e ∨
      ∃ filters sink width height, b.check = .ok (filters, sink, width, height) ∧
        (sink.bind b.sizes).failure = some e := by
  unfold build
  cases hcheck : b.check with
  | error failure => simp
  | ok checked =>
    obtain ⟨filters, sink, width, height⟩ := checked
    dsimp only
    cases hbind : (sink.bind b.sizes).failure with
    | some failure =>
      dsimp only
      constructor
      · intro h
        cases h
        exact .inr ⟨filters, sink, width, height, rfl, hbind⟩
      · rintro (h | ⟨_, _, _, _, h, hfailure⟩)
        · cases h
        · cases h
          rw [hbind] at hfailure
          cases hfailure
          rfl
    | none =>
      constructor
      · intro h
        cases h
      · rintro (h | ⟨_, _, _, _, h, hfailure⟩)
        · cases h
        · cases h
          rw [hbind] at hfailure
          cases hfailure

end Blueprint

end Scanline
