import Scanline.Proofs.Schedules

/-!
# Consumers that give up

The answers of a consumer may depend on all that went before, so it may give up on any call, by its
place in the frame, its number or anything else.  The reference is the same consumer that never
gives up (`Consumer.steady`).

Main statement: a run in order makes the calls that it makes of the steady consumer, up to the first
one that is not taken; it makes none after it and fails with the place of that call and the
consumer's own reason (`Pipeline.run_inOrder_stops_at_failure`).
-/

namespace Scanline

/-! ## The first call that is not taken -/

namespace Consumer

/-- The same consumer, except that it never gives up. -/
def steady (c : Consumer) : Consumer := { c with failure := fun _ _ ↦ none }

/-- Whether a consumer takes calls, one after another, after what went before. -/
def Takes (c : Consumer) (log : Array Event) : List Call → Prop
  | [] => True
  | call :: rest => c.failure log call = none ∧ c.Takes (log.push (.called call none)) rest

end Consumer

namespace StreamSink

/-- The exchanges in which calls are taken. -/
def takings (calls : List Call) : List Event := calls.map fun call ↦ .called call none

theorem push_append_toArray (log : Array Event) (event : Event) (events : List Event) :
    log.push event ++ events.toArray = log ++ (event :: events).toArray := Array.ext' (by simp)

/-- Calls are offered up to the first one that is not taken, if there is one. -/
theorem each_offer_eq (calls : List Call) (s : StreamSink) :
    (s.consumer.Takes s.log calls ∧
      Outcome.each offer calls s = .done { s with log := s.log ++ (takings calls).toArray }) ∨
    ∃ first call rest reason, calls = first ++ call :: rest ∧ s.consumer.Takes s.log first ∧
      s.consumer.failure (s.log ++ (takings first).toArray) call = some reason ∧
      Outcome.each offer calls s =
        .faulted
          { s with log := s.log ++ (takings first ++ [Event.called call (some reason)]).toArray }
          (.consumerFailed call.x call.y reason) := by
  induction calls generalizing s with
  | nil => exact .inl ⟨trivial, by simp [takings]⟩
  | cons call rest ih =>
    cases hfailure : s.consumer.failure s.log call with
    | some reason =>
      have hoffer : s.offer call =
          .faulted { s with log := s.log.push (.called call (some reason)) }
            (.consumerFailed call.x call.y reason) := by
        simp only [offer, hfailure]
      refine .inr ⟨[], call, rest, reason, rfl, trivial, by simpa [takings] using hfailure, ?_⟩
      rw [Outcome.each_cons, hoffer]
      simp [takings, Outcome.faulted, Outcome.failed]
    | none =>
      have hoffer : s.offer call = .done { s with log := s.log.push (.called call none) } := by
        simp only [offer, hfailure]
      rw [Outcome.each_cons, hoffer, Outcome.done_next]
      rcases ih { s with log := s.log.push (.called call none) } with
        ⟨htakes, heach⟩ | ⟨first, last, others, reason, rfl, htakes, hlast, heach⟩
      · refine .inl ⟨⟨hfailure, htakes⟩, ?_⟩
        rw [heach, push_append_toArray]
        rfl
      · refine .inr ⟨call :: first, last, others, reason, rfl, ⟨hfailure, htakes⟩, ?_, ?_⟩
        · rwa [push_append_toArray] at hlast
        · rw [heach, push_append_toArray]
          rfl

variable (s : StreamSink)

/-- The exchanges up to the moment when the consumer has started for `n` workers. -/
def started (n : Nat) : Array Event := s.release.log.push (.opened n runLimit none)

/-- What is left of a sink whose consumer started for `n` workers, exchanged something, and was
released. -/
def closed (n : Nat) (events : List Event) : StreamSink :=
  { s with
    isOpen := false
    buffers := #[]
    log := (s.started n ++ events.toArray).push .released }

/-- What a run comes to that makes calls of a consumer that started for one worker, up to the first
call that is not taken. -/
inductive Makes (calls : List Call) : Outcome Sink → Prop
  /-- All calls are taken. -/
  | all (takes : s.consumer.Takes (s.started 1) calls) :
    Makes calls (.done (.stream (s.closed 1 (takings calls))))
  /-- A call is not taken.  It is the last one, and the run fails with its place and the reason. -/
  | upTo {first rest : List Call} {call : Call} {reason : String}
    (split : calls = first ++ call :: rest)
    (takes : s.consumer.Takes (s.started 1) first)
    (fails : s.consumer.failure (s.started 1 ++ (takings first).toArray) call = some reason) :
    Makes calls (.faulted
      (.stream (s.closed 1 (takings first ++ [Event.called call (some reason)])))
      (.consumerFailed call.x call.y reason))

/-- The sink with the steady consumer in place of its own. -/
def steady : StreamSink := { s with consumer := s.consumer.steady }

theorem release_steady : s.steady.release = s.release.steady := by
  obtain ⟨options, consumer, _ | _, buffers, log⟩ := s <;> rfl

end StreamSink

/-! ## Runs -/

/-- Another consumer changes nothing about what was built. -/
theorem Blueprint.Yields.withConsumer {b : Blueprint} {p : Pipeline} {sink : Sink}
    (h : b.Yields p sink) {s : StreamSink} (hsink : p.sink = .stream s) (consumer : Consumer) :
    ∃ b' : Blueprint, b'.Yields { p with sink := .stream { s with consumer } }
      (.stream { s with consumer }) := by
  have hplanned := h.planned
  refine ⟨{ b with stages := p.filters.map .filter ++ [.sink (.stream { s with consumer })] },
    rfl, rfl, h.sizes_eq, h.side_eq, h.limits_eq, ?_⟩
  have hmodes := hplanned.modes_eq
  have hpadding := hplanned.padding_eq
  have hneeds := hplanned.needs_le
  unfold Pipeline.stages at hmodes hpadding hneeds
  rw [hsink] at hmodes hpadding hneeds
  refine ⟨?_, ?_, hplanned.plans_eq, ?_, hplanned.channels_pos, hplanned.width_pos,
    hplanned.height_pos, hplanned.side_pos⟩
  · rw [hmodes]
    simp [Pipeline.stages, Stage.mode, Sink.mode, Pipeline.channels]
  · rw [hpadding]
    simp [Pipeline.stages, Stage.border]
  · intro stage hstage
    rcases List.mem_append.1 hstage with hfilter | hlast
    · exact hneeds stage (List.mem_append_left _ hfilter)
    · rw [List.mem_singleton.1 hlast]
      exact hneeds (.sink (.stream s)) (List.mem_append_right _ List.mem_cons_self)

namespace Pipeline

variable {p : Pipeline} {input : List Plane}

/-- A run in order offers the calls of the frame to a consumer that starts, and releases it. -/
theorem run_inOrder_offers {b : Blueprint} {sink : Sink} (h : b.Yields p sink)
    (side : p.tileSide < Size.bound)
    (hasRow : ∀ plane ∈ input, ∀ y < plane.height, plane.hasRow y)
    (accepted : p.checkRun input 1 = .ok ()) {s : StreamSink} (hsink : p.sink = .stream s)
    (starts : s.consumer.refusal s.release.log 1 = none) :
    ∃ buffers, p.run input .inOrder =
      (Outcome.each StreamSink.offer (p.inOrderMoves.flatMap (p.moveCalls input s.options))
        { s with isOpen := true, buffers, log := s.started 1 }).map fun t ↦ .stream t.release := by
  obtain ⟨rows, hreserve⟩ := exists_reserve_of_checkRun h.planned hasRow accepted
  rw [run_inOrder h.planned side hasRow]
  exact interleaved_offers schedule_inOrderMoves h hasRow accepted hreserve hsink starts

/-- A run in order makes the calls that it makes of a consumer that never gives up: all of them, if
each is taken, and otherwise those up to the first one that is not.  Then it fails with the place of
that call and the reason that the consumer gave, and makes no further call. -/
theorem run_inOrder_stops_at_failure {b : Blueprint} (h : b.build.pipeline = .ok p)
    (side : b.tileSide < Size.bound)
    (hasRow : ∀ plane ∈ input, ∀ y < plane.height, plane.hasRow y)
    (accepted : p.checkRun input 1 = .ok ()) {s : StreamSink} (hsink : p.sink = .stream s)
    (starts : s.consumer.refusal s.release.log 1 = none) :
    ∃ calls, Pipeline.run { p with sink := .stream s.steady } input .inOrder =
        .done (.stream (s.steady.closed 1 (StreamSink.takings calls))) ∧
      s.Makes calls (p.run input .inOrder) := by
  obtain ⟨bound, hyields⟩ := Blueprint.exists_yields h
  rw [← hyields.side_eq] at side
  obtain ⟨b', hyields'⟩ := hyields.withConsumer hsink s.consumer.steady
  refine ⟨p.inOrderMoves.flatMap (p.moveCalls input s.options), ?_, ?_⟩
  · have hstarts : s.steady.consumer.refusal s.steady.release.log 1 = none := by
      rw [s.release_steady]
      exact starts
    obtain ⟨buffers, hrun⟩ := run_inOrder_offers hyields' side hasRow accepted rfl hstarts
    rcases StreamSink.each_offer_eq (p.inOrderMoves.flatMap (p.moveCalls input s.options))
        { s.steady with isOpen := true, buffers, log := s.steady.started 1 } with
      ⟨-, heach⟩ | ⟨first, call, rest, reason, -, -, hfailure, -⟩
    · refine hrun.trans ?_
      exact congrArg (Outcome.map fun t ↦ Sink.stream t.release) heach
    · cases hfailure
  · obtain ⟨buffers, hrun⟩ := run_inOrder_offers hyields side hasRow accepted hsink starts
    rcases StreamSink.each_offer_eq (p.inOrderMoves.flatMap (p.moveCalls input s.options))
        { s with isOpen := true, buffers, log := s.started 1 } with
      ⟨htakes, heach⟩ | ⟨first, call, rest, reason, hcalls, htakes, hfailure, heach⟩
    · rw [hrun, heach]
      exact .all htakes
    · rw [hrun, heach]
      exact .upTo hcalls htakes hfailure

/-- A consumer that gives up on the third column of the output, which is the first row of a frame
that is turned round. -/
theorem run_inOrder_stops_at_failure_rotated :
    let s : StreamSink := ⟨{ width := 2, height := 3, format := .rgba8, orientation := .rotate90 },
      ⟨fun _ _ ↦ none, fun _ call ↦ if call.x = 2 then some "full" else none⟩, false, #[], #[]⟩
    let b : Blueprint :=
      ⟨List.replicate 3 (2, 3), [.filter (.smooth .standard), .sink (.stream s)], 1, {}⟩
    let input : List Plane :=
      List.replicate 3 ⟨2, 3, 2, Array.replicate 6 .one, by decide, by decide⟩
    ∃ p, b.build.pipeline = .ok p ∧
      ∃ calls, Pipeline.run { p with sink := .stream s.steady } input .inOrder =
          .done (.stream (s.steady.closed 1 (StreamSink.takings calls))) ∧
        s.Makes calls (p.run input .inOrder) := by
  intro s b input
  exact ⟨_, rfl, run_inOrder_stops_at_failure (b := b) rfl (by decide) (by decide)
    (by decide +kernel) rfl rfl⟩

end Pipeline

end Scanline
