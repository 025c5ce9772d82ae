import Mathlib.Data.List.Induction
import Scanline.Proofs.Runs
import Scanline.Proofs.Traces

/-!
# Exchanges with a consumer

A consumer is open from the moment it starts until it is released.  `Event.Fits` says when an
exchange is in turn, and `StreamSink.Orderly` that all exchanges of a sink were and that the sink
holds the consumer exactly while it is open.

Main statement: a sink stays orderly when it lets go, gets ready or is handed a segment, however
that ends (`StreamSink.Orderly.receive`).  A segment does nothing but make calls, and none if the
sink is not open for the segment's worker (`StreamSink.receive_of_not_admits`).
-/

namespace Scanline

/-! ## Exchanges in turn -/

namespace Event

/-- Whether the consumer was asked to start, and did. -/
def isStart : Event → Bool
  | opened _ _ none => true
  | _ => false

/-- Whether the consumer was handed a run. -/
def isCall : Event → Bool
  | called .. => true
  | _ => false

/-- How often the consumer has started. -/
def starts (past : List Event) : Nat := past.countP isStart

/-- How often the consumer was released. -/
def releases (past : List Event) : Nat := past.countP isRelease

/-- A consumer is asked to start when it is not open, and handed runs or released when it is. -/
def Fits (past : List Event) : Event → Prop
  | opened .. => starts past = releases past
  | called .. | released => starts past = releases past + 1

@[simp] theorem starts_append (past later : List Event) :
    starts (past ++ later) = starts past + starts later := List.countP_append

@[simp] theorem releases_append (past later : List Event) :
    releases (past ++ later) = releases past + releases later := List.countP_append

@[simp] theorem starts_singleton (event : Event) :
    starts [event] = if event.isStart then 1 else 0 := List.countP_singleton

@[simp] theorem releases_singleton (event : Event) :
    releases [event] = if event.isRelease then 1 else 0 := List.countP_singleton

theorem counts_of_calls {calls : List Event} (h : ∀ event ∈ calls, event.isCall) :
    starts calls = 0 ∧ releases calls = 0 := by
  constructor
  all_goals
    refine List.countP_eq_zero.2 fun event hmem ↦ ?_
    have hcall := h event hmem
    cases event <;> simp_all [isCall, isStart, isRelease]

/-- At any moment at most one consumer is open. -/
theorem starts_le {past : List Event} (h : InTurn Fits past) :
    releases past ≤ starts past ∧ starts past ≤ releases past + 1 := by
  induction past using List.reverseRecOn with
  | nil => exact ⟨Nat.le_refl _, Nat.zero_le _⟩
  | append_singleton past event ih =>
    obtain ⟨hpast, hevent⟩ := inTurn_concat_iff.1 h
    obtain ⟨hle, hge⟩ := ih hpast
    rw [starts_append, releases_append, starts_singleton, releases_singleton]
    cases event with
    | opened workers pixels refusal =>
      have hfits : starts past = releases past := hevent
      cases refusal <;> simp [isStart, isRelease, hfits]
    | called call failure => simpa [isStart, isRelease] using ⟨hle, hge⟩
    | released =>
      have hfits : starts past = releases past + 1 := hevent
      simp [isStart, isRelease, hfits]

/-- Calls of an open consumer are in turn. -/
theorem inTurn_append_calls {past calls : List Event} (h : InTurn Fits past)
    (hopen : starts past = releases past + 1) (hcalls : ∀ event ∈ calls, event.isCall) :
    InTurn Fits (past ++ calls) := by
  induction calls using List.reverseRecOn with
  | nil => simpa using h
  | append_singleton calls event ih =>
    have hbefore : ∀ other ∈ calls, other.isCall := fun other hother ↦
      hcalls other (List.mem_append_left _ hother)
    have hcall : event.isCall := hcalls event (by simp)
    obtain ⟨hstarts, hreleases⟩ := counts_of_calls hbefore
    rw [← List.append_assoc, inTurn_concat_iff]
    refine ⟨ih hbefore, ?_⟩
    cases event with
    | called call failure =>
      show starts (past ++ calls) = releases (past ++ calls) + 1
      rw [starts_append, releases_append, hstarts, hreleases]
      exact hopen
    | _ => cases hcall

end Event

namespace StreamSink

/-! ## What a segment does -/

/-- A sink that made calls, and did nothing else that others can notice. -/
structure Continues (s t : StreamSink) : Prop where
  /-- Its options are those it had. -/
  options_eq : t.options = s.options
  /-- So is its consumer. -/
  consumer_eq : t.consumer = s.consumer
  /-- Its consumer is open if it was. -/
  isOpen_eq : t.isOpen = s.isOpen
  /-- It has buffers for as many workers. -/
  size_eq : t.buffers.size = s.buffers.size
  /-- All that was exchanged since are calls. -/
  log_eq : ∃ calls : List Event, t.log = s.log ++ calls.toArray ∧ ∀ event ∈ calls, event.isCall

theorem Continues.refl (s : StreamSink) : s.Continues s :=
  ⟨rfl, rfl, rfl, rfl, [], by simp, by simp⟩

theorem Continues.trans {s t u : StreamSink} (h : s.Continues t) (h' : t.Continues u) :
    s.Continues u := by
  obtain ⟨calls, hlog, hcalls⟩ := h.log_eq
  obtain ⟨later, hlog', hlater⟩ := h'.log_eq
  refine ⟨h'.options_eq.trans h.options_eq, h'.consumer_eq.trans h.consumer_eq,
    h'.isOpen_eq.trans h.isOpen_eq, h'.size_eq.trans h.size_eq, calls ++ later, ?_, ?_⟩
  · exact Array.ext' (by simp [hlog', hlog])
  · intro event hevent
    rcases List.mem_append.1 hevent with hevent | hevent
    · exact hcalls event hevent
    · exact hlater event hevent

theorem Continues.keeps {s t : StreamSink} {F : Failure → Prop} {o : Outcome StreamSink}
    (h : s.Continues t) (ho : o.Keeps t.Continues F) : o.Keeps s.Continues F :=
  ⟨h.trans ho.1, ho.2⟩

/-- A failure of a sink that is open. -/
def IsOfOpen (e : Failure) : Prop := e ≠ .fault (.unprepared .stream)

theorem each_continues {ι : Type} {f : ι → StreamSink → Outcome StreamSink} {l : List ι}
    (hf : ∀ i ∈ l, ∀ s : StreamSink, (f i s).Keeps s.Continues IsOfOpen) (s : StreamSink) :
    (Outcome.each f l s).Keeps s.Continues IsOfOpen :=
  Outcome.each_keeps (fun i hi t ht ↦ ht.keeps (hf i hi t)) (.refl s)

theorem offer_continues (call : Call) (s : StreamSink) :
    (s.offer call).Keeps s.Continues IsOfOpen := by
  have hlog : ∀ failure, s.Continues { s with log := s.log.push (.called call failure) } :=
    fun failure ↦ ⟨rfl, rfl, rfl, rfl, [.called call failure], by simp, by simp [Event.isCall]⟩
  simp only [offer]
  split
  · exact Outcome.keeps_failed (hlog _) (by simp [IsOfOpen])
  · exact Outcome.keeps_done (hlog _)

theorem handOver_continues (b : StreamOptions.Bands) (pad : Nat) (segment : Segment)
    (batch : Batch) (s : StreamSink) :
    (s.handOver b pad segment batch).Keeps s.Continues IsOfOpen := by
  rcases s.handOver_cases b pad segment batch with
    ⟨misuse, -, hover⟩ | ⟨offset, -, -, -, hover⟩
  · rw [hover]
    exact Outcome.keeps_failed (.refl s) (by simp [IsOfOpen])
  · -- Only the worker's buffers change before the calls are made.
    rw [hover]
    have hcoded : ∀ staging, s.Continues
        { s with buffers := s.buffers.setIfInBounds segment.worker staging } := fun staging ↦
      ⟨rfl, rfl, rfl, by simp, [], by simp, by simp⟩
    exact (hcoded _).keeps (each_continues (fun call _ t ↦ offer_continues call t) _)

/-- A sink that takes a segment: it is open, and has buffers for the segment's worker if the output
has the row. -/
def Admits (s : StreamSink) (segment : Segment) : Prop :=
  s.isOpen ∧ (segment.row < s.options.height → segment.worker < s.buffers.size)

/-- A segment that is not taken is refused before any call. -/
theorem receive_of_not_admits {s : StreamSink} {segment : Segment} (h : ¬s.Admits segment)
    (input : Rows) : s.receive input segment = .faulted s (.unprepared .stream) := by
  rw [receive]
  split_ifs with hopen hrow hworker
  · exact absurd ⟨hopen, fun hlt ↦ absurd hrow (Nat.not_le_of_lt hlt)⟩ h
  · rfl
  · exact absurd ⟨hopen, fun _ ↦ Nat.lt_of_not_le hworker⟩ h
  · rfl

theorem receive_continues {s : StreamSink} {segment : Segment} (h : s.Admits segment)
    (input : Rows) : (s.receive input segment).Keeps s.Continues IsOfOpen := by
  obtain ⟨hopen, hworker⟩ := h
  rcases s.receive_cases input segment with
    ⟨hrefused, -⟩ | ⟨-, -, hrow⟩ | ⟨-, -, -, ⟨misuse, -, hrow⟩ | ⟨b, -, -, hrow⟩⟩
  · obtain ⟨hbelow, hsize⟩ := hrefused hopen
    exact absurd (hworker hbelow) (Nat.not_lt_of_le hsize)
  · rw [hrow]
    exact Outcome.keeps_done (.refl s)
  · rw [hrow]
    exact Outcome.keeps_failed (.refl s) (by simp [IsOfOpen])
  · rw [hrow]
    exact each_continues (fun batch _ t ↦ handOver_continues _ _ _ _ t) s

/-- Whatever becomes of a segment, nothing is exchanged but calls. -/
theorem continues_receive (input : Rows) (segment : Segment) (s : StreamSink) :
    s.Continues (s.receive input segment).state := by
  by_cases h : s.Admits segment
  · exact (receive_continues h input).1
  · rw [receive_of_not_admits h input]
    exact .refl s

/-- Whatever becomes of a batch, the workers' buffers keep their room. -/
theorem Opened.handOver {s : StreamSink} {n : Nat} (h : s.Opened n) (b : StreamOptions.Bands)
    (pad : Nat) {segment : Segment} (hworker : segment.worker < n) (batch : Batch) :
    (s.handOver b pad segment batch).state.Opened n := by
  rcases s.handOver_cases b pad segment batch with
    ⟨misuse, -, hover⟩ | ⟨offset, -, -, hroom, hover⟩
  · rw [hover]
    exact h
  · -- The calls only lengthen the log.
    obtain ⟨log, hstate⟩ := state_each_offer _ _
    rw [hover, hstate]
    exact (h.set_encode hworker b offset hroom).with_log log

/-- Whatever becomes of a window, the workers' buffers keep their room. -/
theorem Opened.receive {s : StreamSink} {n : Nat} (h : s.Opened n) (input : Rows)
    (segment : Segment) : (s.receive input segment).state.Opened n := by
  rcases s.receive_cases input segment with
    ⟨-, hrow⟩ | ⟨-, -, hrow⟩ | ⟨-, -, hworker, ⟨_, -, hrow⟩ | ⟨b, -, -, hrow⟩⟩
  · rwa [hrow]
  · rwa [hrow]
  · rwa [hrow]
  · rw [h.size_buffers] at hworker
    have hkeeps : ∀ parts, (Outcome.each (StreamSink.handOver b input.pad segment) parts s).Keeps
        (Opened · n) fun _ ↦ True := fun parts ↦
      Outcome.each_keeps (fun batch _ t ht ↦
        ⟨ht.handOver b input.pad hworker batch, fun _ _ ↦ trivial⟩) h
    rw [hrow]
    exact (hkeeps _).1

/-! ## Sinks in order -/

@[simp] theorem isOpen_close (s : StreamSink) : s.close.isOpen = false := by rw [close_eq]

@[simp] theorem isOpen_release (s : StreamSink) : s.release.isOpen = false := s.isOpen_close

/-- A sink whose exchanges were in turn, and that holds the consumer exactly while it is open. -/
structure Orderly (s : StreamSink) : Prop where
  /-- Every exchange was in turn. -/
  inTurn : InTurn Event.Fits s.log.toList
  /-- The consumer that the sink holds is the one that was not released. -/
  starts_eq : Event.starts s.log.toList =
    Event.releases s.log.toList + (if s.isOpen then 1 else 0)

namespace Orderly

variable {s : StreamSink} (h : s.Orderly)
include h

theorem close : s.close.Orderly := by
  obtain ⟨options, consumer, _ | _, buffers, log⟩ := s
  · exact h
  · have hopen : Event.starts log.toList = Event.releases log.toList + 1 := h.starts_eq
    refine ⟨?_, ?_⟩
    · rw [StreamSink.close, if_pos rfl, Array.toList_push, inTurn_concat_iff]
      exact ⟨h.inTurn, hopen⟩
    · simp [StreamSink.close, Array.toList_push, hopen, Event.isStart, Event.isRelease]

theorem release : s.release.Orderly := ⟨h.close.inTurn, h.close.starts_eq⟩

theorem starts_close :
    Event.starts s.close.log.toList = Event.releases s.close.log.toList := by
  simpa using h.close.starts_eq

/-- A sink that gets ready, be there memory or not. -/
theorem prepareWithin (granted : Nat → Bool) (n : Nat) :
    (s.prepareWithin granted n).state.Orderly := by
  have hturn : ∀ refusal, InTurn Event.Fits
      (s.close.log.push (.opened n runLimit refusal)).toList := by
    intro refusal
    rw [Array.toList_push, inTurn_concat_iff]
    exact ⟨h.close.inTurn, h.starts_close⟩
  rcases s.prepareWithin_cases granted n with
    ⟨reason, -, hrefused⟩ | ⟨-, ⟨bytes, -, hshort⟩ | ⟨-, hready⟩⟩
  · rw [hrefused]
    refine ⟨hturn _, ?_⟩
    simp [Outcome.faulted, Outcome.failed, h.starts_close, Event.isStart, Event.isRelease]
  · rw [hshort]
    refine ⟨hturn _, ?_⟩
    simp [Outcome.faulted, Outcome.failed, h.starts_close, Event.isStart, Event.isRelease]
  · rw [hready]
    refine ⟨hturn _, ?_⟩
    simp [h.starts_close, Event.isStart, Event.isRelease]

/-- A sink that made calls while it was open. -/
theorem continues {t : StreamSink} (ht : s.Continues t) (hopen : s.isOpen) : t.Orderly := by
  obtain ⟨calls, hlog, hcalls⟩ := ht.log_eq
  obtain ⟨hstarts, hreleases⟩ := Event.counts_of_calls hcalls
  have hbalance := h.starts_eq
  rw [if_pos hopen] at hbalance
  have hlist : t.log.toList = s.log.toList ++ calls := by rw [hlog, Array.toList_append]
  refine ⟨?_, ?_⟩
  · rw [hlist]
    exact Event.inTurn_append_calls h.inTurn hbalance hcalls
  · rw [hlist, ht.isOpen_eq, if_pos hopen, Event.starts_append, Event.releases_append, hstarts,
      hreleases]
    exact hbalance

theorem receive (input : Rows) (segment : Segment) : (s.receive input segment).state.Orderly := by
  by_cases hadmits : s.Admits segment
  · exact h.continues (receive_continues hadmits input).1 hadmits.1
  · rw [receive_of_not_admits hadmits input]
    exact h

end Orderly

end StreamSink

end Scanline
