import Scanline.Proofs.Exchanges
import Scanline.Proofs.Runners

/-!
# Sessions of a consumer

A sink may be asked to get ready and handed segments in any order, each of these may fail, and
memory for its buffers may be refused at any request.  `StreamSink.Ended` says what came of it when
a sink was last asked to get ready.  A run asks for one session at most, which is over when the run
is (`Pipeline.run_session`), whatever the runner does and whatever memory there is.

Main statement: the consumer is opened and released in turn, and nobody is left with an open one
(`StreamSink.sessions_in_turn`).  Rows are handed over only by a sink that was last got ready for
their worker, with one exception: if memory was refused then, the consumer is open all the same, and
the workers that still have buffers go on.
-/

namespace Scanline

namespace StreamSink

/-! ## Acts -/

/-- What is asked of a sink. -/
inductive Act where
  /-- To get ready for a number of workers, as far as memory is granted. -/
  | prepareWithin (granted : Nat → Bool) (workers : Nat)
  /-- To take a segment. -/
  | row (input : Rows) (segment : Segment)

/-- To get ready for a number of workers where there is memory. -/
def Act.prepare (workers : Nat) : Act := .prepareWithin (fun _ ↦ true) workers

/-- Whether a sink is asked to take a segment. -/
def Act.isRow : Act → Bool
  | prepareWithin .. => false
  | row .. => true

/-- What a sink does that is asked. -/
def act (s : StreamSink) : Act → Outcome StreamSink
  | .prepareWithin granted workers => s.prepareWithin granted workers
  | .row input segment => s.receive input segment

/-- A sink after acts, each of which may have failed. -/
def after (s : StreamSink) (acts : List Act) : StreamSink :=
  acts.foldl (fun s act ↦ (s.act act).state) s

/-- What came of it when a sink was last asked to get ready, which was for `n` workers. -/
def Ended (s : StreamSink) (acts : List Act) (n : Nat) (failure : Option Failure) : Prop :=
  ∃ before granted rows, acts = before ++ .prepareWithin granted n :: rows ∧
    (∀ act ∈ rows, act.isRow) ∧ ((s.after before).prepareWithin granted n).failure = failure

/-- A sink whose last getting ready was for `n` workers, and did not fail. -/
def Granted (s : StreamSink) (acts : List Act) (n : Nat) : Prop := s.Ended acts n none

/-- A sink whose last getting ready failed because memory for its buffers was refused. -/
def Starved (s : StreamSink) (acts : List Act) : Prop :=
  ∃ n bytes, s.Ended acts n (some (.fault (.outOfMemory .staging bytes)))

/-- For how many workers a sink has buffers after an act, if it has them for `n` workers before: new
ones are made only by getting ready without failing. -/
def restaffed (s : StreamSink) (n : Nat) : Act → Nat
  | .prepareWithin granted workers =>
    if (s.prepareWithin granted workers).failure.isNone then workers else n
  | .row .. => n

/-- For how many workers a sink has buffers after acts, if it has them for `n` workers before. -/
def staffed (s : StreamSink) (n : Nat) : List Act → Nat
  | [] => n
  | act :: rest => (s.act act).state.staffed (s.restaffed n act) rest

section Acts

variable {s : StreamSink} {acts : List Act} {n : Nat}

@[simp] theorem after_concat (s : StreamSink) (acts : List Act) (act : Act) :
    s.after (acts ++ [act]) = ((s.after acts).act act).state := by simp [after]

theorem Orderly.after (h : s.Orderly) (acts : List Act) : (s.after acts).Orderly := by
  induction acts generalizing s with
  | nil => exact h
  | cons act rest ih =>
    cases act with
    | prepareWithin granted workers => exact ih (h.prepareWithin granted workers)
    | row input segment => exact ih (h.receive input segment)

/-- Getting ready ends as it does, and rows leave that as it is. -/
theorem ended_concat_iff {act : Act} {failure : Option Failure} :
    s.Ended (acts ++ [act]) n failure ↔
      (∃ granted, act = .prepareWithin granted n ∧
        ((s.after acts).prepareWithin granted n).failure = failure) ∨
      act.isRow ∧ s.Ended acts n failure := by
  constructor
  · rintro ⟨before, granted, rows, hacts, hrows, hended⟩
    rcases rows.eq_nil_or_concat' with rfl | ⟨rows, last, rfl⟩
    · obtain ⟨rfl, hact⟩ := List.append_inj' hacts rfl
      exact .inl ⟨granted, List.singleton_inj.1 hact, hended⟩
    · rw [← List.cons_append, ← List.append_assoc] at hacts
      obtain ⟨rfl, hact⟩ := List.append_inj' hacts rfl
      obtain rfl := List.singleton_inj.1 hact
      exact .inr ⟨hrows act (by simp), before, granted, rows, rfl,
        fun other hother ↦ hrows other (List.mem_append_left _ hother), hended⟩
  · rintro (⟨granted, rfl, hended⟩ | ⟨hrow, before, granted, rows, rfl, hrows, hended⟩)
    · exact ⟨acts, granted, [], rfl, by simp, hended⟩
    · refine ⟨before, granted, rows ++ [act], by simp, ?_, hended⟩
      intro other hother
      rcases List.mem_append.1 hother with hother | hother
      · exact hrows other hother
      · rw [List.mem_singleton.1 hother]
        exact hrow

/-- No act changes what is handed over, or to whom. -/
theorem fixed_after (s : StreamSink) (acts : List Act) :
    (s.after acts).options = s.options ∧ (s.after acts).consumer = s.consumer := by
  induction acts using List.reverseRecOn with
  | nil => exact ⟨rfl, rfl⟩
  | append_singleton acts act ih =>
    rw [after_concat]
    cases act with
    | prepareWithin granted workers =>
      rw [StreamSink.act]
      rcases (s.after acts).prepareWithin_cases granted workers with
        ⟨reason, -, hact⟩ | ⟨-, ⟨bytes, -, hact⟩ | ⟨-, hact⟩⟩
      all_goals
        rw [hact]
        exact ih
    | row input segment =>
      have hrow := continues_receive input segment (s.after acts)
      exact ⟨hrow.options_eq.trans ih.1, hrow.consumer_eq.trans ih.2⟩

/-- A sink that was asked to get ready is open unless its consumer would not start: it got ready, or
memory was refused. -/
theorem isOpen_prepareWithin_iff (s : StreamSink) (granted : Nat → Bool) (n : Nat) :
    (s.prepareWithin granted n).state.isOpen ↔ (s.prepareWithin granted n).failure = none ∨
      ∃ bytes, (s.prepareWithin granted n).failure =
        some (.fault (.outOfMemory .staging bytes)) := by
  rcases s.prepareWithin_cases granted n with
    ⟨reason, -, hact⟩ | ⟨-, ⟨bytes, -, hact⟩ | ⟨-, hact⟩⟩
  all_goals rw [hact]; simp [Outcome.faulted, Outcome.failed]

/-- A sink is open after acts if its last getting ready did not fail, or only for want of memory. -/
theorem isOpen_after_iff (hs : s.isOpen = false) :
    (s.after acts).isOpen ↔ (∃ n, s.Granted acts n) ∨ s.Starved acts := by
  induction acts using List.reverseRecOn with
  | nil => simp [after, Granted, Starved, Ended, hs]
  | append_singleton acts act ih =>
    simp only [Granted, Starved, ended_concat_iff, after_concat] at ih ⊢
    cases act with
    | prepareWithin granted workers =>
      rw [StreamSink.act, isOpen_prepareWithin_iff]
      simp [Act.isRow]
    | row input segment =>
      rw [StreamSink.act, (continues_receive input segment _).isOpen_eq, ih]
      simp [Act.isRow]

theorem size_buffers_act (s : StreamSink) (act : Act) :
    (s.act act).state.buffers.size = s.restaffed s.buffers.size act := by
  cases act with
  | prepareWithin granted workers =>
    rw [StreamSink.act, restaffed]
    rcases s.prepareWithin_cases granted workers with
      ⟨reason, -, hact⟩ | ⟨-, ⟨bytes, -, hact⟩ | ⟨-, hact⟩⟩
    all_goals rw [hact]; simp [Outcome.faulted, Outcome.failed]
  | row input segment => exact (continues_receive input segment s).size_eq

/-- A sink has the buffers that it was last given. -/
theorem size_buffers_after (s : StreamSink) (acts : List Act) :
    (s.after acts).buffers.size = s.staffed s.buffers.size acts := by
  induction acts generalizing s with
  | nil => rfl
  | cons act rest ih =>
    rw [staffed, ← size_buffers_act]
    exact ih (s.act act).state

/-- A sink that was got ready for some workers is open for them, whatever it was handed since. -/
theorem opened_after (h : s.Granted acts n) : (s.after acts).Opened n := by
  induction acts using List.reverseRecOn with
  | nil =>
    obtain ⟨before, granted, rows, hacts, -⟩ := h
    simp at hacts
  | append_singleton acts act ih =>
    rw [after_concat]
    rcases ended_concat_iff.1 h with ⟨granted, rfl, hended⟩ | ⟨hrow, hbefore⟩
    · exact (opened_of_prepareWithin (Outcome.eq_done_of_failure hended)).2
    · cases act with
      | prepareWithin granted workers => cases hrow
      | row input segment => exact (ih hbefore).receive input segment

end Acts

end StreamSink

/-! ## Runs -/

/-- Gets ready for a number of workers, as far as memory is granted. -/
def Sink.prepareWithin (granted : Nat → Bool) : Sink → Nat → Outcome Sink
  | .stream s, workers => (s.prepareWithin granted workers).map .stream
  | s, _ => .done s

@[simp] theorem Sink.prepareWithin_true (s : Sink) (workers : Nat) :
    s.prepareWithin (fun _ ↦ true) workers = s.prepare workers := by
  cases s <;> rfl

/-- The bytes of one worker's rows, in the order in which memory is asked for them. -/
def Workspace.requests (plans : List Plan) (length : Nat) : List Nat :=
  plans.flatMap fun plan ↦
    if plan.inUse then
      [Size.satMul length sampleBytes, if plan.changed then Size.satMul length sampleBytes else 0]
    else []

/-- Pushes a frame through the pipeline as far as memory is granted, to the sink for its buffers and
to the workers for their rows, and leaves the sink. -/
def Pipeline.runWithin (p : Pipeline) (buffers rows : Nat → Bool) (input : List Plane)
    (runner : Runner) : Outcome Sink :=
  let o : Outcome Sink :=
    match p.checkRun input runner.workers with
    | .error failure => .failed p.sink failure
    | .ok () => (p.sink.prepareWithin buffers runner.workers).next fun sink ↦
        let requests := Workspace.requests p.plans p.rowLength
        match shortage rows (List.replicate runner.workers requests).flatten with
        | some bytes => .faulted sink (.outOfMemory .workerRow bytes)
        | none => p.processTiles input runner sink
  o.map Sink.release

@[simp] theorem Pipeline.runWithin_true (p : Pipeline) (input : List Plane) (runner : Runner) :
    p.runWithin (fun _ ↦ true) (fun _ ↦ true) input runner = p.run input runner := by
  cases hcheck : p.checkRun input runner.workers <;>
    simp only [runWithin, run, hcheck, Sink.prepareWithin_true, StreamSink.shortage_true]

/-- What every task keeps, any runner keeps, even one that makes up tasks. -/
theorem Runner.run_keeps_of_all {σ : Type} {I : σ → Prop} {F : Failure → Prop} {tasks : Nat}
    {task : Nat → Nat → σ → Outcome σ} (r : Runner)
    (htask : ∀ index worker s, I s → (task index worker s).Keeps I F) {s : σ} (hs : I s) :
    (r.run tasks task s).Keeps I F := by
  cases r with
  | scripted workers script =>
    rw [run, follow_eq_each]
    exact Outcome.each_keeps (fun v _ s hs ↦ htask v.index v.worker s hs) hs
  | inOrder => exact run_keeps (r := .inOrder) trivial (fun i _ ↦ htask i) hs
  | pool workers => exact run_keeps (r := .pool workers) trivial (fun i _ ↦ htask i) hs

namespace Pipeline

/-- A sink with a consumer that has made calls since it was `s`. -/
def Calling (s : StreamSink) (sink : Sink) : Prop := ∃ t, sink = .stream t ∧ s.Continues t

/-- Whatever becomes of a step, nothing is exchanged with the consumer but calls. -/
theorem perform_calling (p : Pipeline) (input : List Plane) (worker : Nat) (step : Step)
    {s : StreamSink} {progress : Progress} (h : Calling s progress.sink) :
    (p.perform input worker step progress).Keeps (fun after ↦ Calling s after.sink)
      fun _ ↦ True := by
  obtain ⟨workers, sink⟩ := progress
  refine ⟨?_, fun _ _ ↦ trivial⟩
  unfold perform
  dsimp only
  split
  case isFalse => exact h
  case isTrue =>
    split
    case h_1 => split <;> exact h
    case h_2 =>
      obtain ⟨t, rfl, ht⟩ := h
      exact ⟨_, rfl, ht.trans (t.continues_receive _ _)⟩

/-- Whatever becomes of a tile, nothing is exchanged with the consumer but calls. -/
theorem processTile_calling (p : Pipeline) (input : List Plane) (tile worker : Nat) {s : StreamSink}
    {progress : Progress} (h : Calling s progress.sink) :
    (p.processTile input tile worker progress).Keeps (fun after ↦ Calling s after.sink)
      fun _ ↦ True := by
  unfold processTile
  split
  case isFalse => exact Outcome.keeps_failed h trivial
  case isTrue =>
    split
    case h_2 => exact Outcome.keeps_failed h trivial
    case h_1 =>
      rw [Outcome.count_eq_each]
      refine Outcome.each_keeps (fun row _ _ hrow ↦ ?_) h
      exact Outcome.each_keeps (fun step _ _ hstep ↦ p.perform_calling input worker step hstep) hrow

/-- Whatever becomes of the tiles, nothing is exchanged with the consumer but calls. -/
theorem processTiles_calling (p : Pipeline) (input : List Plane) (runner : Runner)
    (s : StreamSink) : Calling s (p.processTiles input runner (.stream s)).state := by
  have hstart : Calling s (.stream s) := ⟨s, rfl, .refl s⟩
  unfold processTiles
  split
  case h_1 => exact hstart
  case h_2 =>
    split
    case h_1 => exact hstart
    case h_2 =>
      exact (runner.run_keeps_of_all
        (fun tile worker _ h ↦ processTile_calling p input tile worker h) hstart).1

end Pipeline

/-- What a consumer is asked to do in one session: it will not start, or it starts, takes calls, and
is released. -/
inductive Event.Session : List Event → Prop
  /-- It will not start. -/
  | refused (workers : Nat) (reason : String) :
    Session [.opened workers runLimit (some reason)]
  /-- It starts, takes calls, and is released. -/
  | closed (workers : Nat) {calls : List Event} (h : ∀ event ∈ calls, event.isCall) :
    Session (.opened workers runLimit none :: (calls ++ [.released]))

namespace Event.Session

variable {events : List Event} (h : Session events)
include h

/-- A session is in turn when no consumer is open, and leaves none open. -/
theorem inTurn_append {past : List Event} (hpast : InTurn Fits past)
    (hclosed : starts past = releases past) :
    InTurn Fits (past ++ events) ∧ starts (past ++ events) = releases (past ++ events) := by
  cases h with
  | refused workers reason =>
    refine ⟨inTurn_concat_iff.2 ⟨hpast, hclosed⟩, ?_⟩
    simp [hclosed, isStart, isRelease]
  | @closed workers calls hcalls =>
    obtain ⟨hstarts, hreleases⟩ := counts_of_calls hcalls
    have hopened : starts (past ++ [.opened workers runLimit none]) =
        releases (past ++ [.opened workers runLimit none]) + 1 := by
      simp [hclosed, isStart, isRelease]
    have hcalled : starts (past ++ [.opened workers runLimit none] ++ calls) =
        releases (past ++ [.opened workers runLimit none] ++ calls) + 1 := by
      rw [starts_append, releases_append, hstarts, hreleases]
      exact hopened
    have hsplit : past ++ (.opened workers runLimit none :: (calls ++ [.released])) =
        past ++ [.opened workers runLimit none] ++ calls ++ [.released] := by simp
    rw [hsplit, inTurn_concat_iff]
    refine ⟨⟨inTurn_append_calls (inTurn_concat_iff.2 ⟨hpast, hclosed⟩) hopened hcalls,
      hcalled⟩, ?_⟩
    rw [starts_append, releases_append, hcalled]
    simp [isStart, isRelease]

/-- A consumer is asked to start once in a session. -/
theorem openings_eq : events.countP isOpening = 1 := by
  cases h with
  | refused workers reason => rfl
  | @closed workers calls hcalls =>
    have hcalls : calls.countP isOpening = 0 := List.countP_eq_zero.2 fun event hmem ↦ by
      have hcall := hcalls event hmem
      cases event <;> simp_all [isCall, isOpening]
    rw [List.countP_cons, List.countP_append, hcalls]
    rfl

/-- A consumer that will not start is not called. -/
theorem not_isCall_of_refused {workers pixels : Nat} {reason : String}
    (hrefused : .opened workers pixels (some reason) ∈ events) :
    ∀ event ∈ events, ¬event.isCall := by
  cases h with
  | refused workers reason => simp [isCall]
  | closed workers hcalls =>
    rcases List.mem_cons.1 hrefused with heq | hmem
    · cases heq
    · rcases List.mem_append.1 hmem with hmem | hmem
      · cases hcalls _ hmem
      · cases List.mem_singleton.1 hmem

end Event.Session

/-- Whatever came of it when a consumer had started, once it is released it was asked for one
session. -/
theorem Pipeline.session_of_calling {s : StreamSink} {n : Nat} {buffers : Array Staging}
    (o : Outcome Sink)
    (h : Calling
      { s with isOpen := true, buffers, log := s.close.log.push (.opened n runLimit none) }
      o.state) :
    ∃ t events, (o.map Sink.release).state = .stream t ∧ t.isOpen = false ∧
      t.log = s.release.log ++ events.toArray ∧ Event.Session events := by
  obtain ⟨t, hstate, ht⟩ := h
  obtain ⟨calls, hlog, hcalls⟩ := ht.log_eq
  refine ⟨t.release, _, by rw [Outcome.state_map, hstate]; rfl, t.isOpen_release, ?_,
    .closed n hcalls⟩
  rw [StreamSink.log_release, StreamSink.close, if_pos ht.isOpen_eq, hlog]
  exact Array.ext' (by simp)

/-- A consumer that is asked to start, and only called after that, was asked for one session once it
is released. -/
theorem Pipeline.session_of_prepareWithin (s : StreamSink) (granted : Nat → Bool) (n : Nat)
    (rest : Sink → Outcome Sink) (calling : ∀ t, Calling t (rest (.stream t)).state) :
    ∃ t events,
      ((((Sink.stream s).prepareWithin granted n).next rest).map Sink.release).state = .stream t ∧
        t.isOpen = false ∧ t.log = s.release.log ++ events.toArray ∧ Event.Session events := by
  rw [Sink.prepareWithin]
  rcases s.prepareWithin_cases granted n with
    ⟨reason, -, hprepare⟩ | ⟨-, ⟨bytes, -, hprepare⟩ | ⟨-, hprepare⟩⟩
  · rw [hprepare]
    refine ⟨_, [.opened n runLimit (some reason)], rfl, rfl, Array.ext' ?_, .refused n reason⟩
    simp [Outcome.faulted, Outcome.failed, StreamSink.close]
  · rw [hprepare]
    exact session_of_calling (.faulted (.stream _) (.outOfMemory .staging bytes))
      ⟨_, rfl, .refl _⟩
  · rw [hprepare, Outcome.map_done, Outcome.done_next]
    exact session_of_calling _ (calling _)

/-- A run lets go of what the sink held, and then either stops at its checks or opens one session,
which is over when the run is. -/
theorem Pipeline.run_session {p : Pipeline} {s : StreamSink} (hsink : p.sink = .stream s)
    (buffers rows : Nat → Bool) (input : List Plane) (runner : Runner) :
    ∃ t events, (p.runWithin buffers rows input runner).state = .stream t ∧ t.isOpen = false ∧
      t.log = s.release.log ++ events.toArray ∧
      ((∃ e, p.checkRun input runner.workers = .error e) ∧ events = [] ∨
        p.checkRun input runner.workers = .ok () ∧ Event.Session events) := by
  unfold runWithin
  rw [hsink]
  cases hcheck : p.checkRun input runner.workers with
  | error e =>
    exact ⟨s.release, [], rfl, s.isOpen_release, by simp, .inl ⟨⟨e, rfl⟩, rfl⟩⟩
  | ok _ =>
    refine (session_of_prepareWithin s buffers runner.workers _ fun t ↦ ?_).imp fun t ↦
      Exists.imp fun events ⟨hstate, hclosed, hlog, hsession⟩ ↦
        ⟨hstate, hclosed, hlog, .inr ⟨rfl, hsession⟩⟩
    dsimp only
    split
    case h_1 => exact ⟨t, rfl, .refl t⟩
    case h_2 => exact p.processTiles_calling input runner t

/-- A sink that is done with its consumer. -/
structure StreamSink.Settled (t : StreamSink) : Prop where
  /-- The consumer was asked to start only when it was not open, and called and released only when
  it was. -/
  inTurn : InTurn Event.Fits t.log.toList
  /-- At any moment at most one was open. -/
  starts_le : ∀ past, past <+: t.log.toList →
    Event.releases past ≤ Event.starts past ∧ Event.starts past ≤ Event.releases past + 1
  /-- It was released as often as it started. -/
  starts_eq : Event.starts t.log.toList = Event.releases t.log.toList
  /-- The sink holds none. -/
  isOpen_eq : t.isOpen = false

theorem StreamSink.settled_of_inTurn {t : StreamSink} (h : InTurn Event.Fits t.log.toList)
    (starts_eq : Event.starts t.log.toList = Event.releases t.log.toList)
    (isOpen_eq : t.isOpen = false) : t.Settled :=
  ⟨h, fun _ hpast ↦ Event.starts_le (h.of_prefix hpast), starts_eq, isOpen_eq⟩

/-- What a run exchanges with a consumer, after a check of its input, workers and memory. -/
structure Pipeline.Exchanges (check : Except Failure Unit) (events : List Event) : Prop where
  /-- The consumer is asked to start at most once. -/
  openings_le : events.countP Event.isOpening ≤ 1
  /-- It is not asked at all if the check fails. -/
  eq_nil : ∀ e, check = .error e → events = []
  /-- It has started before it is called. -/
  exists_start : ∀ past call failure, past ++ [.called call failure] <+: events →
    ∃ workers pixels, .opened workers pixels none ∈ past
  /-- It is not called if it will not start. -/
  not_isCall : ∀ workers pixels reason, .opened workers pixels (some reason) ∈ events →
    ∀ event ∈ events, ¬event.isCall
  /-- It is released as often as it started. -/
  starts_eq : Event.starts events = Event.releases events

theorem Pipeline.exchanges_nil (check : Except Failure Unit) : Exchanges check [] := by
  refine ⟨Nat.zero_le _, fun _ _ ↦ rfl, ?_, ?_, rfl⟩
  · intro past call failure hpast
    simp at hpast
  · intro workers pixels reason hmem
    cases hmem

/-- One session is all that is exchanged after it has passed. -/
theorem Pipeline.exchanges_of_session {events : List Event} (h : Event.Session events) :
    Exchanges (.ok ()) events := by
  obtain ⟨hturn, hclosed⟩ := h.inTurn_append inTurn_nil rfl
  rw [List.nil_append] at hturn hclosed
  refine ⟨h.openings_eq.le, nofun, ?_, ?_, hclosed⟩
  · intro past call failure hpast
    have hopen : Event.starts past = Event.releases past + 1 := hturn _ _ hpast
    obtain ⟨event, hmem, hstart⟩ : ∃ event ∈ past, event.isStart :=
      List.countP_pos_iff.1 (by unfold Event.starts at hopen; omega)
    cases event with
    | opened workers pixels refusal =>
      cases refusal with
      | none => exact ⟨workers, pixels, hmem⟩
      | some reason => cases hstart
    | _ => cases hstart
  · intro workers pixels reason hmem
    exact h.not_isCall_of_refused hmem

/-- A run leaves a sink that is done with its consumer, whatever it comes to. -/
theorem Pipeline.run_settles {p : Pipeline} {s : StreamSink} (hsink : p.sink = .stream s)
    (hs : s.Orderly) (buffers rows : Nat → Bool) (input : List Plane) (runner : Runner) :
    ∃ t events, (p.runWithin buffers rows input runner).state = .stream t ∧
      t.log = s.release.log ++ events.toArray ∧ t.Settled ∧
      Exchanges (p.checkRun input runner.workers) events := by
  obtain ⟨t, events, hstate, hclosed, hlog, hevents⟩ := run_session hsink buffers rows input runner
  have hlist : t.log.toList = s.release.log.toList ++ events := by rw [hlog, Array.toList_append]
  refine ⟨t, events, hstate, hlog, ?_, ?_⟩
  · rcases hevents with ⟨-, rfl⟩ | ⟨-, hsession⟩
    · rw [List.append_nil] at hlist
      exact StreamSink.settled_of_inTurn (by rw [hlist]; exact hs.release.inTurn)
        (by rw [hlist]; exact hs.starts_close) hclosed
    · obtain ⟨hturn, hstarts⟩ := hsession.inTurn_append hs.release.inTurn hs.starts_close
      rw [← hlist] at hturn hstarts
      exact StreamSink.settled_of_inTurn hturn hstarts hclosed
  · rcases hevents with ⟨-, rfl⟩ | ⟨hcheck, hsession⟩
    · exact exchanges_nil _
    · rw [hcheck]
      exact exchanges_of_session hsession

/-- Whatever is asked of a new sink, be there memory or not, its consumer is opened and released in
turn, and released as often as it started once the sink is let go.  A row that the output has is
handed over if the sink was last got ready for the row's worker and did not fail, and otherwise
refused without a call, unless memory was refused then.  In that case the consumer is open, and a
row is handed over by each worker that was given its buffers when the sink last did get ready.  A
run with such a sink opens one session at most, and whatever it comes to, the session is over when
it returns. -/
theorem StreamSink.sessions_in_turn (options : StreamOptions) (consumer : Consumer)
    (acts : List StreamSink.Act) :
    let fresh : StreamSink := { options, consumer }
    let s := fresh.after acts
    s.release.Settled ∧
      (∀ input segment, segment.row < options.height →
        ((∃ n, fresh.Granted acts n ∧ segment.worker < n) →
          (s.receive input segment).failure ≠ some (.fault (.unprepared .stream))) ∧
        (¬fresh.Starved acts → (¬∃ n, fresh.Granted acts n ∧ segment.worker < n) →
          s.receive input segment = .faulted s (.unprepared .stream)) ∧
        (fresh.Starved acts →
          (segment.worker < fresh.staffed 0 acts →
            (s.receive input segment).failure ≠ some (.fault (.unprepared .stream))) ∧
          (fresh.staffed 0 acts ≤ segment.worker →
            s.receive input segment = .faulted s (.unprepared .stream)))) ∧
      ∀ (p : Pipeline) buffers rows input runner, p.sink = .stream s →
        ∃ t events, (p.runWithin buffers rows input runner).state = .stream t ∧
          t.log = s.release.log ++ events.toArray ∧ t.Settled ∧
          Pipeline.Exchanges (p.checkRun input runner.workers) events := by
  intro fresh s
  have horderly : s.Orderly := Orderly.after ⟨inTurn_nil, rfl⟩ acts
  refine ⟨settled_of_inTurn horderly.release.inTurn horderly.starts_close s.isOpen_release,
    fun input segment hrow ↦ ?_, fun p buffers rows input runner hsink ↦
      Pipeline.run_settles hsink horderly buffers rows input runner⟩
  have hopen : s.isOpen ↔ (∃ n, fresh.Granted acts n) ∨ fresh.Starved acts := isOpen_after_iff rfl
  have hsize : s.buffers.size = fresh.staffed 0 acts := size_buffers_after fresh acts
  have hheight : s.options.height = options.height :=
    congrArg StreamOptions.height (fresh.fixed_after acts).1
  have hadmits : s.Admits segment ↔ s.isOpen ∧ segment.worker < s.buffers.size := by
    rw [Admits, hheight]
    exact and_congr_right fun _ ↦ ⟨fun h ↦ h hrow, fun h _ ↦ h⟩
  have htakes : s.isOpen → segment.worker < s.buffers.size →
      (s.receive input segment).failure ≠ some (.fault (.unprepared .stream)) := fun h hworker heq ↦
    (receive_continues (hadmits.2 ⟨h, hworker⟩) input).2 _ heq rfl
  have hrefuses : ¬(s.isOpen ∧ segment.worker < s.buffers.size) →
      s.receive input segment = .faulted s (.unprepared .stream) := fun h ↦
    receive_of_not_admits (mt hadmits.1 h) input
  refine ⟨?_, fun fed hnot ↦ hrefuses ?_, fun starved ↦ ⟨fun hworker ↦ ?_, fun hworker ↦ ?_⟩⟩
  · rintro ⟨n, hgranted, hworker⟩
    have hopened : s.Opened n := opened_after hgranted
    exact htakes hopened.isOpen (hopened.size_buffers.symm ▸ hworker)
  · rintro ⟨h, hworker⟩
    obtain ⟨n, hgranted⟩ := (hopen.1 h).resolve_right fed
    have hopened : s.Opened n := opened_after hgranted
    exact hnot ⟨n, hgranted, hopened.size_buffers ▸ hworker⟩
  · exact htakes (hopen.2 (.inr starved)) (hsize.symm ▸ hworker)
  · exact hrefuses fun h ↦ absurd (hsize ▸ h.2) (Nat.not_lt_of_le hworker)

/-- A consumer that starts for two workers, and will not start again for one. -/
theorem StreamSink.sessions_in_turn_refused :
    let options : StreamOptions := { width := 1, height := 1, format := .rgba8 }
    let consumer : Consumer :=
      ⟨fun log _ ↦ if log.isEmpty then none else some "busy", fun _ _ ↦ none⟩
    let s := ({ options, consumer } : StreamSink).after [.prepare 2, .prepare 1]
    let b : Blueprint := ⟨List.replicate 3 (1, 1), [.sink (.stream s)], 1, {}⟩
    let input : List Plane := List.replicate 3 ⟨1, 1, 1, #[.one], by decide, by decide⟩
    s.release.Settled ∧
      s.receive ⟨#[], 0⟩ { length := 1 } = .faulted s (.unprepared .stream) ∧
      ∃ p, b.build.pipeline = .ok p ∧
        ∃ t events, (p.run input (.pool 2)).state = .stream t ∧
          t.log = s.release.log ++ events.toArray ∧ t.Settled ∧
          Pipeline.Exchanges (p.checkRun input 2) events := by
  intro options consumer s b input
  obtain ⟨hsettled, hrows, hruns⟩ := sessions_in_turn options consumer [.prepare 2, .prepare 1]
  have hclosed : s.isOpen = false := rfl
  refine ⟨hsettled, (hrows ⟨#[], 0⟩ { length := 1 } (by decide)).2.1 ?_ ?_, _, rfl, ?_⟩
  · intro starved
    rw [(isOpen_after_iff rfl).2 (.inr starved)] at hclosed
    cases hclosed
  · rintro ⟨n, hgranted, -⟩
    rw [(isOpen_after_iff rfl).2 (.inl ⟨n, hgranted⟩)] at hclosed
    cases hclosed
  · rw [← Pipeline.runWithin_true]
    exact hruns _ _ _ input (.pool 2) rfl

/-- Memory is refused when a sink is asked for the second time to get ready for a worker.  It fails,
and its consumer is open: a row that it is handed then is delivered from the old buffers. -/
theorem StreamSink.sessions_in_turn_starved :
    let options : StreamOptions := { width := 1, height := 1, format := .gray8 }
    let fresh : StreamSink := { options, consumer := .willing }
    let acts : List Act := [.prepare 1, .prepareWithin (fun _ ↦ false) 1]
    let s := fresh.after acts
    fresh.Ended acts 1 (some (.fault (.outOfMemory .staging 4096))) ∧
      (¬∃ n, fresh.Granted acts n) ∧
      ∃ after call, s.receive ⟨#[some #[.one]], 0⟩ { length := 1 } = .done after ∧
        after.log = s.log.push (.called call none) := by
  intro options fresh acts s
  have hended : fresh.Ended acts 1 (some (.fault (.outOfMemory .staging 4096))) :=
    ⟨[.prepare 1], fun _ ↦ false, [], rfl, by simp, rfl⟩
  have hopened : s.Opened 1 := by
    refine ⟨rfl, rfl, fun staging hmem ↦ ?_⟩
    rw [Array.eq_of_mem_replicate (show staging ∈ Array.replicate 1 (.forFormat .gray8) from hmem)]
    exact hasRoom_forFormat options
  refine ⟨hended, ?_, ?_⟩
  · rintro ⟨n, hgranted⟩
    have hlast : fresh.Ended ([.prepare 1] ++ [.prepareWithin (fun _ ↦ false) 1]) n none := hgranted
    rcases ended_concat_iff.1 hlast with
      ⟨granted, hact, hnone⟩ | ⟨hrow, -⟩
    · cases hact
      cases hnone
    · cases hrow
  · -- The row is one run of one pixel, which makes one call.
    obtain ⟨call, hcall⟩ : ∃ call,
        StreamOptions.stepCalls { width := 1, height := 1, format := .gray8 } 0
          (Rows.strip ⟨#[some #[.one]], 0⟩ 0) (Segment.span { length := 1 }) = [call] := ⟨_, rfl⟩
    have hoptions : s.options = options := (fresh.fixed_after acts).1
    have hcovers : Rows.Covers ⟨#[some #[.one]], 0⟩ { length := 1 }
        fun c ↦ (options.mode c).reads :=
      Rows.covers_replicate (n := 1) (fun _ hc ↦ StreamOptions.lt_channelsNeeded hc) (by decide)
        (by decide)
    have never : ∀ log call, s.consumer.failure log call = none := fun _ _ ↦ rfl
    clear_value s
    rw [← hoptions] at hcovers
    obtain ⟨buffers, -, hreceive⟩ := receive_eq_offers hopened hcovers.shows Nat.one_pos
      (by decide) fun batch hbatch ↦ by
        have hreach : batch.start + batch.length ≤ 1 := (within_of_mem_batches hbatch).2.1
        have hbound : 1 < Size.bound := by decide
        show 0 + batch.start < Size.bound
        omega
    rw [show s.options.stepCalls _ _ _ = [call] by rw [hoptions]; exact hcall,
      each_offer_of_failure (failure_each_offer_eq_none (s := { s with buffers }) never _)]
      at hreceive
    exact ⟨_, call, hreceive, Array.ext' (by simp)⟩

end Scanline
