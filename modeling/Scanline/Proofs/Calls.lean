import Mathlib.Tactic.ByContra
import Scanline.Proofs.Moves
import Scanline.Proofs.Windows
import Scanline.Sink.Stream

/-!
# What a stream sink hands over

A segment of a strip leaves a stream sink as a list of calls, `StreamOptions.stepCalls`, which
depends on the options of the sink, the strip and the step: neither on what a worker's buffers held
before nor on what was handed over earlier.  `StreamSink.receive_eq_offers` says that receiving a
segment is offering these calls one after another; all that it changes besides is the buffers of
the worker.  What else may become of a segment is said once, in `StreamSink.receive_cases`, and of a
run in `StreamSink.handOver_cases`.

A run of a strip is coded as `StreamOptions.stripBytes`: buffers that have room for a full run
(`StreamSink.Opened`) give back exactly what was coded last (`encode_eq`).
-/

namespace Scanline

/-! ## Offering calls -/

/-- A consumer that starts and takes whatever it is handed. -/
structure Consumer.TakesAll (c : Consumer) : Prop where
  /-- It never refuses to start. -/
  refusal_eq : ∀ log n, c.refusal log n = none
  /-- It never gives up. -/
  failure_eq : ∀ log call, c.failure log call = none

namespace StreamSink

/-- What becomes of the calls of a list does not depend on the workers' buffers. -/
theorem each_offer_buffers (calls : List Call) (s : StreamSink) (buffers : Array Staging) :
    Outcome.each offer calls { s with buffers } =
      (Outcome.each offer calls s).map fun t ↦ { t with buffers } := by
  symm
  refine Outcome.map_each_of_step (R := fun _ _ ↦ True) (fun call rest s _ ↦ ⟨?_, fun _ ↦ trivial⟩)
    trivial
  simp only [offer]
  split <;> rfl

theorem state_each_offer (calls : List Call) (s : StreamSink) :
    ∃ log, (Outcome.each offer calls s).state = { s with log } := by
  have hkeeps : (Outcome.each offer calls s).Keeps (fun t ↦ ∃ log, t = { s with log })
      fun _ ↦ True := by
    refine Outcome.each_keeps ?_ ⟨s.log, rfl⟩
    intro call _ t ht
    obtain ⟨log, rfl⟩ := ht
    simp only [offer]
    split
    · exact Outcome.keeps_failed ⟨_, rfl⟩ trivial
    · exact Outcome.keeps_done ⟨_, rfl⟩
  exact hkeeps.1

theorem failure_each_offer {calls : List Call} {s : StreamSink} {e : Failure}
    (h : (Outcome.each offer calls s).failure = some e) :
    ∃ x y reason, e = .fault (.consumerFailed x y reason) := by
  have hkeeps : (Outcome.each offer calls s).Keeps (fun _ ↦ True)
      fun e ↦ ∃ x y reason, e = .fault (.consumerFailed x y reason) := by
    refine Outcome.each_keeps ?_ trivial
    intro call _ t _
    simp only [offer]
    split
    · exact Outcome.keeps_failed trivial ⟨_, _, _, rfl⟩
    · exact Outcome.keeps_done trivial
  exact hkeeps.2 e h

/-- Calls that were all taken are what the log gained. -/
theorem each_offer_of_failure {calls : List Call} {s : StreamSink}
    (h : (Outcome.each offer calls s).failure = none) :
    Outcome.each offer calls s =
      .done { s with log := s.log ++ (calls.map fun call ↦ .called call none).toArray } := by
  induction calls generalizing s with
  | nil => simp
  | cons call rest ih =>
    rw [Outcome.each_cons, Outcome.failure_next] at h
    obtain ⟨hcall, hrest⟩ := h
    have hoffer : s.offer call = .done { s with log := s.log.push (.called call none) } := by
      simp only [offer] at hcall ⊢
      split at hcall
      case h_1 => simp [Outcome.faulted, Outcome.failed] at hcall
      case h_2 hnone => simp only [hnone]
    rw [hoffer, Outcome.state_done] at hrest
    have hlog : ∀ (log : Array Event) (event : Event) (events : List Event),
        log.push event ++ events.toArray = log ++ (event :: events).toArray := fun _ _ _ ↦
      Array.ext' (by simp)
    rw [Outcome.each_cons, hoffer, Outcome.done_next, ih hrest, List.map_cons, hlog]

theorem failure_each_offer_eq_none {s : StreamSink}
    (never : ∀ log call, s.consumer.failure log call = none) (calls : List Call) :
    (Outcome.each offer calls s).failure = none := by
  induction calls generalizing s with
  | nil => rfl
  | cons call rest ih =>
    have hoffer : s.offer call = .done { s with log := s.log.push (.called call none) } := by
      simp only [offer, never]
    rw [Outcome.each_cons, hoffer, Outcome.done_next]
    exact ih never

/-- Activities that offer calls, apart from what they do to the workers' buffers, do so one after
another.  They may rely on what neither the log nor the calls touch. -/
theorem each_eq_offers {ι : Type} {f : ι → StreamSink → Outcome StreamSink}
    {calls : ι → List Call} {I : StreamSink → Prop} (hlog : ∀ s log, I s → I { s with log })
    {l : List ι} (hf : ∀ i ∈ l, ∀ s, I s → ∃ buffers, I { s with buffers } ∧
      f i s = Outcome.each offer (calls i) { s with buffers })
    {s : StreamSink} (hs : I s) :
    ∃ buffers, I { s with buffers } ∧
      Outcome.each f l s = Outcome.each offer (l.flatMap calls) { s with buffers } := by
  induction l generalizing s with
  | nil => exact ⟨s.buffers, hs, rfl⟩
  | cons i rest ih =>
    obtain ⟨first, hfirst, hstep⟩ := hf i List.mem_cons_self s hs
    obtain ⟨log, hstate⟩ := state_each_offer (calls i) { s with buffers := first }
    simp only [Outcome.each_cons, List.flatMap_cons, Outcome.each_append, hstep]
    cases hfailure : (Outcome.each offer (calls i) { s with buffers := first }).failure with
    | some e =>
      -- The chain ends here, so the buffers stay those of the first activity.
      refine ⟨first, hfirst, ?_⟩
      rw [Outcome.next_eq_self hfailure, Outcome.next_eq_self hfailure]
    | none =>
      have hdone := Outcome.eq_done_of_failure hfailure
      rw [hstate] at hdone
      obtain ⟨buffers, hbuffers, hrest⟩ :=
        ih (fun j hj ↦ hf j (List.mem_cons_of_mem _ hj)) (hlog _ log hfirst)
      have hagain := each_offer_buffers (calls i) { s with buffers := first } buffers
      rw [hdone, Outcome.map_done] at hagain
      refine ⟨buffers, hlog _ s.log hbuffers, ?_⟩
      rw [hdone, hagain, Outcome.done_next, Outcome.done_next]
      exact hrest

end StreamSink

/-! ## Coding a run -/

namespace StreamOptions

variable (o : StreamOptions)

/-- The rows that a run is gathered from, when a strip was handed over. -/
def bandsOf (strip : Strip) (start : Int) (length : Nat) : Bands :=
  { colors := (List.range o.format.colors).map fun c ↦ strip.run c start length
    alpha := o.alpha.map fun c ↦ strip.run c start length }

/-- The rows that a run is gathered from, when rows were handed over. -/
def bandsAt (input : Rows) : Bands :=
  ⟨(List.range o.format.colors).map input.rowAt, o.alpha.map input.rowAt⟩

/-- One sample of a pixel of a strip: a color, or alpha, which is one if there is none. -/
def sampleOf (strip : Strip) (x : Int) (channel : Nat) : Sample :=
  if channel < o.format.colors then strip channel x
  else
    match o.alpha with
    | some alpha => strip alpha x
    | none => .one

/-- The bytes of a run, as they are handed over. -/
def runBytes (b : Bands) (offset length : Nat) : Array UInt8 :=
  let samples := o.arrange b (o.gather b offset length)
  match o.format.sampleType with
  | .single => ((o.ordered samples).toList.flatMap Sample.bytes).toArray
  | .word | .half => ((o.wordsOf samples).toList.flatMap wordBytes).toArray
  | .byte => o.coder.toBytes samples

/-- The bytes of `length` pixels of a strip from column `x` on. -/
def stripBytes (strip : Strip) (x length : Nat) : Array UInt8 :=
  o.runBytes (o.bandsOf strip x length) 0 length

/-- The calls that hand over a run of a strip. -/
def batchCalls (worker row : Nat) (strip : Strip) (batch : Batch) : List Call :=
  o.calls worker row batch (o.stripBytes strip batch.start batch.length)

/-- The calls that hand over a step of a strip: one for each run of the columns that the output
has, or one for each of its pixels. -/
def stepCalls (worker : Nat) (strip : Strip) (step : Pipeline.Step) : List Call :=
  if o.height ≤ step.row then []
  else
    let stop := min (step.column + step.length) o.width
    (List.range (batchCount step.column stop)).flatMap fun k ↦
      o.batchCalls worker step.row strip (batchAt step.column stop k)

end StreamOptions

theorem length_byVectors {α : Type} {vector : List Sample → List α} {single : Sample → α}
    (h : ∀ l, (vector l).length = l.length) (samples : List Sample) :
    (byVectors vector single samples).length = samples.length := by
  fun_induction byVectors vector single samples with
  | case1 samples hfull ih =>
    rw [List.length_append, h, ih, ← List.length_append, List.take_append_drop]
  | case2 samples _ => rw [List.length_map]

namespace Coder

variable (coder : Coder) (row : Row)

@[simp] theorem size_codes {α : Type} (lane : VectorUnit → Sample → α) (one : Sample → α) :
    (coder.codes lane one row).size = row.size := by
  cases coder with
  | single => simp [codes]
  | vector unit => simp [codes, length_byVectors]

@[simp] theorem size_toBytes : (coder.toBytes row).size = row.size := size_codes coder row _ _

@[simp] theorem size_toWords : (coder.toWords row).size = row.size := size_codes coder row _ _

@[simp] theorem size_toHalves : (coder.toHalves row).size = row.size := Array.size_map

end Coder

namespace StreamOptions

variable (o : StreamOptions) (b : Bands)

@[simp] theorem size_gather (offset length : Nat) :
    (o.gather b offset length).size = length * o.format.channels := by simp [gather]

@[simp] theorem size_arrange (samples : Row) : (o.arrange b samples).size = samples.size := by
  unfold arrange reversePixels
  split_ifs <;> simp

@[simp] theorem size_ordered (samples : Row) : (o.ordered samples).size = samples.size := by
  unfold ordered
  split_ifs <;> simp

@[simp] theorem size_wordsOf (samples : Row) : (o.wordsOf samples).size = samples.size := by
  unfold wordsOf
  split_ifs <;> simp

/-- Buffers that have room keep it, and give back the bytes of the run. -/
theorem encode_eq {staging : Staging} {length : Nat} (room : o.hasRoom staging length)
    (offset : Nat) :
    (o.encode b offset length staging).2 = o.runBytes b offset length ∧
      ∀ n, o.hasRoom (o.encode b offset length staging).1 n = o.hasRoom staging n := by
  have hroom : length * o.format.channels ≤ staging.samples.size := by
    simp only [hasRoom, Bool.and_eq_true, decide_eq_true_eq] at room
    exact room.1
  have hgather : (overwrite staging.samples 0 (o.gather b offset length)).extract 0
      (length * o.format.channels) = o.gather b offset length :=
    extract_overwrite_zero (o.size_gather b offset length) hroom
  have hback : ∀ {α : Type} {target source : Array α}, source.size = length * o.format.channels →
      length * o.format.channels ≤ target.size →
        (overwrite target 0 source).extract 0 (length * o.format.channels) = source :=
    extract_overwrite_zero
  cases htype : o.format.sampleType with
  | single =>
    simp only [encode, runBytes, htype, hgather]
    rw [hback (by simp) (by simpa using hroom)]
    exact ⟨rfl, fun n ↦ by simp [hasRoom]⟩
  | word | half =>
    simp only [hasRoom, htype, Bool.and_eq_true, decide_eq_true_eq] at room
    simp only [encode, runBytes, htype, hgather]
    rw [hback (by simp) room.2]
    exact ⟨rfl, fun n ↦ by simp [hasRoom]⟩
  | byte =>
    simp only [hasRoom, htype, Bool.and_eq_true, decide_eq_true_eq] at room
    simp only [encode, runBytes, htype, hgather]
    rw [hback (by simp) room.2]
    exact ⟨rfl, fun n ↦ by simp [hasRoom]⟩

/-- A sample that is picked from rows that have those of a strip at one place. -/
theorem pixelSample_of_rows {strip : Strip} {x : Int} {row : Nat → Row} {offset : Nat}
    (hrow : ∀ c, (o.mode c).reads → (row c)[offset]? = some (strip c x)) (channel : Nat) :
    pixelSample ⟨(List.range o.format.colors).map row, o.alpha.map row⟩ offset channel =
      o.sampleOf strip x channel := by
  unfold pixelSample sampleOf
  split_ifs with hchannel
  · have hcolor : ((List.range o.format.colors).map row)[channel]? = some (row channel) := by
      simp [hchannel]
    simp only [hcolor, Option.some_or, hrow channel (by simp [mode, hchannel, Mode.reads]),
      Option.getD_some]
  · have hnone : ((List.range o.format.colors).map row)[channel]? = none :=
      List.getElem?_eq_none (by simpa using hchannel)
    cases halpha : o.alpha with
    | none => simp only [hnone, Option.map_none, Option.or_none]
    | some alpha =>
      simp only [hnone, Option.map_some, Option.none_or,
        hrow alpha (by simp [mode, halpha, Mode.reads]), Option.getD_some]

theorem channels_pos : 0 < o.format.channels := by
  unfold PixelFormat.channels
  cases o.format.layout <;> decide

theorem gather_of_rows {strip : Strip} {x : Int} {row : Nat → Row} {offset count : Nat}
    (hrow : ∀ c, (o.mode c).reads → ∀ j < count, (row c)[offset + j]? = some (strip c (x + j))) :
    o.gather ⟨(List.range o.format.colors).map row, o.alpha.map row⟩ offset count =
      Array.ofFn fun i : Fin (count * o.format.channels) ↦
        o.sampleOf strip (x + (i / o.format.channels : Nat)) (i % o.format.channels) := by
  refine congrArg Array.ofFn (funext fun i ↦ ?_)
  have hi : i / o.format.channels < count :=
    (Nat.div_lt_iff_lt_mul o.channels_pos).2 i.isLt
  exact o.pixelSample_of_rows (fun c hc ↦ hrow c hc _ hi) _

theorem gather_bandsOf (strip : Strip) (start : Int) (count : Nat) :
    o.gather (o.bandsOf strip start count) 0 count =
      Array.ofFn fun i : Fin (count * o.format.channels) ↦
        o.sampleOf strip (start + (i / o.format.channels : Nat)) (i % o.format.channels) := by
  refine o.gather_of_rows fun c _ j hj ↦ ?_
  rw [Nat.zero_add, Strip.getElem?_run, if_pos hj]

theorem divides_bandsOf (strip : Strip) (start : Int) (length : Nat) :
    o.divides (o.bandsOf strip start length) =
      (o.alpha.isSome && o.format.hasAlpha && o.dividesAlpha) := by
  simp [divides, bandsOf]

section Bands

variable {o} {input : Rows} {strip : Strip} {segment : Segment}
variable (shown : input.Shows strip segment fun c ↦ (o.mode c).reads)
include shown

/-- Runs are gathered from the rows that were handed over. -/
theorem bands_eq : o.bands input = .ok (o.bandsAt input) := by
  have hcolors : (List.range o.format.colors).mapM input.row =
      .ok ((List.range o.format.colors).map input.rowAt) :=
    mapM_eq_ok fun c hc ↦ shown.row_eq c (by simp [mode, List.mem_range.1 hc, Mode.reads])
  unfold bands bandsAt
  rw [hcolors]
  cases halpha : o.alpha with
  | none => rfl
  | some c =>
    simp only [shown.row_eq c (by simp [mode, halpha, Mode.reads])]
    rfl

variable {x count : Nat} (hfirst : segment.first ≤ x) (hreach : x + count ≤ segment.reach)
include hfirst hreach

/-- Rows that show a segment cover its columns. -/
theorem covers_bandsAt :
    o.covers (o.bandsAt input) (input.pad + x - segment.column) count = true := by
  have hrow : ∀ c, (o.mode c).reads →
      input.pad + x - segment.column + count ≤ (input.rowAt c).size := fun c hc ↦
    shown.place_le_size hc hfirst hreach
  unfold covers bandsAt
  apply List.all_eq_true.2
  intro row hmem
  rw [decide_eq_true_eq]
  rcases List.mem_append.1 hmem with hcolor | halpha
  · obtain ⟨c, hc, rfl⟩ := List.mem_map.1 hcolor
    exact hrow c (by simp [mode, List.mem_range.1 hc, Mode.reads])
  · split_ifs at halpha
    · obtain ⟨c, hc, rfl⟩ := Option.map_eq_some_iff.1 (Option.mem_toList.1 halpha)
      exact hrow c (by simp [mode, hc, Mode.reads])
    · simp at halpha

theorem gather_bandsAt :
    o.gather (o.bandsAt input) (input.pad + x - segment.column) count =
      o.gather (o.bandsOf strip x count) 0 count := by
  rw [gather_bandsOf]
  refine o.gather_of_rows fun c hc j hj ↦ ?_
  have hcolumn := shown.column_le
  have hplace : input.pad + x - segment.column + j = input.pad + (x + j) - segment.column := by
    omega
  rw [hplace, shown.getElem?_rowAt hc (by omega) (by omega), Nat.cast_add]

/-- A run of a strip may be coded from rows that reach further. -/
theorem runBytes_bandsAt :
    o.runBytes (o.bandsAt input) (input.pad + x - segment.column) count =
      o.stripBytes strip x count := by
  have hdivides : o.divides (o.bandsAt input) = o.divides (o.bandsOf strip x count) := by
    simp [divides, bandsAt, bandsOf]
  simp only [stripBytes, runBytes, arrange, hdivides, gather_bandsAt shown hfirst hreach]

end Bands

end StreamOptions

/-! ## Receiving -/

namespace StreamSink

/-- A sink whose consumer is open, and that has buffers for `n` workers, each with room for a full
run. -/
structure Opened (s : StreamSink) (n : Nat) : Prop where
  /-- Its consumer is open. -/
  isOpen : s.isOpen
  /-- Every worker has its buffers. -/
  size_buffers : s.buffers.size = n
  /-- They have room for a full run. -/
  hasRoom : ∀ staging ∈ s.buffers, s.options.hasRoom staging runLimit

theorem Opened.with_log {s : StreamSink} {n : Nat} (h : s.Opened n) (log : Array Event) :
    ({ s with log } : StreamSink).Opened n :=
  ⟨h.isOpen, h.size_buffers, h.hasRoom⟩

theorem hasRoom_of_le {o : StreamOptions} {staging : Staging}
    (h : o.hasRoom staging runLimit) {length : Nat} (hle : length ≤ runLimit) :
    o.hasRoom staging length := by
  have hmul : length * o.format.channels ≤ runLimit * o.format.channels :=
    Nat.mul_le_mul_right _ hle
  unfold StreamOptions.hasRoom at h ⊢
  simp only [Bool.and_eq_true, decide_eq_true_eq] at h ⊢
  refine ⟨by omega, ?_⟩
  cases htype : o.format.sampleType <;> simp only [htype, decide_eq_true_eq] at h ⊢ <;> omega

theorem hasRoom_forFormat (o : StreamOptions) :
    o.hasRoom (Staging.forFormat o.format) runLimit := by
  unfold StreamOptions.hasRoom Staging.forFormat Staging.wordCount Staging.byteCount
    Staging.sampleCount
  cases o.format.sampleType <;> simp

variable {s : StreamSink}

theorem Opened.hasRoom_getD {n worker : Nat} (h : s.Opened n) (hworker : worker < n) {length : Nat}
    (hlength : length ≤ runLimit) :
    s.options.hasRoom (s.buffers[worker]?.getD default) length := by
  have hsize := h.size_buffers
  rw [Array.getElem?_eq_getElem (by omega), Option.getD_some]
  exact hasRoom_of_le (h.hasRoom _ (Array.getElem_mem _)) hlength

/-- Coding a run in a worker's buffers keeps the room of all. -/
theorem Opened.set_encode {n : Nat} (h : s.Opened n) {worker : Nat} (hworker : worker < n)
    (b : StreamOptions.Bands) (offset : Nat) {length : Nat}
    (room : s.options.hasRoom (s.buffers[worker]?.getD default) length) :
    ({ s with buffers := s.buffers.setIfInBounds worker (s.options.encode b offset length
      (s.buffers[worker]?.getD default)).1 } : StreamSink).Opened n := by
  have hhas := h.hasRoom_getD hworker (Nat.le_refl runLimit)
  refine ⟨h.isOpen, by simpa using h.size_buffers, fun staging hmem ↦ ?_⟩
  rcases Array.mem_or_eq_of_mem_setIfInBounds hmem with hold | rfl
  · exact h.hasRoom staging hold
  · rwa [(s.options.encode_eq b room offset).2]

/-- A run is coded in the worker's buffers and its calls are offered, or it stops before that. -/
theorem handOver_cases (s : StreamSink) (b : StreamOptions.Bands) (pad : Nat) (segment : Segment)
    (batch : Batch) :
    (∃ misuse, (misuse = .overflow ∨ misuse = .outOfRange) ∧
      s.handOver b pad segment batch = .misused s misuse) ∨
    ∃ offset, StreamOptions.offsetOf pad batch.start segment = .ok offset ∧
      s.options.covers b offset batch.length ∧
      s.options.hasRoom (s.buffers[segment.worker]?.getD default) batch.length ∧
      let coded := s.options.encode b offset batch.length (s.buffers[segment.worker]?.getD default)
      s.handOver b pad segment batch =
        Outcome.each offer (s.options.calls segment.worker segment.row batch coded.2)
          { s with buffers := s.buffers.setIfInBounds segment.worker coded.1 } := by
  unfold handOver
  cases hoffset : StreamOptions.offsetOf pad batch.start segment with
  | error misuse =>
    obtain rfl : misuse = .overflow := by
      rcases bind_eq_error_iff.1 hoffset with hsum | ⟨_, -, hsub⟩
      · exact Size.eq_overflow_of_ofNat hsum
      · exact Size.eq_overflow_of_sub hsub
    exact .inl ⟨_, .inl rfl, rfl⟩
  | ok offset =>
    dsimp only
    split_ifs with hcovers hroom
    · exact .inr ⟨offset, rfl, hcovers, hroom, rfl⟩
    · exact .inl ⟨_, .inr rfl, rfl⟩
    · exact .inl ⟨_, .inr rfl, rfl⟩

/-- A sink that is open for its worker hands over a run as calls with the bytes of the run, whatever
the worker's buffers held, if the run has a place and its rows reach so far. -/
theorem handOver_of_opened {n : Nat} (hopen : s.Opened n) {segment : Segment}
    (hworker : segment.worker < n) {batch : Batch} (hlength : batch.length ≤ runLimit)
    (b : StreamOptions.Bands) (pad : Nat) :
    ∃ buffers, ({ s with buffers } : StreamSink).Opened n ∧
      s.handOver b pad segment batch =
        match StreamOptions.offsetOf pad batch.start segment with
        | .error misuse => .misused s misuse
        | .ok offset =>
          if s.options.covers b offset batch.length then
            .each offer (s.options.calls segment.worker segment.row batch
              (s.options.runBytes b offset batch.length)) { s with buffers }
          else .misused s .outOfRange := by
  have hhas := hopen.hasRoom_getD hworker hlength
  cases hoffset : StreamOptions.offsetOf pad batch.start segment with
  | error misuse => exact ⟨s.buffers, hopen, by rw [handOver, hoffset]⟩
  | ok offset =>
    refine ⟨_, hopen.set_encode hworker b offset hhas, ?_⟩
    simp only [handOver, hoffset, hhas, if_true, (s.options.encode_eq b hhas offset).1]

/-- One run is handed over as its calls. -/
theorem handOver_eq {n : Nat} (hopen : s.Opened n) {input : Rows} {strip : Strip}
    {segment : Segment} (shown : input.Shows strip segment fun c ↦ (s.options.mode c).reads)
    (hworker : segment.worker < n) {batch : Batch} (small : input.pad + batch.start < Size.bound)
    (hfirst : segment.first ≤ batch.start) (hreach : batch.start + batch.length ≤ segment.reach)
    (hlength : batch.length ≤ runLimit) :
    ∃ buffers, ({ s with buffers } : StreamSink).Opened n ∧
      s.handOver (s.options.bandsAt input) input.pad segment batch =
        Outcome.each offer (s.options.batchCalls segment.worker segment.row strip batch)
          { s with buffers } := by
  have hoffset : StreamOptions.offsetOf input.pad batch.start segment =
      .ok (input.pad + batch.start - segment.column) := by
    have hcolumn := shown.column_le
    rw [StreamOptions.offsetOf, Size.ofNat_of_lt small]
    exact Size.sub_eq_ok_iff.2 ⟨by omega, rfl⟩
  obtain ⟨buffers, hbuffers, hover⟩ :=
    handOver_of_opened hopen hworker hlength (s.options.bandsAt input) input.pad
  refine ⟨buffers, hbuffers, ?_⟩
  simp only [hover, hoffset, StreamOptions.covers_bandsAt shown hfirst hreach, if_true,
    StreamOptions.runBytes_bandsAt shown hfirst hreach]
  rfl

/-- Runs are handed over as their calls, one after another. -/
theorem each_handOver_eq {n : Nat} (hopen : s.Opened n) {input : Rows} {strip : Strip}
    {segment : Segment} (shown : input.Shows strip segment fun c ↦ (s.options.mode c).reads)
    (hworker : segment.worker < n) {batches : List Batch}
    (small : ∀ batch ∈ batches, input.pad + batch.start < Size.bound)
    (inside : ∀ batch ∈ batches, segment.first ≤ batch.start ∧
      batch.start + batch.length ≤ segment.reach ∧ batch.length ≤ runLimit) :
    ∃ buffers, ({ s with buffers } : StreamSink).Opened n ∧
      Outcome.each (handOver (s.options.bandsAt input) input.pad segment) batches s =
        Outcome.each offer
          (batches.flatMap (s.options.batchCalls segment.worker segment.row strip))
          { s with buffers } := by
  have hstep : ∀ batch ∈ batches, ∀ t : StreamSink, t.Opened n ∧ t.options = s.options →
      ∃ buffers, (({ t with buffers } : StreamSink).Opened n ∧ t.options = s.options) ∧
        t.handOver (s.options.bandsAt input) input.pad segment batch =
          Outcome.each offer (s.options.batchCalls segment.worker segment.row strip batch)
            { t with buffers } := by
    rintro batch hbatch t ⟨htopen, hoptions⟩
    obtain ⟨hfirst, hreach, hlimit⟩ := inside batch hbatch
    obtain ⟨buffers, hbuffers, hover⟩ := handOver_eq htopen (by rwa [hoptions]) hworker
      (small batch hbatch) hfirst hreach hlimit
    refine ⟨buffers, ⟨hbuffers, hoptions⟩, ?_⟩
    rw [← hoptions]
    exact hover
  obtain ⟨buffers, ⟨hafter, -⟩, hover⟩ :=
    each_eq_offers (fun _ log h ↦ ⟨h.1.with_log log, h.2⟩) hstep ⟨hopen, rfl⟩
  exact ⟨buffers, hafter, hover⟩

theorem batchAt_bounds {first stop k : Nat} (hk : k < batchCount first stop) :
    first ≤ (batchAt first stop k).start ∧
      (batchAt first stop k).start + (batchAt first stop k).length ≤ stop ∧
      1 ≤ (batchAt first stop k).length ∧ (batchAt first stop k).length ≤ runLimit := by
  unfold batchCount runLimit at hk
  simp only [batchAt, runLimit]
  omega

/-- The runs of the columns that are cut up. -/
def batches (first stop : Nat) : List Batch :=
  (List.range (batchCount first stop)).map (batchAt first stop)

theorem bounds_of_mem_batches {first stop : Nat} {batch : Batch} (h : batch ∈ batches first stop) :
    first ≤ batch.start ∧ batch.start + batch.length ≤ stop ∧
      1 ≤ batch.length ∧ batch.length ≤ runLimit := by
  obtain ⟨k, hk, rfl⟩ := List.mem_map.1 h
  exact batchAt_bounds (List.mem_range.1 hk)

theorem count_handOver_eq_each (b : StreamOptions.Bands) (pad : Nat) (segment : Segment)
    (first stop : Nat) (s : StreamSink) :
    Outcome.count (fun k ↦ handOver b pad segment (batchAt first stop k)) 0
        (batchCount first stop) s =
      Outcome.each (handOver b pad segment) (batches first stop) s := by
  rw [Outcome.count_eq_each, ← List.range_eq_range', batches, Outcome.each_map]

theorem within_of_mem_batches {first reach width : Nat} {batch : Batch}
    (h : batch ∈ batches first (min reach width)) :
    first ≤ batch.start ∧ batch.start + batch.length ≤ reach ∧ batch.length ≤ runLimit := by
  obtain ⟨hfirst, hstop, -, hlimit⟩ := bounds_of_mem_batches h
  exact ⟨hfirst, Nat.le_trans hstop (Nat.min_le_left _ _), hlimit⟩

/-- The columns to hand over, from the first that the frame has to the last that the output has. -/
theorem columns_eq {o : StreamOptions} {segment : Segment} (small : segment.reach < Size.bound) :
    o.columns segment = .ok (segment.first, min segment.reach o.width) := by
  have hfirst : segment.column - min segment.extra segment.column = segment.first := by
    unfold Segment.first
    omega
  simp only [StreamOptions.columns, Size.ofNat_of_lt small, hfirst]
  rfl

theorem columns_of_bound_le {o : StreamOptions} {segment : Segment}
    (large : Size.bound ≤ segment.reach) : o.columns segment = .error .overflow := by
  rw [StreamOptions.columns, Size.ofNat_of_le large]
  rfl

/-- A segment is refused by a sink that is not open or has no buffers for its worker, skipped below
the last row, or stopped by what it was handed over with; otherwise it is cut into runs. -/
theorem receive_cases (s : StreamSink) (input : Rows) (segment : Segment) :
    ((s.isOpen → segment.row < s.options.height ∧ s.buffers.size ≤ segment.worker) ∧
      s.receive input segment = .faulted s (.unprepared .stream)) ∨
    (s.isOpen ∧ s.options.height ≤ segment.row ∧ s.receive input segment = .done s) ∨
    s.isOpen ∧ segment.row < s.options.height ∧ segment.worker < s.buffers.size ∧
      ((∃ misuse, (s.options.bands input = .error misuse ∨ misuse = .overflow) ∧
          s.receive input segment = .misused s misuse) ∨
        ∃ b, s.options.bands input = .ok b ∧ segment.reach < Size.bound ∧
          s.receive input segment = Outcome.each (handOver b input.pad segment)
            (batches segment.first (min segment.reach s.options.width)) s) := by
  unfold receive
  split_ifs with hopen hrow hworker
  · exact .inr (.inl ⟨hopen, hrow, rfl⟩)
  · exact .inl ⟨fun _ ↦ ⟨Nat.lt_of_not_le hrow, hworker⟩, rfl⟩
  · refine .inr (.inr ⟨hopen, Nat.lt_of_not_le hrow, Nat.lt_of_not_le hworker, ?_⟩)
    cases hbands : s.options.bands input with
    | error misuse => exact .inl ⟨misuse, .inl rfl, rfl⟩
    | ok b =>
      rcases Nat.lt_or_ge segment.reach Size.bound with hsmall | hlarge
      · refine .inr ⟨b, rfl, hsmall, ?_⟩
        simp only [columns_eq hsmall, count_handOver_eq_each]
      · refine .inl ⟨.overflow, .inr rfl, ?_⟩
        simp only [columns_of_bound_le hlarge]
  · exact .inl ⟨fun h ↦ absurd h hopen, rfl⟩

theorem receive_of_closed (h : s.isOpen = false) (input : Rows) (segment : Segment) :
    s.receive input segment = .faulted s (.unprepared .stream) := by
  rw [receive, h, if_neg Bool.false_ne_true]

theorem receive_of_height_le {n : Nat} (hopen : s.Opened n) {segment : Segment}
    (h : s.options.height ≤ segment.row) (input : Rows) : s.receive input segment = .done s := by
  rw [receive, if_pos hopen.isOpen, if_pos h]

/-- A segment that is taken is cut into runs. -/
theorem receive_eq_each {n : Nat} (hopen : s.Opened n) {input : Rows} {strip : Strip}
    {segment : Segment} (shown : input.Shows strip segment fun c ↦ (s.options.mode c).reads)
    (hworker : segment.worker < n) (hrow : segment.row < s.options.height)
    (small : segment.reach < Size.bound) :
    s.receive input segment =
      Outcome.each (handOver (s.options.bandsAt input) input.pad segment)
        (batches segment.first (min segment.reach s.options.width)) s := by
  simp only [receive, if_pos hopen.isOpen, if_neg (Nat.not_le_of_lt hrow), hopen.size_buffers,
    if_neg (Nat.not_le_of_lt hworker), StreamOptions.bands_eq shown, columns_eq small,
    count_handOver_eq_each]

/-- A segment of a strip is handed over as its calls. -/
theorem receive_eq_offers {n : Nat} (hopen : s.Opened n) {input : Rows} {strip : Strip}
    {segment : Segment} (shown : input.Shows strip segment fun c ↦ (s.options.mode c).reads)
    (hworker : segment.worker < n) (small : segment.reach < Size.bound)
    (located : ∀ batch ∈ batches segment.first (min segment.reach s.options.width),
      input.pad + batch.start < Size.bound) :
    ∃ buffers, ({ s with buffers } : StreamSink).Opened n ∧
      s.receive input segment =
        Outcome.each offer (s.options.stepCalls segment.worker strip segment.span)
          { s with buffers } := by
  unfold StreamOptions.stepCalls
  rw [Segment.row_span]
  split_ifs with hheight
  · exact ⟨s.buffers, hopen, receive_of_height_le hopen hheight input⟩
  · obtain ⟨buffers, hafter, hover⟩ := each_handOver_eq hopen shown hworker located
      fun _ ↦ within_of_mem_batches
    refine ⟨buffers, hafter, ?_⟩
    rw [receive_eq_each hopen shown hworker (Nat.lt_of_not_le hheight) small, hover, batches,
      List.flatMap_map]
    simp only [Segment.column_span, Segment.first_add_length_span]

end StreamSink

end Scanline
