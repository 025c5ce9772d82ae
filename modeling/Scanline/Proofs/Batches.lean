import Scanline.Proofs.Pixels
import Scanline.Proofs.Sessions

/-!
# Batches of a window

A stream sink that was got ready may be handed windows of any rows and columns.  The columns that
the frame and the output have of a window are cut into batches (`Batch.Cuts`), and each batch is
handed over with the calls that deliver its pixels (`StreamOptions.HandsOver`).

Main statement: whatever was asked of a sink before, as long as it was got ready for the worker of a
window, that is what becomes of the window, and nothing is handed over of a window beside the output
(`StreamSink.receive_hands_over`).  Only the end of the window and the places of its batches in the
rows must be sizes.
-/

namespace Scanline

/-! ## Batches and their calls -/

/-- Batches of the columns `[first, stop)`: one after another from the first on, all of them full
except the last. -/
structure Batch.Cuts (batches : List Batch) (first stop : Nat) : Prop where
  /-- They have the columns, each once and in order. -/
  columns_eq : (batches.flatMap fun batch ↦ List.range' batch.start batch.length) =
    List.range' first (stop - first)
  /-- None is empty or too long. -/
  bounds : ∀ batch ∈ batches, 1 ≤ batch.length ∧ batch.length ≤ runLimit
  /-- Only the last may have fewer columns than are handed over at once. -/
  full : ∀ batch ∈ batches.dropLast, batch.length = runLimit

/-- Calls that hand over one batch of a row of a strip. -/
structure StreamOptions.HandsOver (o : StreamOptions) (worker row : Nat) (strip : Strip)
    (batch : Batch) (calls : List Call) : Prop where
  /-- They are made by the worker. -/
  worker_eq : ∀ call ∈ calls, call.worker = worker
  /-- Each has pixels, as many as it says, and a single one if the axes are exchanged. -/
  proper : ∀ call ∈ calls, o.Proper call
  /-- There is one, unless the axes are exchanged. -/
  length_eq : calls.length = if o.orientation.swapsAxes then batch.length else 1
  /-- They deliver the columns of the batch, in order or the other way round. -/
  delivered_eq : calls.flatMap (Call.delivered o.format.pixelSize) =
    (o.turnedColumns batch).map (o.placed strip row)

/-- A window whose end is a size, and each of whose batches has a place in the rows that is one. -/
structure StreamOptions.Locates (o : StreamOptions) (input : Rows) (segment : Segment) : Prop where
  /-- The end is a size. -/
  reach_lt : segment.reach < Size.bound
  /-- So is the place of the first pixel of every batch. -/
  place_lt : ∀ k, segment.first + k * runLimit < min segment.reach o.width →
    input.pad + (segment.first + k * runLimit) < Size.bound

/-- Batches that are handed over one after another deliver each pixel once. -/
theorem Batch.Cuts.delivered_perm {batches : List Batch} {first stop : Nat}
    (cuts : Cuts batches first stop) {o : StreamOptions} {worker row : Nat} {strip : Strip}
    {callsOf : Batch → List Call}
    (hands : ∀ batch ∈ batches, o.HandsOver worker row strip batch (callsOf batch)) :
    ((batches.flatMap callsOf).flatMap (Call.delivered o.format.pixelSize)).Perm
      ((List.range' first (stop - first)).map (o.placed strip row)) := by
  rw [← cuts.columns_eq, List.flatMap_assoc, List.map_flatMap]
  refine List.Perm.flatMap_left _ fun batch hmem ↦ ?_
  rw [(hands batch hmem).delivered_eq]
  exact (o.turnedColumns_perm batch).map _

namespace StreamSink

theorem length_batchAt {first stop k : Nat} (h : k + 1 < batchCount first stop) :
    (batchAt first stop k).length = runLimit := by
  unfold batchCount runLimit at h
  simp only [batchAt, runLimit]
  omega

/-- Columns that are cut up are cut into batches. -/
theorem cuts_batches (first stop : Nat) : Batch.Cuts (batches first stop) first stop where
  columns_eq := by
    rw [batches, List.flatMap_map]
    exact StreamOptions.flatMap_batchAt first stop
  bounds := fun _ hmem ↦ (bounds_of_mem_batches hmem).2.2
  full := by
    intro batch hmem
    rw [batches] at hmem
    cases hcount : batchCount first stop with
    | zero =>
      rw [hcount] at hmem
      cases hmem
    | succ count =>
      rw [hcount, List.range_succ, List.map_append, List.map_singleton, List.dropLast_concat]
        at hmem
      obtain ⟨k, hk, rfl⟩ := List.mem_map.1 hmem
      have hlt := List.mem_range.1 hk
      exact length_batchAt (by omega)

end StreamSink

/-- The calls of a batch hand it over. -/
theorem StreamOptions.handsOver_batchCalls (o : StreamOptions) (lawful : o.coder.Lawful)
    (worker row : Nat) (strip : Strip) {batch : Batch} (hpos : 1 ≤ batch.length)
    (hle : batch.length ≤ runLimit) (inside : batch.start + batch.length ≤ o.width) :
    o.HandsOver worker row strip batch (o.batchCalls worker row strip batch) where
  worker_eq := by
    intro call hcall
    unfold batchCalls calls at hcall
    cases hswap : o.orientation.swapsAxes with
    | true =>
      rw [hswap, if_pos rfl] at hcall
      obtain ⟨j, -, rfl⟩ := List.mem_map.1 hcall
      rfl
    | false =>
      rw [hswap, if_neg Bool.false_ne_true] at hcall
      rw [List.mem_singleton.1 hcall]
  proper := fun _ hcall ↦ o.proper_of_mem_batchCalls lawful hpos hle hcall
  length_eq := by
    unfold batchCalls calls
    cases hswap : o.orientation.swapsAxes with
    | true => rw [if_pos rfl, if_pos rfl, List.length_map, List.length_range]
    | false => rfl
  delivered_eq := o.delivered_batchCalls lawful worker row strip inside

namespace StreamSink

variable {s : StreamSink} {n : Nat}

/-! ## Windows whose numbers are no sizes -/

variable {input : Rows} {strip : Strip} {segment : Segment}

/-- A window that has a row of the output, and whose end is no size, is misused. -/
theorem receive_of_bound_le (hopen : s.Opened n)
    (shown : input.Shows strip segment fun c ↦ (s.options.mode c).reads)
    (hworker : segment.worker < n) (hrow : segment.row < s.options.height)
    (hend : Size.bound ≤ segment.reach) : s.receive input segment = .misused s .overflow := by
  simp only [receive, if_pos hopen.isOpen, if_neg (Nat.not_le_of_lt hrow), hopen.size_buffers,
    if_neg (Nat.not_le_of_lt hworker), StreamOptions.bands_eq shown, columns_of_bound_le hend]

/-- Batches of which one has a place in the rows that is no size end there. -/
theorem failure_each_handOver (never : ∀ log call, s.consumer.failure log call = none)
    (hopen : s.Opened n) (shown : input.Shows strip segment fun c ↦ (s.options.mode c).reads)
    (hworker : segment.worker < n) {batches : List Batch}
    (inside : ∀ batch ∈ batches, segment.first ≤ batch.start ∧
      batch.start + batch.length ≤ segment.reach ∧ batch.length ≤ runLimit)
    (large : ∃ batch ∈ batches, Size.bound ≤ input.pad + batch.start) :
    (Outcome.each (handOver (s.options.bandsAt input) input.pad segment) batches s).failure =
      some (.misuse .overflow) := by
  induction batches generalizing s with
  | nil =>
    obtain ⟨batch, hmem, -⟩ := large
    cases hmem
  | cons batch rest ih =>
    obtain ⟨⟨hfirst, hreach, hlimit⟩, hinside⟩ := List.forall_mem_cons.1 inside
    rw [Outcome.each_cons]
    rcases Nat.lt_or_ge (input.pad + batch.start) Size.bound with hsmall | hlarge
    · -- A batch that has its place is handed over and leaves all that the others rely on.
      have hrest : ∃ other ∈ rest, Size.bound ≤ input.pad + other.start := by
        obtain ⟨other, hmem, hother⟩ := large
        rcases List.mem_cons.1 hmem with rfl | hmem
        · exact absurd hother (Nat.not_le_of_lt hsmall)
        · exact ⟨other, hmem, hother⟩
      obtain ⟨buffers, hopened, hover⟩ :=
        handOver_eq hopen shown hworker hsmall hfirst hreach hlimit
      rw [hover, each_offer_of_failure
        (failure_each_offer_eq_none (s := { s with buffers }) never _), Outcome.done_next]
      exact ih (s := { s with buffers, log := _ }) never (hopened.with_log _) shown hinside hrest
    · have hoffset : StreamOptions.offsetOf input.pad batch.start segment = .error .overflow := by
        rw [StreamOptions.offsetOf, Size.ofNat_of_le hlarge]
        rfl
      have hmisused : s.handOver (s.options.bandsAt input) input.pad segment batch =
          .misused s .overflow := by
        unfold handOver
        simp only [hoffset]
      rw [hmisused]
      rfl

/-! ## Windows in full -/

theorem forall_mem_batches_iff {first stop pad : Nat} :
    (∀ batch ∈ batches first stop, pad + batch.start < Size.bound) ↔
      ∀ k, first + k * runLimit < stop → pad + (first + k * runLimit) < Size.bound := by
  have hcount : ∀ k, k < batchCount first stop ↔ first + k * runLimit < stop := by
    intro k
    unfold batchCount runLimit
    omega
  unfold batches
  rw [List.forall_mem_map]
  simp only [List.mem_range, hcount]
  rfl

theorem batches_of_le {first stop : Nat} (h : stop ≤ first) : batches first stop = [] := by
  have hcount : batchCount first stop = 0 := by
    unfold batchCount runLimit
    omega
  rw [batches, hcount]
  rfl

section Open

variable (hopen : s.Opened n)
  (shown : input.Shows strip segment fun c ↦ (s.options.mode c).reads)
  (hworker : segment.worker < n)
include hopen shown hworker

/-- Nothing is handed over of columns right of the output. -/
theorem state_receive_of_width_le (right : s.options.width ≤ segment.first) :
    (s.receive input segment).state = s := by
  rcases Nat.lt_or_ge segment.row s.options.height with hrow | hrow
  · rcases Nat.lt_or_ge segment.reach Size.bound with hsmall | hlarge
    · rw [receive_eq_each hopen shown hworker hrow hsmall, batches_of_le (by omega)]
      rfl
    · rw [receive_of_bound_le hopen shown hworker hrow hlarge]
      rfl
  · rw [receive_of_height_le hopen hrow]
    rfl

/-- A window is handed over batch by batch. -/
theorem receive_of_locates (lawful : s.options.coder.Lawful)
    (never : ∀ log call, s.consumer.failure log call = none)
    (hrow : segment.row < s.options.height) (locates : s.options.Locates input segment) :
    let parts := batches segment.first (min segment.reach s.options.width)
    ∃ after callsOf, s.receive input segment = .done after ∧
      after.log = s.log ++
        ((parts.flatMap callsOf).map fun call ↦ Event.called call none).toArray ∧
      ∀ batch ∈ parts,
        s.options.HandsOver segment.worker segment.row strip batch (callsOf batch) := by
  intro parts
  obtain ⟨buffers, -, hover⟩ := each_handOver_eq hopen shown hworker
    (forall_mem_batches_iff.2 locates.place_lt) fun _ ↦ within_of_mem_batches
  rw [receive_eq_each hopen shown hworker hrow locates.reach_lt, hover,
    each_offer_of_failure (failure_each_offer_eq_none (s := { s with buffers }) never _)]
  refine ⟨_, _, rfl, rfl, fun batch hmem ↦ ?_⟩
  obtain ⟨-, hstop, hpos, hlimit⟩ := bounds_of_mem_batches hmem
  exact s.options.handsOver_batchCalls lawful _ _ _ hpos hlimit
    (Nat.le_trans hstop (Nat.min_le_right _ _))

/-- A window whose end, or the place of one of whose batches, is no size ends there. -/
theorem failure_receive_of_not_locates
    (never : ∀ log call, s.consumer.failure log call = none)
    (hrow : segment.row < s.options.height) (lost : ¬s.options.Locates input segment) :
    (s.receive input segment).failure = some (.misuse .overflow) := by
  rcases Nat.lt_or_ge segment.reach Size.bound with hsmall | hlarge
  · rw [receive_eq_each hopen shown hworker hrow hsmall]
    refine failure_each_handOver never hopen shown hworker (fun _ ↦ within_of_mem_batches) ?_
    by_contra hnone
    refine lost ⟨hsmall, forall_mem_batches_iff.1 fun batch hmem ↦ ?_⟩
    exact Nat.lt_of_not_le fun hlarge ↦ hnone ⟨batch, hmem, hlarge⟩
  · rw [receive_of_bound_le hopen shown hworker hrow hlarge]
    rfl

end Open

/-- A sink that was got ready, whatever it was handed since, hands over the columns that the frame
and the output have of a window: cut into batches from the first on, each pixel once, at the place
that the orientation gives it and with the bytes of the samples that the rows have of it.  Of a row
below the output, or of columns right of it, nothing is handed over. -/
theorem receive_hands_over (s : StreamSink) (lawful : s.options.coder.Lawful)
    (never : ∀ log call, s.consumer.failure log call = none) {acts : List Act} {n : Nat}
    (granted : s.Granted acts n) {input : Rows} {segment : Segment} (worker : segment.worker < n)
    (covers : input.Covers segment fun c ↦ (s.options.mode c).reads) :
    let t := s.after acts
    let stop := min segment.reach s.options.width
    let placed := s.options.placed (input.strip segment.column) segment.row
    (s.options.height ≤ segment.row → t.receive input segment = .done t) ∧
    (s.options.width ≤ segment.first → (t.receive input segment).state = t) ∧
    (segment.row < s.options.height → s.options.Locates input segment →
      ∃ after batches callsOf, t.receive input segment = .done after ∧
        after.log = t.log ++
          ((batches.flatMap callsOf).map fun call ↦ Event.called call none).toArray ∧
        Batch.Cuts batches segment.first stop ∧
        (∀ batch ∈ batches, s.options.HandsOver segment.worker segment.row
          (input.strip segment.column) batch (callsOf batch)) ∧
        ((batches.flatMap callsOf).flatMap (Call.delivered s.options.format.pixelSize)).Perm
          ((List.range' segment.first (stop - segment.first)).map placed)) ∧
    (segment.row < s.options.height → ¬s.options.Locates input segment →
      (t.receive input segment).failure = some (.misuse .overflow)) := by
  have hopen : (s.after acts).Opened n := opened_after granted
  obtain ⟨hoptions, hconsumer⟩ := s.fixed_after acts
  rw [← hoptions] at lawful covers ⊢
  rw [← hconsumer] at never
  have hshown := covers.shows
  refine ⟨fun hbelow ↦ receive_of_height_le hopen hbelow input,
    state_receive_of_width_le hopen hshown worker, fun hrow hlocates ↦ ?_,
    failure_receive_of_not_locates hopen hshown worker never⟩
  obtain ⟨after, callsOf, hover, hlog, hhands⟩ :=
    receive_of_locates hopen hshown worker lawful never hrow hlocates
  have hcuts := cuts_batches segment.first (min segment.reach (s.after acts).options.width)
  exact ⟨after, _, callsOf, hover, hlog, hcuts, hhands, hcuts.delivered_perm hhands⟩

/-- A window that sticks out of the output on either side, turned round, of a sink that has taken it
before. -/
theorem receive_hands_over_turned :
    let s : StreamSink :=
      ⟨{ width := 3, height := 2, format := .rgba8, alpha := some 3, dividesAlpha := true,
         orientation := .rotate180 }, .willing, false, #[], #[]⟩
    let input : Rows := ⟨Array.replicate 4 (some (Array.replicate 7 .one)), 1⟩
    let segment : Segment := { extra := 4, length := 2, row := 1 }
    let t := s.after [.prepare 1, .row input segment]
    ∃ (after : StreamSink) (calls : List Call), t.receive input segment = .done after ∧
      after.log = t.log ++ (calls.map fun call ↦ Event.called call none).toArray ∧
      (calls.flatMap (Call.delivered s.options.format.pixelSize)).Perm
        ([0, 1, 2].map (s.options.placed (input.strip 0) 1)) := by
  intro s input segment t
  have hgranted : s.Granted [.prepare 1, .row input segment] 1 :=
    ⟨[], _, [.row input segment], rfl, by simp [Act.isRow], rfl⟩
  have hcovers : input.Covers segment fun c ↦ (s.options.mode c).reads :=
    Rows.covers_replicate (n := 4) (fun _ hc ↦ StreamOptions.lt_channelsNeeded hc) (by decide)
      (by decide)
  have hlocates : s.options.Locates input segment :=
    ⟨by decide, fun k hk ↦ Nat.lt_trans (Nat.add_lt_add_left hk 1) (by decide)⟩
  obtain ⟨after, batches, callsOf, hover, hlog, -, -, hperm⟩ :=
    (s.receive_hands_over Coder.lawful_standard (fun _ _ ↦ rfl) hgranted (by decide)
      hcovers).2.2.1 (by decide) hlocates
  exact ⟨after, _, hover, hlog, hperm⟩

/-- A window whose end is no size is not handed over, though the output has a column of it. -/
theorem receive_hands_over_beyond_sizes :
    let s : StreamSink :=
      ⟨{ width := 18446744073709551615, height := 1, format := .gray8 }, .willing, false, #[], #[]⟩
    let input : Rows := ⟨#[some #[.one, .one]], 0⟩
    let segment : Segment := { length := 2, column := 18446744073709551614 }
    let t := s.after [.prepare 1]
    s.Granted [.prepare 1] 1 ∧ (input.Covers segment fun c ↦ (s.options.mode c).reads) ∧
      segment.first < min segment.reach s.options.width ∧
      t.receive input segment = .misused t .overflow := by
  intro s input segment t
  have hcovers : input.Covers segment fun c ↦ (s.options.mode c).reads :=
    Rows.covers_replicate (n := 1) (fun _ hc ↦ StreamOptions.lt_channelsNeeded hc) (by decide)
      (by decide)
  exact ⟨⟨[], _, [], rfl, by simp, rfl⟩, hcovers, by decide, rfl⟩

end StreamSink

end Scanline
