import Scanline.Proofs.Buffers

/-!
# Segments that fit a packed buffer

A packed sink needs no width to be handed segments: whether one fits its row is decided segment by
segment (`PackedSink.receive_stores`).  What fits is written as a whole, and what does not is
refused before anything is written.

For a width the same is decided once.  A buffer that is accepted takes every segment within the
width, and a buffer is accepted exactly if the last row, placed behind full strides, ends within it
(`PackedSink.accept_exact`).
-/

namespace Scanline

namespace PackedSink

variable {s : PackedSink} {segment : Segment}

/-! ## One segment -/

/-- A buffer that holds the pixels of a segment on top of what it held before. -/
structure Stores (base after : PackedSink) (strip : Strip) (segment : Segment) : Prop where
  /-- Nothing but bytes of the buffer changes. -/
  same : after = { base with buffer := after.buffer }
  /-- The buffer keeps its length. -/
  size_eq : after.buffer.size = base.buffer.size
  /-- The pixels of the segment have their bytes. -/
  stored : ∀ j < segment.length, ∀ k < base.pixelSize,
    after.buffer[segment.row * base.stride + (segment.column + j) * base.pixelSize + k]? =
      some (base.byteAt strip (segment.column + j : Nat) k)
  /-- What lies before and behind them is as it was, in this row and in all others. -/
  kept : ∀ i, (i < segment.row * base.stride + segment.column * base.pixelSize ∨
      segment.row * base.stride + base.stopOf segment ≤ i) →
    after.buffer[i]? = base.buffer[i]?

/-- A segment that fits its row is stored. -/
theorem stores_draw (lawful : s.coder.Lawful) (hrow : segment.row < s.height)
    (room : s.stopOf segment ≤ s.rowBytes segment.row) (strip : Strip) :
    s.Stores (s.draw strip segment.body) strip segment := by
  obtain ⟨buffer, hsize, hdraw⟩ := s.draw_eq strip segment.body
  have hstop : s.stopOf segment = segment.column * s.pixelSize + segment.length * s.pixelSize :=
    Nat.add_mul _ _ _
  have hpos : 0 < s.pixelSize := by rcases s.pixelSize_eq with h | h <;> omega
  refine ⟨by rw [hdraw], by rw [hdraw, hsize], fun j hj k hk ↦ ?_, fun i hi ↦ ?_⟩
  · have hbytes : 0 < segment.length * s.pixelSize := Nat.mul_pos (Nat.zero_lt_of_lt hj) hpos
    refine getElem?_draw_of_inside strip lawful hrow hj hk ?_
    change segment.row * s.stride + segment.column * s.pixelSize +
      segment.length * s.pixelSize ≤ s.buffer.size
    unfold rowBytes at room
    omega
  · refine getElem?_draw_of_outside strip ?_
    change i < segment.row * s.stride + segment.column * s.pixelSize ∨
      segment.row * s.stride + segment.column * s.pixelSize + segment.length * s.pixelSize ≤ i
    omega

theorem receive_of_height_le (h : s.height ≤ segment.row) (input : Rows) :
    s.receive input segment = .done s := if_pos h

/-- A segment that does not fit its row is refused, and misused if its end is no size. -/
theorem receive_of_rowBytes_lt (hrow : segment.row < s.height)
    (hlong : s.rowBytes segment.row < s.stopOf segment) (input : Rows) :
    s.receive input segment =
      if s.stopOf segment < Size.bound then .faulted s (.buffer .tooShort)
      else .misused s .overflow := by
  unfold stopOf at hlong ⊢
  rw [Nat.add_mul] at hlong ⊢
  simp only [receive, if_neg (Nat.not_le_of_lt hrow)]
  rcases Nat.lt_or_ge (segment.column * s.pixelSize + segment.length * s.pixelSize) Size.bound with
    hsmall | hlarge
  · simp only [Size.ofNat_of_lt hsmall, if_neg (Nat.not_le_of_lt hlong), if_pos hsmall]
  · simp only [Size.ofNat_of_le hlarge, if_neg (Nat.not_lt_of_le hlarge)]

/-- Rows that reach over a segment without extra samples in every channel that pixels are made
of. -/
def Feeds (s : PackedSink) (input : Rows) (segment : Segment) : Prop :=
  segment.extra = 0 ∧
    ∀ c, s.Uses c → ∃ row, input.row c = .ok row ∧ input.pad + segment.length ≤ row.size

theorem Feeds.covers {input : Rows} (h : s.Feeds input segment) : input.Covers segment s.Uses := by
  obtain ⟨hextra, hrows⟩ := h
  refine ⟨by omega, fun c hc ↦ ?_⟩
  obtain ⟨row, hget, hsize⟩ := hrows c hc
  exact ⟨row, hget, by omega⟩

/-- A segment is written as a whole if it fits its row, and not at all otherwise, whatever was
checked before.  Rows below the last one are skipped.  A segment that does not fit is too long for
its row as long as its end is a size. -/
theorem receive_stores (s : PackedSink) (lawful : s.coder.Lawful) (stride : s.stride < Size.bound)
    {input : Rows} {segment : Segment} (feeds : s.Feeds input segment) :
    (s.height ≤ segment.row → s.receive input segment = .done s) ∧
      (segment.row < s.height → s.rowBytes segment.row < s.stopOf segment →
        s.receive input segment =
          if s.stopOf segment < Size.bound then .faulted s (.buffer .tooShort)
          else .misused s .overflow) ∧
      (segment.row < s.height → s.stopOf segment ≤ s.rowBytes segment.row →
        ∃ after, s.receive input segment = .done after ∧
          s.Stores after (input.strip segment.column) segment) := by
  refine ⟨fun h ↦ receive_of_height_le h input, fun hrow hlong ↦
    receive_of_rowBytes_lt hrow hlong input, fun hrow room ↦ ?_⟩
  have hsmall : s.rowBytes segment.row ≤ s.stride := Nat.min_le_left _ _
  exact ⟨_, receive_eq_draw feeds.covers.shows fun _ ↦ ⟨by omega, room⟩,
    stores_draw lawful hrow room _⟩

/-- One pixel of a short last row, out of rows with a sample before it. -/
theorem receive_stores_last_pixel :
    let s : PackedSink := ⟨Array.replicate 13 7, 7, 2, false, none, .standard⟩
    let input : Rows := ⟨Array.replicate 3 (some #[.zero, .one]), 1⟩
    let segment : Segment := { length := 1, column := 1, row := 1 }
    ∃ after, s.receive input segment = .done after ∧
      s.Stores after (input.strip segment.column) segment := by
  intro s input segment
  have huses : ∀ c, s.Uses c → c < 3 := by
    rintro c (hc | ⟨hfour, -⟩)
    · exact hc
    · exact absurd hfour (by decide)
  have hcovers : input.Covers segment s.Uses :=
    Rows.covers_replicate huses (by decide) (by decide)
  exact (s.receive_stores Coder.lawful_standard (by decide) ⟨rfl, hcovers.exists_row⟩).2.2
    (by decide) (by decide)

/-- A pixel too far to the right is not refused as one that is too long, if its end is no size. -/
theorem receive_beyond_sizes :
    let input : Rows := ⟨Array.replicate 3 (some #[.one]), 0⟩
    let segment : Segment := { length := 1, column := 4611686018427387904 }
    ∃ s, ofBuffer (Array.replicate 4 0) 4 1 = .ok s ∧
      ({ s with fourBytes := true } : PackedSink).rowBytes 0 <
        ({ s with fourBytes := true } : PackedSink).stopOf segment ∧
      ({ s with fourBytes := true } : PackedSink).receive input segment =
        .misused { s with fourBytes := true } .overflow :=
  ⟨_, rfl, by decide, rfl⟩

/-! ## Every segment of a width -/

/-- The sink over a buffer for frames whose channels have the given sizes, or why there is none. -/
def accept (buffer : Array UInt8) (stride height : Nat) (fourBytes : Bool) (alpha : Option Nat)
    (coder : Coder) (sizes : List (Nat × Nat)) : Except Failure PackedSink :=
  match ofBuffer buffer stride height with
  | .error fault => .error (.fault (.buffer fault))
  | .ok s =>
    match { s with fourBytes, alpha, coder : PackedSink }.bind sizes with
    | ⟨s, none⟩ => .ok s
    | ⟨_, some failure⟩ => .error failure

end PackedSink

/-- What is wrong with a buffer of some bytes whose rows take `rowBytes` bytes each, and all of them
together `needed`. -/
def BufferFault.Blames (size stride rowBytes needed : Nat) : BufferFault → Prop
  | tooShort => size < needed
  | rowsOverlap => stride < rowBytes
  | badSize => Size.bound ≤ needed

namespace PackedSink

section Accept

variable {buffer : Array UInt8} {stride height width frameHeight : Nat} {fourBytes : Bool}
  {alpha : Option Nat} {coder : Coder} {rest : List (Nat × Nat)}

/-- All rows start within a buffer that is longer than the rows before the last. -/
theorem ofBuffer_eq (buffer : Array UInt8) (hstride : 1 ≤ stride) (hheight : 1 ≤ height) :
    ofBuffer buffer stride height =
      if buffer.size ≤ (height - 1) * stride then .error .tooShort
      else .ok { buffer, stride, height } := by
  have hrows : (buffer.size + stride - 1) / stride < height ↔
      buffer.size ≤ (height - 1) * stride := by
    have hall : height * stride = (height - 1) * stride + stride := by
      rw [← Nat.succ_mul, Nat.succ_eq_add_one, Nat.sub_add_cancel hheight]
    rw [Nat.div_lt_iff_lt_mul hstride]
    omega
  rw [ofBuffer, if_neg (Nat.ne_of_gt hstride)]
  simp only [hrows]

/-- A buffer is refused for what is wrong with it, or its rows fit. -/
theorem accept_cases (hheight : 1 ≤ height) (hwidth : 1 ≤ width) :
    let s : PackedSink := ⟨buffer, stride, height, fourBytes, alpha, coder⟩
    let rowBytes := width * s.pixelSize
    let needed := (height - 1) * stride + rowBytes
    (∃ fault : BufferFault, fault.Blames buffer.size stride rowBytes needed ∧
      accept buffer stride height fourBytes alpha coder ((width, frameHeight) :: rest) =
        .error (.fault (.buffer fault))) ∨
    s.Fits width ∧ 1 ≤ stride ∧
      accept buffer stride height fourBytes alpha coder ((width, frameHeight) :: rest) = .ok s := by
  intro s rowBytes needed
  have hpos : 0 < rowBytes :=
    Nat.mul_pos hwidth (by rcases s.pixelSize_eq with h | h <;> omega)
  unfold accept
  rcases Nat.eq_zero_or_pos stride with rfl | hstride
  · exact .inl ⟨.rowsOverlap, hpos, rfl⟩
  rw [ofBuffer_eq buffer hstride hheight]
  by_cases hshort : buffer.size ≤ (height - 1) * stride
  · rw [if_pos hshort]
    exact .inl ⟨.tooShort, Nat.lt_of_le_of_lt hshort (Nat.lt_add_of_pos_right hpos), rfl⟩
  rw [if_neg hshort]
  dsimp only
  cases hcheck : s.checkWidth width with
  | ok _ =>
    have hbind : s.bind ((width, frameHeight) :: rest) = .done s := by
      simp only [bind, List.head?_cons, Option.map_some, Option.getD_some, hcheck]
    rw [hbind]
    exact .inr ⟨hcheck, hstride, rfl⟩
  | error fault =>
    have hbind : s.bind ((width, frameHeight) :: rest) = .faulted s (.buffer fault) := by
      simp only [bind, List.head?_cons, Option.map_some, Option.getD_some, hcheck]
    rw [hbind]
    refine .inl ⟨fault, ?_, rfl⟩
    rw [s.checkWidth_eq hheight] at hcheck
    split_ifs at hcheck with hwide hoverlap hlarge hmissing <;> cases hcheck
    · exact Nat.le_trans hwide (Nat.le_add_left _ _)
    · exact hoverlap
    · exact hlarge
    · exact hmissing

/-- Segments of a width that fits are taken, in whatever order they come. -/
theorem Fits.each_receive {s : PackedSink} (fits : s.Fits width) {windows : List Window}
    (feeds : ∀ w ∈ windows, s.Feeds w.rows w.segment ∧
      w.segment.column + w.segment.length ≤ width) :
    ∃ after, Outcome.each (fun w t ↦ t.receive w.rows w.segment) windows s = .done after := by
  have hkeeps : (Outcome.each (fun w t ↦ t.receive w.rows w.segment) windows s).Keeps
      (fun t ↦ t.Fits width ∧ ∃ buffer, t = { s with buffer }) fun _ ↦ False := by
    refine Outcome.each_keeps ?_ ⟨fits, s.buffer, rfl⟩
    rintro w hw _ ⟨hfits, buffer, rfl⟩
    obtain ⟨hfeeds, hinside⟩ := feeds w hw
    have hshown : w.rows.Shows (w.rows.strip w.segment.column) w.segment
        ({ s with buffer } : PackedSink).Uses := hfeeds.covers.shows
    rw [receive_eq_draw hshown fun hrow ↦ hfits.room hinside hrow]
    obtain ⟨next, -, hdraw⟩ :=
      ({ s with buffer } : PackedSink).draw_eq (w.rows.strip w.segment.column) w.segment.body
    exact Outcome.keeps_done ⟨hfits.draw _ _, next, hdraw⟩
  refine ⟨_, Outcome.eq_done_of_failure (Option.eq_none_iff_forall_not_mem.2 fun e he ↦ ?_)⟩
  exact hkeeps.2 e he

/-- A buffer is accepted exactly if it has a stride, its rows do not overlap, and the last one,
which needs no gap behind it, ends within the buffer; in all other cases it is refused for something
that is wrong with it.  A buffer that is accepted takes every segment within the width, of any
row. -/
theorem accept_exact (buffer : Array UInt8) (stride : Nat) {height width : Nat} (frameHeight : Nat)
    (fourBytes : Bool) (alpha : Option Nat) (coder : Coder) (rest : List (Nat × Nat))
    (hlength : buffer.size < Size.bound) (hheight : 1 ≤ height) (hwidth : 1 ≤ width) :
    let accepted := accept buffer stride height fourBytes alpha coder ((width, frameHeight) :: rest)
    let rowBytes := width * if fourBytes then 4 else 3
    let needed := (height - 1) * stride + rowBytes
    ((∃ s, accepted = .ok s) ↔ 1 ≤ stride ∧ rowBytes ≤ stride ∧ needed ≤ buffer.size) ∧
      (∀ e, accepted = .error e → ∃ fault : BufferFault,
        e = .fault (.buffer fault) ∧ fault.Blames buffer.size stride rowBytes needed) ∧
      ∀ s, accepted = .ok s → ∀ windows : List Window,
        (∀ w ∈ windows, s.Feeds w.rows w.segment ∧
          w.segment.column + w.segment.length ≤ width) →
        ∃ after, Outcome.each (fun w t ↦ t.receive w.rows w.segment) windows s = .done after := by
  intro accepted rowBytes needed
  obtain ⟨fault, hblames, haccepted⟩ | ⟨hfits, hstride, haccepted⟩ :
      (∃ fault : BufferFault, fault.Blames buffer.size stride rowBytes needed ∧
        accepted = .error (.fault (.buffer fault))) ∨
      (⟨buffer, stride, height, fourBytes, alpha, coder⟩ : PackedSink).Fits width ∧ 1 ≤ stride ∧
        accepted = .ok ⟨buffer, stride, height, fourBytes, alpha, coder⟩ :=
    accept_cases hheight hwidth
  · refine ⟨iff_of_false ?_ ?_, fun e he ↦ ⟨fault, ?_, hblames⟩, fun s hs ↦ ?_⟩
    · rintro ⟨s, hs⟩
      cases hs.symm.trans haccepted
    · rintro ⟨-, hstride, hneeded⟩
      cases fault with
      | tooShort => exact Nat.not_lt_of_le hneeded hblames
      | rowsOverlap => exact Nat.not_lt_of_le hstride hblames
      | badSize => exact Nat.not_lt_of_le (Nat.le_trans hblames hneeded) hlength
    · exact Except.error.inj (he.symm.trans haccepted)
    · cases hs.symm.trans haccepted
  · have hroom := (fits_iff hheight).1 hfits
    refine ⟨iff_of_true ⟨_, haccepted⟩ ⟨hstride, hroom.2.1, hroom.2.2⟩, fun e he ↦ ?_,
      fun s hs windows feeds ↦ ?_⟩
    · cases he.symm.trans haccepted
    · obtain rfl := Except.ok.inj (hs.symm.trans haccepted)
      exact hfits.each_receive feeds

/-- Rows of two pixels with a gap of a byte: thirteen bytes are enough for two of them, and then the
last row is taken as a whole; twelve bytes are not. -/
theorem accept_exact_thirteen :
    let input : Rows := ⟨Array.replicate 3 (some #[.zero, .one]), 0⟩
    (∃ s after, accept (Array.replicate 13 0) 7 2 false none .standard [(2, 2)] = .ok s ∧
        s.receive input { length := 2, row := 1 } = .done after) ∧
      ¬∃ s, accept (Array.replicate 12 0) 7 2 false none .standard [(2, 2)] = .ok s := by
  intro input
  have accepted : accept (Array.replicate 13 0) 7 2 false none .standard [(2, 2)] =
    .ok ⟨Array.replicate 13 0, 7, 2, false, none, .standard⟩ := rfl
  have huses : ∀ c, PackedSink.Uses ⟨Array.replicate 13 0, 7, 2, false, none, .standard⟩ c →
      c < 3 := by
    rintro c (hc | ⟨hfour, -⟩)
    · exact hc
    · exact absurd hfour (by decide)
  have hcovers : input.Covers { length := 2, row := 1 } _ :=
    Rows.covers_replicate huses (by decide) (by decide)
  obtain ⟨after, hafter⟩ := (accept_exact (Array.replicate 13 0) 7 2 false none .standard []
    (by decide) (by decide) (by decide)).2.2 _ accepted [⟨input, { length := 2, row := 1 }⟩] (by
      intro w hw
      obtain rfl := List.mem_singleton.1 hw
      exact ⟨⟨rfl, hcovers.exists_row⟩, by decide⟩)
  rw [Outcome.each_cons] at hafter
  obtain ⟨next, hnext, -⟩ := Outcome.next_eq_done_iff.1 hafter
  refine ⟨⟨_, next, accepted, hnext⟩, fun haccepted ↦ ?_⟩
  have fits := (accept_exact (Array.replicate 12 0) 7 2 false none .standard []
    (by decide) (by decide) (by decide)).1.1 haccepted
  exact absurd fits.2.2 (by decide)

end Accept

end PackedSink

end Scanline
