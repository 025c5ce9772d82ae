import Scanline.Proofs.Planes
import Scanline.Sink.Packed

/-!
# Rows of a packed buffer

Once rows of the frame's width fit (`PackedSink.Fits`), a segment that is handed over is written in
one piece, `PackedSink.rowBytesOf`: the vectors it is cut into adjoin (`each_writePiece`), and none
leaves the row (`le_rowBytes_of_fits`).  What is written depends on the options of the sink and not
on the buffer, so segments of different rows or columns may be written in either order
(`draw_comm`).
-/

namespace Scanline

@[simp] theorem size_interleave (bands : List (Array UInt8)) (count : Nat) :
    (interleave bands count).size = count * bands.length := by simp [interleave]

namespace PackedSink

variable (s : PackedSink)

theorem pixelSize_eq : s.pixelSize = 3 ∨ s.pixelSize = 4 := by
  unfold pixelSize
  split <;> simp

/-! ## Rows that fit -/

/-- A buffer whose rows take `width` pixels. -/
def Fits (width : Nat) : Prop := s.checkWidth width = .ok ()

/-- The rows together own what there is of the buffer up to the end of the last one. -/
theorem ownedBytes_eq : s.ownedBytes = min s.buffer.size (s.height * s.stride) := by
  have hrange : ∀ rows, ((List.range rows).map s.rowBytes).sum =
      min s.buffer.size (rows * s.stride) := by
    intro rows
    induction rows with
    | zero => simp
    | succ rows ih =>
      simp only [List.range_succ, List.map_append, List.sum_append, ih, List.map_cons,
        List.map_nil, List.sum_singleton, rowBytes, Nat.add_mul, Nat.one_mul]
      omega
  exact hrange s.height

/-- Bytes of rows that start apart from each other, if there is a row. -/
theorem spannedBytes_eq {rows : Nat} (h : 1 ≤ rows) (stride rowBytes : Nat) :
    spannedBytes rows stride rowBytes =
      if (rows - 1) * stride + rowBytes < Size.bound then .ok ((rows - 1) * stride + rowBytes)
      else .error .badSize := by
  have hspan : (Size.mul? (rows - 1) stride).bind (Size.add? · rowBytes) =
      if (rows - 1) * stride + rowBytes < Size.bound then some ((rows - 1) * stride + rowBytes)
      else none := by
    unfold Size.mul?
    split_ifs with hmul hsum hsum
    · rw [Option.bind_some, Size.add?, if_pos hsum]
    · rw [Option.bind_some, Size.add?, if_neg hsum]
    · omega
    · rfl
  rw [spannedBytes, if_neg (by omega), hspan]
  split_ifs <;> rfl

/-- The check of a width compares one number with the stride and another with the buffer, if there
is a row. -/
theorem checkWidth_eq (h : 1 ≤ s.height) (width : Nat) :
    s.checkWidth width =
      if Size.bound ≤ width * s.pixelSize then .error .badSize
      else if s.stride < width * s.pixelSize then .error .rowsOverlap
      else if Size.bound ≤ (s.height - 1) * s.stride + width * s.pixelSize then .error .badSize
      else if s.buffer.size < (s.height - 1) * s.stride + width * s.pixelSize then .error .tooShort
      else .ok () := by
  unfold checkWidth Size.mul?
  rcases Nat.lt_or_ge (width * s.pixelSize) Size.bound with hsmall | hlarge
  · rw [if_pos hsmall, if_neg (Nat.not_le_of_lt hsmall)]
    dsimp only
    rcases Nat.lt_or_ge s.stride (width * s.pixelSize) with hstride | hstride
    · rw [if_pos hstride, if_pos hstride]
    · rw [if_neg (Nat.not_lt_of_le hstride), if_neg (Nat.not_lt_of_le hstride), spannedBytes_eq h]
      rcases Nat.lt_or_ge ((s.height - 1) * s.stride + width * s.pixelSize) Size.bound with
        hspan | hspan
      · have hrows : s.height * s.stride = (s.height - 1) * s.stride + s.stride := by
          rw [← Nat.succ_mul, Nat.succ_eq_add_one, Nat.sub_add_cancel h]
        have howned : s.ownedBytes < (s.height - 1) * s.stride + width * s.pixelSize ↔
            s.buffer.size < (s.height - 1) * s.stride + width * s.pixelSize := by
          rw [ownedBytes_eq]
          omega
        rw [if_pos hspan, if_neg (Nat.not_le_of_lt hspan)]
        simp only [← howned]
        rfl
      · rw [if_neg (Nat.not_lt_of_le hspan), if_pos hspan]
        rfl
  · rw [if_neg (Nat.not_lt_of_le hlarge), if_pos hlarge]

/-- Rows of a width fit exactly if they do not overlap and the last one ends within the buffer. -/
theorem fits_iff {s : PackedSink} {width : Nat} (h : 1 ≤ s.height) : s.Fits width ↔
    (s.height - 1) * s.stride + width * s.pixelSize < Size.bound ∧
      width * s.pixelSize ≤ s.stride ∧
      (s.height - 1) * s.stride + width * s.pixelSize ≤ s.buffer.size := by
  rw [Fits, s.checkWidth_eq h]
  split_ifs <;> simp <;> omega

/-- Every row of a buffer that fits has room for all its pixels. -/
theorem le_rowBytes_of_fits {s : PackedSink} {width : Nat} (h : s.Fits width) {y : Nat}
    (hy : y < s.height) :
    width * s.pixelSize < Size.bound ∧ width * s.pixelSize ≤ s.rowBytes y := by
  obtain ⟨hbound, hstride, hlength⟩ := (fits_iff (Nat.one_le_of_lt hy)).1 h
  have hle : y * s.stride ≤ (s.height - 1) * s.stride := Nat.mul_le_mul_right _ (by omega)
  unfold rowBytes
  omega

/-! ## The bytes of a segment -/

/-- The bytes of `count` pixels of a strip from column `start` on. -/
def chunk (strip : Strip) (start : Int) (count : Nat) : Array UInt8 :=
  let colors := [0, 1, 2].map fun c ↦ s.coder.toBytes (strip.run c start count)
  let alpha := match s.alpha with
    | some c => s.coder.toBytes (strip.run c start count)
    | none => Array.replicate count 255
  interleave (if s.fourBytes then colors ++ [alpha] else colors) count

/-- The bytes of a step of a strip: those of its vectors, and of what is left. -/
def rowBytesOf (strip : Strip) (step : Pipeline.Step) : Array UInt8 :=
  ((List.range ((step.length + vectorWidth - 1) / vectorWidth)).flatMap fun k ↦
    (s.chunk strip (step.column + (k * vectorWidth : Nat))
      (min vectorWidth (step.length - k * vectorWidth))).toList).toArray

/-- Writes a step of a strip into the buffer. -/
def draw (strip : Strip) (step : Pipeline.Step) : PackedSink :=
  if s.height ≤ step.row then s
  else { s with
    buffer := overwrite s.buffer (step.row * s.stride + step.column * s.pixelSize)
      (s.rowBytesOf strip step) }

theorem draw_of_height_le {s : PackedSink} {step : Pipeline.Step} (h : s.height ≤ step.row)
    (strip : Strip) : s.draw strip step = s := if_pos h

@[simp] theorem height_draw (strip : Strip) (step : Pipeline.Step) :
    (s.draw strip step).height = s.height := by
  unfold draw
  split <;> rfl

@[simp] theorem size_chunk (strip : Strip) (start : Int) (count : Nat) :
    (s.chunk strip start count).size = count * s.pixelSize := by
  unfold chunk pixelSize
  cases s.fourBytes <;> simp

theorem length_flatMap_chunk (strip : Strip) (step : Pipeline.Step) (m : Nat) :
    ((List.range m).flatMap fun k ↦ (s.chunk strip (step.column + (k * vectorWidth : Nat))
      (min vectorWidth (step.length - k * vectorWidth))).toList).length =
      min (m * vectorWidth) step.length * s.pixelSize := by
  induction m with
  | zero => simp
  | succ m ih =>
    rw [List.range_succ, List.flatMap_append, List.length_append, ih, List.flatMap_singleton,
      Array.length_toList, size_chunk, ← Nat.add_mul]
    congr 1
    rw [Nat.add_mul, Nat.one_mul]
    omega

@[simp] theorem size_rowBytesOf (strip : Strip) (step : Pipeline.Step) :
    (s.rowBytesOf strip step).size = step.length * s.pixelSize := by
  rw [rowBytesOf, List.size_toArray, length_flatMap_chunk]
  congr 1
  simp only [vectorWidth]
  omega

theorem pieces_eq (start length : Nat) :
    s.pieces start (start + length * s.pixelSize) =
      (List.range ((length + vectorWidth - 1) / vectorWidth)).map fun k ↦
        (k * vectorWidth, min vectorWidth (length - k * vectorWidth) * s.pixelSize) := by
  have hcount : (length * s.pixelSize + vectorWidth * s.pixelSize - 1) /
      (vectorWidth * s.pixelSize) = (length + vectorWidth - 1) / vectorWidth := by
    rcases s.pixelSize_eq with h | h <;> rw [h] <;> simp only [vectorWidth] <;> omega
  simp only [pieces, Nat.add_sub_cancel_left, hcount]
  apply List.map_congr_left
  intro k _
  rw [← Nat.mul_min_mul_right, Nat.sub_mul, Nat.mul_assoc]

/-- The channels that pixels are made of. -/
def Uses (c : Nat) : Prop := c < 3 ∨ s.fourBytes ∧ s.alpha = some c

theorem reads_of_uses {s : PackedSink} {c : Nat} (h : s.Uses c) : (s.mode c).reads := by
  rcases h with h | ⟨-, h⟩ <;> simp [mode, h, Mode.reads]

/-- The rows that pixels are made of. -/
def bandsAt (input : Rows) : Bands :=
  ⟨[0, 1, 2].map input.rowAt, if s.fourBytes then s.alpha.map input.rowAt else none⟩

section Bands

variable {s : PackedSink} {input : Rows} {strip : Strip} {segment : Segment}
variable (shown : input.Shows strip segment s.Uses)
include shown

theorem bands_eq : s.bands input = .ok (s.bandsAt input) := by
  have hcolor : ∀ c < 3, input.row c = .ok (input.rowAt c) := fun c hc ↦
    shown.row_eq c (.inl hc)
  unfold bands bandsAt
  rw [hcolor 0 (by omega), hcolor 1 (by omega), hcolor 2 (by omega)]
  cases halpha : s.alpha with
  | none => cases s.fourBytes <;> rfl
  | some c =>
    cases hfour : s.fourBytes with
    | false => rfl
    | true =>
      simp only [shown.row_eq c (.inr ⟨hfour, halpha⟩)]
      rfl

/-- The bytes of pixels that are cut from rows of a strip. -/
theorem pixelBytes_eq {x count : Nat} (hfirst : segment.first ≤ x)
    (hreach : x + count ≤ segment.reach) :
    s.pixelBytes (s.bandsAt input) (input.pad + x - segment.column) count =
      .ok (s.chunk strip x count) := by
  have hslice : ∀ c, s.Uses c →
      (input.rowAt c).slice (input.pad + x - segment.column) count = .ok (strip.run c x count) :=
    fun c hc ↦ shown.slice_eq hc hfirst hreach
  have hcolors : ((s.bandsAt input).colors.mapM fun row ↦
      do return s.coder.toBytes (← row.slice (input.pad + x - segment.column) count) :
        Except Misuse _) = .ok ([0, 1, 2].map fun c ↦ s.coder.toBytes (strip.run c x count)) := by
    simp only [bandsAt, List.map_cons, List.map_nil, List.mapM_cons, List.mapM_nil,
      hslice 0 (.inl (by omega)), hslice 1 (.inl (by omega)), hslice 2 (.inl (by omega))]
    rfl
  unfold pixelBytes chunk
  rw [hcolors]
  unfold bandsAt
  cases hfour : s.fourBytes with
  | false => rfl
  | true =>
    cases halpha : s.alpha with
    | none => rfl
    | some c =>
      simp only [if_true, Option.map_some, hslice c (.inr ⟨hfour, halpha⟩)]
      rfl

/-- One vector of a segment is written where its pixels belong, whatever the buffer holds. -/
theorem writePiece_eq (target m : Nat)
    (room : m * vectorWidth + min vectorWidth (segment.length - m * vectorWidth) ≤ segment.length)
    (buffer : Array UInt8) :
    writePiece (s.bandsAt input) input.pad target
        (m * vectorWidth, min vectorWidth (segment.length - m * vectorWidth) * s.pixelSize)
        { s with buffer } =
      Outcome.done { s with
        buffer := overwrite buffer (target + m * vectorWidth * s.pixelSize)
          (s.chunk strip (segment.body.column + (m * vectorWidth : Nat))
            (min vectorWidth (segment.length - m * vectorWidth))) } := by
  have hpos : 0 < s.pixelSize := by rcases s.pixelSize_eq with h | h <;> omega
  have hbytes : ({ s with buffer } : PackedSink).pixelBytes (s.bandsAt input)
      (input.pad + (segment.column + m * vectorWidth) - segment.column)
      (min vectorWidth (segment.length - m * vectorWidth)) = _ :=
    pixelBytes_eq (s := { s with buffer }) shown
      (by unfold Segment.first; omega) (by unfold Segment.reach; omega)
  rw [Nat.add_left_comm, Nat.add_sub_cancel_left, Nat.cast_add] at hbytes
  have hcount : min vectorWidth (segment.length - m * vectorWidth) * s.pixelSize / s.pixelSize =
      min vectorWidth (segment.length - m * vectorWidth) := Nat.mul_div_cancel _ hpos
  have hsame : ({ s with buffer } : PackedSink).pixelSize = s.pixelSize := rfl
  simp only [writePiece, hsame, hcount, hbytes]
  rfl

/-- The first vectors of a segment are written in one piece. -/
theorem each_writePiece (target m : Nat)
    (h : m ≤ (segment.length + vectorWidth - 1) / vectorWidth) :
    Outcome.each (writePiece (s.bandsAt input) input.pad target)
        ((List.range m).map fun k ↦
          (k * vectorWidth, min vectorWidth (segment.length - k * vectorWidth) * s.pixelSize)) s =
      Outcome.done { s with
        buffer := overwrite s.buffer target
          ((List.range m).flatMap fun k ↦
            (s.chunk strip (segment.body.column + (k * vectorWidth : Nat))
              (min vectorWidth (segment.length - k * vectorWidth))).toList).toArray } := by
  induction m with
  | zero => simp
  | succ m ih =>
    have hroom : m * vectorWidth + min vectorWidth (segment.length - m * vectorWidth) ≤
        segment.length := by
      simp only [vectorWidth] at h ⊢
      omega
    -- All vectors before this one are full, so it adjoins what they wrote.
    have hfull : min (m * vectorWidth) segment.length = m * vectorWidth := by omega
    have hsize := s.length_flatMap_chunk strip segment.body m
    rw [show segment.body.length = segment.length from rfl, hfull] at hsize
    rw [List.range_succ, List.map_append, Outcome.each_append, ih (by omega), Outcome.done_next,
      List.map_singleton, Outcome.each_cons, writePiece_eq shown target m hroom,
      Outcome.done_next, Outcome.each_nil, ← hsize, ← List.size_toArray,
      overwrite_overwrite_adjacent, List.flatMap_append, List.flatMap_singleton,
      List.append_toArray]

end Bands

/-! ## Receiving -/

/-- Where the bytes of a segment end in its row. -/
def stopOf (segment : Segment) : Nat := (segment.column + segment.length) * s.pixelSize

/-- A segment of a strip that fits its row is written as a whole. -/
theorem receive_eq_draw {s : PackedSink} {input : Rows} {strip : Strip} {segment : Segment}
    (shown : input.Shows strip segment s.Uses)
    (room : segment.row < s.height →
      s.stopOf segment < Size.bound ∧ s.stopOf segment ≤ s.rowBytes segment.row) :
    s.receive input segment = .done (s.draw strip segment.body) := by
  unfold receive draw
  rw [show segment.body.row = segment.row from rfl]
  split_ifs with hheight
  · rfl
  obtain ⟨hsmall, hfits⟩ := room (Nat.lt_of_not_le hheight)
  unfold stopOf at hsmall hfits
  rw [Nat.add_mul] at hsmall hfits
  simp only [Size.ofNat_of_lt hsmall]
  rw [if_pos hfits, bands_eq shown, pieces_eq]
  exact each_writePiece shown _ _ le_rfl

theorem Fits.room {s : PackedSink} {width : Nat} (h : s.Fits width) {segment : Segment}
    (inside : segment.column + segment.length ≤ width) (hrow : segment.row < s.height) :
    s.stopOf segment < Size.bound ∧ s.stopOf segment ≤ s.rowBytes segment.row := by
  have hstop : s.stopOf segment ≤ width * s.pixelSize := Nat.mul_le_mul_right _ inside
  obtain ⟨hsmall, hroom⟩ := le_rowBytes_of_fits h hrow
  exact ⟨Nat.lt_of_le_of_lt hstop hsmall, Nat.le_trans hstop hroom⟩

theorem Fits.draw {s : PackedSink} {width : Nat} (h : s.Fits width) (strip : Strip)
    (step : Pipeline.Step) : (s.draw strip step).Fits width := by
  unfold PackedSink.draw
  split
  · exact h
  · have hsame : ∀ buffer : Array UInt8, buffer.size = s.buffer.size →
        ({ s with buffer } : PackedSink).checkWidth width = s.checkWidth width := by
      intro buffer hsize
      have hrows : ({ s with buffer } : PackedSink).rowBytes = s.rowBytes := by
        funext y
        simp only [rowBytes, hsize]
      simp only [checkWidth, ownedBytes, pixelSize, hrows]
      rfl
    rw [Fits, hsame _ (size_overwrite _ _ _)]
    exact h

/-- Steps without a common pixel may be written in either order. -/
theorem draw_comm {s : PackedSink} {width : Nat} (fits : s.Fits width) {a b : Pipeline.Step}
    (ha : a.column + a.length ≤ width) (hb : b.column + b.length ≤ width) (apart : a.Apart b)
    (strip strip' : Strip) :
    (s.draw strip a).draw strip' b = (s.draw strip' b).draw strip a := by
  by_cases hrowA : s.height ≤ a.row
  · rw [draw_of_height_le hrowA, draw_of_height_le (s := s.draw strip' b) (by simpa using hrowA)]
  by_cases hrowB : s.height ≤ b.row
  · rw [draw_of_height_le hrowB, draw_of_height_le (s := s.draw strip a) (by simpa using hrowB)]
  have hroomA := (le_rowBytes_of_fits fits (Nat.lt_of_not_le hrowA)).2
  have hroomB := (le_rowBytes_of_fits fits (Nat.lt_of_not_le hrowB)).2
  have hcomm : overwrite (overwrite s.buffer
        (a.row * s.stride + a.column * s.pixelSize) (s.rowBytesOf strip a))
        (b.row * s.stride + b.column * s.pixelSize) (s.rowBytesOf strip' b) =
      overwrite (overwrite s.buffer
        (b.row * s.stride + b.column * s.pixelSize) (s.rowBytesOf strip' b))
        (a.row * s.stride + a.column * s.pixelSize) (s.rowBytesOf strip a) := by
    apply overwrite_comm
    simp only [size_rowBytesOf]
    have hendA := Nat.mul_le_mul_right s.pixelSize ha
    have hendB := Nat.mul_le_mul_right s.pixelSize hb
    rw [Nat.add_mul] at hendA hendB
    unfold rowBytes at hroomA hroomB
    apply spans_disjoint (by omega) (by omega)
    rw [← Nat.add_mul, ← Nat.add_mul]
    exact apart.imp_right (Or.imp (Nat.mul_le_mul_right _) (Nat.mul_le_mul_right _))
  simp only [draw, if_neg hrowA, if_neg hrowB]
  exact congrArg (fun buffer ↦ ({ s with buffer } : PackedSink)) hcomm

end PackedSink

end Scanline
