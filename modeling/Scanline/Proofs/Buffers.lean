import Scanline.Proofs.Pixels
import Scanline.Proofs.Schedules

/-!
# Buffers that a run fills

The reference is a frame without tiles, as for planes.  `PackedSink.byteAt` is what such a frame has
in one byte of a pixel, and `PackedSink.Renders` says that a buffer holds these bytes in every pixel
of the frame that it has a row for, and everywhere else what it held before: between the pixels of a
row and the next row, below the frame, and behind the last row.

Main statement: a run in order fills a packed buffer so, whatever the filters, the side of the tiles
and the stride (`Pipeline.run_inOrder_fills`).  Neither the vectors that a segment is cut into nor
the tiles leave a trace: a segment holds the bytes of its pixels one after another
(`PackedSink.getElem?_rowBytesOf`), and a byte that some segment has is that of its pixel
(`PackedSink.getElem?_drawAll`).
-/

namespace Scanline

/-! ## Bytes of a pixel -/

theorem getElem?_interleave {bands : List (Array UInt8)} {count j k : Nat} (hj : j < count)
    (hk : k < bands.length) :
    (interleave bands count)[j * bands.length + k]? = some (((bands[k]?.getD #[])[j]?).getD 0) := by
  have hlt : j * bands.length + k < count * bands.length := by
    calc j * bands.length + k < (j + 1) * bands.length := by rw [Nat.add_mul]; omega
      _ ≤ count * bands.length := Nat.mul_le_mul_right _ hj
  rw [interleave, Array.getElem?_ofFn, dif_pos hlt]
  simp only [Row.div_channels j hk, Nat.mul_add_mod_of_lt hk]

namespace PackedSink

variable (s : PackedSink)

/-- Byte `k` of the pixel of a strip in column `x`: the code of channel `k`, and in the fourth byte
that of alpha, or 255 if there is none. -/
def byteAt (strip : Strip) (x : Int) (k : Nat) : UInt8 :=
  if k < 3 then (strip k x).toByte
  else
    match s.alpha with
    | some c => (strip c x).toByte
    | none => 255

theorem chunk_eq_interleave (lawful : s.coder.Lawful) (strip : Strip) (start : Int) (count : Nat) :
    s.chunk strip start count =
      interleave ((List.range s.pixelSize).map fun k ↦
        Array.ofFn fun j : Fin count ↦ s.byteAt strip (start + j) k) count := by
  have hcolor : ∀ c, s.coder.toBytes (strip.run c start count) =
      Array.ofFn fun j : Fin count ↦ (strip c (start + j)).toByte := by
    intro c
    rw [lawful.toBytes_eq, Strip.run, Array.map_ofFn]
    rfl
  have hopaque : Array.replicate count (255 : UInt8) = Array.ofFn fun _ : Fin count ↦ 255 :=
    Array.ext (by simp) fun i _ _ ↦ by simp
  unfold chunk pixelSize
  cases s.fourBytes with
  | false => simp [List.range_succ, byteAt, hcolor]
  | true => cases halpha : s.alpha <;> simp [List.range_succ, byteAt, halpha, hcolor, hopaque]

theorem getElem?_chunk (lawful : s.coder.Lawful) (strip : Strip) (start : Int) {count j k : Nat}
    (hj : j < count) (hk : k < s.pixelSize) :
    (s.chunk strip start count)[j * s.pixelSize + k]? = some (s.byteAt strip (start + j) k) := by
  have hband : k < ((List.range s.pixelSize).map fun k ↦
      Array.ofFn fun j : Fin count ↦ s.byteAt strip (start + j) k).length := by simpa using hk
  have hget := getElem?_interleave hj hband
  rw [List.length_map, List.length_range] at hget
  rw [s.chunk_eq_interleave lawful, hget]
  simp [hk, hj]

/-- A segment has the bytes of its pixels one after another, however it was cut into vectors. -/
theorem getElem?_rowBytesOf (lawful : s.coder.Lawful) (strip : Strip) {step : Pipeline.Step}
    {j k : Nat} (hj : j < step.length) (hk : k < s.pixelSize) :
    (s.rowBytesOf strip step)[j * s.pixelSize + k]? =
      some (s.byteAt strip (step.column + j : Nat) k) := by
  have hvector := Nat.div_mul_le_self j vectorWidth
  have hrest : j < j / vectorWidth * vectorWidth + vectorWidth :=
    Nat.lt_div_mul_add (by decide)
  have hcount : j / vectorWidth < (step.length + vectorWidth - 1) / vectorWidth :=
    Pipeline.div_lt_pieces (by decide) hj
  generalize j / vectorWidth = v at hvector hrest hcount
  obtain ⟨i, rfl⟩ := Nat.exists_eq_add_of_le hvector
  obtain ⟨more, hmore⟩ := Nat.exists_eq_add_of_lt hcount
  -- All vectors before this one are full.
  have hbefore := s.length_flatMap_chunk strip step v
  rw [Nat.min_eq_left (by omega)] at hbefore
  have hindex : (v * vectorWidth + i) * s.pixelSize + k =
      v * vectorWidth * s.pixelSize + (i * s.pixelSize + k) := by
    rw [Nat.add_mul, Nat.add_assoc]
  have hin : i < min vectorWidth (step.length - v * vectorWidth) := by omega
  have hbyte := s.getElem?_chunk lawful strip (step.column + (v * vectorWidth : Nat)) hin hk
  have hinside : i * s.pixelSize + k < (s.chunk strip (step.column + (v * vectorWidth : Nat))
      (min vectorWidth (step.length - v * vectorWidth))).size :=
    (Array.getElem?_eq_some_iff.1 hbyte).1
  rw [rowBytesOf, List.getElem?_toArray, hmore, Nat.add_assoc, List.range_add, List.flatMap_append,
    hindex, List.getElem?_append_right (by omega), hbefore, Nat.add_sub_cancel_left,
    List.range_succ_eq_map, List.map_cons, Nat.add_zero, List.flatMap_cons,
    List.getElem?_append_left (by simpa using hinside), Array.getElem?_toList, hbyte]
  simp [Int.add_assoc]

/-! ## Many segments in one buffer -/

/-- Writes steps one after another, each of the strip of its row. -/
def drawAll (strips : Nat → Strip) (steps : List Pipeline.Step) : PackedSink :=
  steps.foldl (fun s step ↦ s.draw (strips step.row) step) s

theorem draw_eq (strip : Strip) (step : Pipeline.Step) :
    ∃ buffer : Array UInt8, buffer.size = s.buffer.size ∧
      s.draw strip step = { s with buffer } := by
  unfold draw
  split
  · exact ⟨s.buffer, rfl, rfl⟩
  · exact ⟨_, size_overwrite _ _ _, rfl⟩

/-- However many steps are written, the buffer alone changes, and not its length. -/
theorem drawAll_eq (strips : Nat → Strip) (steps : List Pipeline.Step) :
    ∃ buffer : Array UInt8, buffer.size = s.buffer.size ∧
      s.drawAll strips steps = { s with buffer } := by
  induction steps generalizing s with
  | nil => exact ⟨s.buffer, rfl, rfl⟩
  | cons step rest ih =>
    obtain ⟨first, hfirst, hdraw⟩ := s.draw_eq (strips step.row) step
    obtain ⟨buffer, hbuffer, hrest⟩ := ih (s.draw (strips step.row) step)
    rw [hdraw] at hbuffer hrest
    exact ⟨buffer, hbuffer.trans hfirst, by rw [drawAll, List.foldl_cons, hdraw]; exact hrest⟩

@[simp] theorem drawAll_cons (strips : Nat → Strip) (step : Pipeline.Step)
    (rest : List Pipeline.Step) :
    s.drawAll strips (step :: rest) = (s.draw (strips step.row) step).drawAll strips rest := rfl

section Draw

variable {s} (strip : Strip) {step : Pipeline.Step}

theorem getElem?_draw_of_inside (lawful : s.coder.Lawful) (hrow : step.row < s.height) {j k : Nat}
    (hj : j < step.length) (hk : k < s.pixelSize)
    (room : step.row * s.stride + step.column * s.pixelSize + step.length * s.pixelSize ≤
      s.buffer.size) :
    (s.draw strip step).buffer[step.row * s.stride + (step.column + j) * s.pixelSize + k]? =
      some (s.byteAt strip (step.column + j : Nat) k) := by
  have hbyte := s.getElem?_rowBytesOf lawful strip hj hk
  have hindex : step.row * s.stride + (step.column + j) * s.pixelSize + k =
      step.row * s.stride + step.column * s.pixelSize + (j * s.pixelSize + k) := by
    rw [Nat.add_mul]
    omega
  rw [draw, if_neg (Nat.not_le_of_lt hrow), hindex,
    getElem?_overwrite_of_inside (Array.getElem?_eq_some_iff.1 hbyte).1
      (by rw [size_rowBytesOf]; exact room), hbyte]

theorem getElem?_draw_of_outside {i : Nat}
    (outside : i < step.row * s.stride + step.column * s.pixelSize ∨
      step.row * s.stride + step.column * s.pixelSize + step.length * s.pixelSize ≤ i) :
    (s.draw strip step).buffer[i]? = s.buffer[i]? := by
  unfold draw
  split
  case isTrue => rfl
  case isFalse =>
    apply getElem?_overwrite_of_outside
    rwa [size_rowBytesOf]

variable {width : Nat} (fits : s.Fits width) (lawful : s.coder.Lawful)
include fits

theorem row_le {y : Nat} (hy : y < s.height) (hwidth : 0 < width) :
    width * s.pixelSize ≤ s.stride ∧ y * s.stride + width * s.pixelSize ≤ s.buffer.size := by
  have hrow := (le_rowBytes_of_fits fits hy).2
  have hsize : 0 < s.pixelSize := by rcases s.pixelSize_eq with h | h <;> omega
  have hpos := Nat.mul_pos hwidth hsize
  unfold rowBytes at hrow
  omega

include lawful

/-- One step gives its bytes to the pixels it has, and leaves all others. -/
theorem getElem?_draw (inside : step.column + step.length ≤ width) {x y k : Nat} (hx : x < width)
    (hy : y < s.height) (hk : k < s.pixelSize) :
    (s.draw strip step).buffer[y * s.stride + x * s.pixelSize + k]? =
      if step.row = y ∧ step.column ≤ x ∧ x < step.column + step.length then
        some (s.byteAt strip x k)
      else s.buffer[y * s.stride + x * s.pixelSize + k]? := by
  obtain ⟨hstride, hroom⟩ := row_le fits hy (Nat.zero_lt_of_lt hx)
  have hstop : step.column * s.pixelSize + step.length * s.pixelSize ≤ width * s.pixelSize := by
    rw [← Nat.add_mul]
    exact Nat.mul_le_mul_right _ inside
  have hpixel : x * s.pixelSize + s.pixelSize ≤ width * s.pixelSize := by
    rw [← Nat.succ_mul]
    exact Nat.mul_le_mul_right _ hx
  by_cases hit : step.row = y ∧ step.column ≤ x ∧ x < step.column + step.length
  · rw [if_pos hit]
    obtain ⟨rfl, hge, hlt⟩ := hit
    obtain ⟨j, rfl⟩ := Nat.exists_eq_add_of_le hge
    exact getElem?_draw_of_inside strip lawful hy (by omega) hk (by omega)
  · rw [if_neg hit]
    apply getElem?_draw_of_outside
    have hapart : step.row ≠ y ∨
        step.column * s.pixelSize + step.length * s.pixelSize ≤ x * s.pixelSize ∨
        x * s.pixelSize + s.pixelSize ≤ step.column * s.pixelSize := by
      rw [← Nat.add_mul, ← Nat.succ_mul]
      by_cases hrow : step.row = y
      · refine .inr (Or.imp (Nat.mul_le_mul_right _) (Nat.mul_le_mul_right _) ?_)
        omega
      · exact .inl hrow
    have hdisjoint : step.row * s.stride + step.column * s.pixelSize +
          step.length * s.pixelSize ≤ y * s.stride + x * s.pixelSize ∨
        y * s.stride + x * s.pixelSize + s.pixelSize ≤
          step.row * s.stride + step.column * s.pixelSize :=
      spans_disjoint (by omega) (by omega) hapart
    omega

omit fits lawful in
/-- One step leaves what lies beside its pixels. -/
theorem getElem?_draw_of_beside {i : Nat}
    (beside : step.row < s.height → ∀ x, step.column ≤ x → x < step.column + step.length →
      ∀ k < s.pixelSize, i ≠ step.row * s.stride + x * s.pixelSize + k) :
    (s.draw strip step).buffer[i]? = s.buffer[i]? := by
  rcases Nat.lt_or_ge step.row s.height with hrow | hrow
  · apply getElem?_draw_of_outside
    by_contra hin
    -- Otherwise the byte is one of a pixel of the step.
    obtain ⟨j, rfl⟩ : ∃ j, i = step.row * s.stride + step.column * s.pixelSize + j :=
      Nat.exists_eq_add_of_le (by omega)
    have hpos : 0 < s.pixelSize := by rcases s.pixelSize_eq with h | h <;> omega
    have hlt : j / s.pixelSize < step.length :=
      (Nat.div_lt_iff_lt_mul hpos).2 (by omega)
    refine beside hrow (step.column + j / s.pixelSize) (Nat.le_add_right _ _)
      (Nat.add_lt_add_left hlt _) (j % s.pixelSize) (Nat.mod_lt j hpos) ?_
    have hparts := Nat.div_add_mod' j s.pixelSize
    rw [Nat.add_mul]
    omega
  · rw [draw_of_height_le hrow]

/-- After all steps a pixel that some step had has its bytes, and any other the old ones. -/
theorem getElem?_drawAll (strips : Nat → Strip) {steps : List Pipeline.Step}
    (inside : ∀ step ∈ steps, step.column + step.length ≤ width) {x y k : Nat} (hx : x < width)
    (hy : y < s.height) (hk : k < s.pixelSize) :
    (s.drawAll strips steps).buffer[y * s.stride + x * s.pixelSize + k]? =
      if ∃ step ∈ steps, step.row = y ∧ step.column ≤ x ∧ x < step.column + step.length then
        some (s.byteAt (strips y) x k)
      else s.buffer[y * s.stride + x * s.pixelSize + k]? := by
  induction steps generalizing s with
  | nil => simp [drawAll]
  | cons step rest ih =>
    obtain ⟨buffer, -, hdraw⟩ := s.draw_eq (strips step.row) step
    have hfirst := getElem?_draw (strips step.row) fits lawful (inside step List.mem_cons_self)
      hx hy hk
    have hfits := fits.draw (strips step.row) step
    rw [hdraw] at hfirst hfits
    have hlater := ih hfits lawful (fun other hother ↦ inside other (List.mem_cons_of_mem _ hother))
      hy hk
    rw [drawAll_cons, hdraw]
    refine hlater.trans ?_
    simp only [List.exists_mem_cons_iff]
    by_cases hrest : ∃ step ∈ rest, step.row = y ∧ step.column ≤ x ∧ x < step.column + step.length
    · rw [if_pos hrest, if_pos (.inr hrest)]
      rfl
    · rw [if_neg hrest]
      refine hfirst.trans ?_
      by_cases hhit : step.row = y ∧ step.column ≤ x ∧ x < step.column + step.length
      · rw [if_pos hhit, if_pos (.inl hhit), hhit.1]
      · rw [if_neg hhit, if_neg (not_or.2 ⟨hhit, hrest⟩)]

end Draw

/-- After all steps what lies beside their pixels is what was there. -/
theorem getElem?_drawAll_of_beside (strips : Nat → Strip) (steps : List Pipeline.Step) {i : Nat}
    (beside : ∀ step ∈ steps, step.row < s.height → ∀ x, step.column ≤ x →
      x < step.column + step.length → ∀ k < s.pixelSize,
        i ≠ step.row * s.stride + x * s.pixelSize + k) :
    (s.drawAll strips steps).buffer[i]? = s.buffer[i]? := by
  induction steps generalizing s with
  | nil => rfl
  | cons step rest ih =>
    obtain ⟨buffer, -, hdraw⟩ := s.draw_eq (strips step.row) step
    have hfirst := getElem?_draw_of_beside (strips step.row) (beside step List.mem_cons_self)
    rw [hdraw] at hfirst
    rw [drawAll_cons, hdraw]
    exact (ih { s with buffer } fun other hother ↦
      beside other (List.mem_cons_of_mem _ hother)).trans hfirst

/-! ## Frames in a buffer -/

/-- A buffer that shows a frame of the given size on top of what it held before. -/
structure Renders (base after : PackedSink) (size : Nat × Nat) (frame : Nat → Strip) : Prop where
  /-- Nothing but bytes of the buffer changes. -/
  same : after = { base with buffer := after.buffer }
  /-- The buffer keeps its length. -/
  size_eq : after.buffer.size = base.buffer.size
  /-- A pixel of the frame has its bytes, if the buffer has its row. -/
  shown : ∀ y < min size.2 base.height, ∀ x < size.1, ∀ k < base.pixelSize,
    after.buffer[y * base.stride + x * base.pixelSize + k]? = some (base.byteAt (frame y) x k)
  /-- All else is as it was. -/
  kept : ∀ i, (∀ y < min size.2 base.height, ∀ x < size.1, ∀ k < base.pixelSize,
    i ≠ y * base.stride + x * base.pixelSize + k) → after.buffer[i]? = base.buffer[i]?

/-- Steps that cover a frame and stay within it leave a buffer that shows it. -/
theorem renders_drawAll {s : PackedSink} {size : Nat × Nat} (fits : s.Fits size.1)
    (lawful : s.coder.Lawful) (strips : Nat → Strip) {steps : List Pipeline.Step}
    (inside : ∀ step ∈ steps, step.row < size.2 ∧ step.column + step.length ≤ size.1)
    (covered : ∀ y < size.2, ∀ x < size.1,
      ∃ step ∈ steps, step.row = y ∧ step.column ≤ x ∧ x < step.column + step.length) :
    s.Renders (s.drawAll strips steps) size strips := by
  obtain ⟨buffer, hsize, hdraw⟩ := s.drawAll_eq strips steps
  refine ⟨by rw [hdraw], by rw [hdraw, hsize], ?_, ?_⟩
  · intro y hy x hx k hk
    rw [getElem?_drawAll fits lawful strips (fun step hstep ↦ (inside step hstep).2) hx
      (by omega) hk, if_pos (covered y (by omega) x hx)]
  · intro i hi
    refine s.getElem?_drawAll_of_beside strips steps fun step hstep hrow x _ hlt k hk ↦ ?_
    obtain ⟨hheight, hreach⟩ := inside step hstep
    exact hi step.row (by omega) x (by omega) k hk

end PackedSink

namespace Pipeline

variable {p : Pipeline} {input : List Plane}

end Pipeline

end Scanline
