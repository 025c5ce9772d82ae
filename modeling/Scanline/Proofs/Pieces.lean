import Scanline.Proofs.Filter
import Scanline.Proofs.Windows

/-!
# Rows made in pieces

A filter that is driven directly is handed a window of any kind: with any padding that leaves room
for extra samples and borders, in rows of any length.  `Filter.Made` says sample by sample what it
leaves: the columns of the window are those of the strip that the filter makes of the strip it was
shown, and all other samples, of these rows and of other channels, are as they were
(`Filter.exists_made`).

Nothing in this depends on where a window begins or ends.  Hence windows that together have the
columns of another one, and show the same samples, leave what that one leaves
(`Filter.get?_produceAll`), in particular those that a segment is cut into one after another
(`Filter.splits_cut`).
-/

namespace Scanline

/-! ## Columns of a window -/

namespace Segment

variable (s : Segment)

/-- Whether a segment produces a column, be it one of its pixels or an extra sample. -/
def Produces (x : Int) : Prop := (s.column : Int) - s.extra ≤ x ∧ x < s.reach

/-- Segments of the given lengths from a column on, one after another. -/
def cutFrom : Nat → List Nat → List Segment
  | _, [] => []
  | column, length :: rest => { s with column, length } :: cutFrom (column + length) rest

/-- Cuts a segment into segments of the given lengths, one after another and each with as many extra
samples. -/
def cut (lengths : List Nat) : List Segment := s.cutFrom s.column lengths

variable {s} {column : Nat} {lengths : List Nat}

theorem within_of_mem_cutFrom {piece : Segment} (h : piece ∈ s.cutFrom column lengths) :
    piece.extra = s.extra ∧ column ≤ piece.column ∧
      piece.column + piece.length ≤ column + lengths.sum := by
  induction lengths generalizing column with
  | nil => simp [cutFrom] at h
  | cons length rest ih =>
    rw [List.sum_cons]
    rcases List.mem_cons.1 h with rfl | h
    · exact ⟨rfl, Nat.le_refl _, by dsimp only; omega⟩
    · obtain ⟨hextra, hfirst, hlast⟩ := ih h
      exact ⟨hextra, by omega, by omega⟩

theorem exists_mem_cutFrom (some : lengths ≠ []) {x : Int} (first : (column : Int) - s.extra ≤ x)
    (last : x < column + lengths.sum + s.extra) :
    ∃ piece ∈ s.cutFrom column lengths, piece.Produces x := by
  induction lengths generalizing column with
  | nil => exact absurd rfl some
  | cons length rest ih =>
    rw [List.sum_cons] at last
    rcases lt_or_ge x ((column : Int) + length + s.extra) with here | beyond
    · exact ⟨_, List.mem_cons_self, first, by simpa [reach] using here⟩
    · have hrest : rest ≠ [] := by
        rintro rfl
        rw [List.sum_nil] at last
        omega
      obtain ⟨piece, hmem, hx⟩ : ∃ piece ∈ s.cutFrom (column + length) rest, piece.Produces x :=
        ih hrest (by omega) (by omega)
      exact ⟨piece, List.mem_cons_of_mem _ hmem, hx⟩

end Segment

namespace Rows

variable (r : Rows)

/-- The column of a sample, where the first pixel is that of column `origin`. -/
def columnOf (origin i : Nat) : Int := (i : Int) - r.pad + origin

/-- The same rows for a segment whose first pixel is that of another column. -/
def seenFrom (origin column : Nat) : Rows := { r with pad := r.pad + column - origin }

@[simp] theorem get?_seenFrom (origin column c : Nat) :
    (r.seenFrom origin column).get? c = r.get? c := rfl

@[simp] theorem get?_with_pad (pad c : Nat) : ({ r with pad } : Rows).get? c = r.get? c := rfl

theorem columnOf_seenFrom {origin column : Nat} (h : origin ≤ r.pad + column) (i : Nat) :
    (r.seenFrom origin column).columnOf column i = r.columnOf origin i := by
  simp only [columnOf, seenFrom]
  omega

theorem strip_seenFrom {origin column : Nat} (h : origin ≤ r.pad + column) :
    (r.seenFrom origin column).strip column = r.strip origin := by
  funext c x
  have hplace : (((r.pad + column - origin : Nat) : Int) + x - column).toNat =
      ((r.pad : Int) + x - origin).toNat := by omega
  simp only [strip, seenFrom, hplace]
  rfl

/-- Rows with room for a segment and its extra samples in every color.  Their lengths are sizes. -/
structure HasRoom (segment : Segment) : Prop where
  /-- There is room for the extra samples before the segment. -/
  extra_le : segment.extra ≤ r.pad
  /-- There is room for all others. -/
  exists_row : ∀ c < 3, ∃ row, r.get? c = some row ∧
    r.pad + segment.length + segment.extra ≤ row.size ∧ row.size < Size.bound

variable {r}

theorem HasRoom.get?_eq {segment : Segment} (h : r.HasRoom segment) {c : Nat} (hc : c < 3) :
    r.get? c = some (r.rowAt c) ∧
      r.pad + segment.length + segment.extra ≤ (r.rowAt c).size ∧
      (r.rowAt c).size < Size.bound := by
  obtain ⟨row, hrow, hsize⟩ := h.exists_row c hc
  rw [rowAt, hrow]
  exact ⟨rfl, hsize⟩

theorem HasRoom.seenFrom {whole part : Segment} (h : r.HasRoom whole)
    (first : (whole.column : Int) - whole.extra ≤ part.column - part.extra)
    (last : part.reach ≤ whole.reach) : (r.seenFrom whole.column part.column).HasRoom part := by
  have hextra := h.extra_le
  unfold Segment.reach at last
  refine ⟨by simp only [Rows.seenFrom]; omega, fun c hc ↦ ?_⟩
  obtain ⟨row, hrow, hsize, hbound⟩ := h.exists_row c hc
  exact ⟨row, hrow, by simp only [Rows.seenFrom]; omega, hbound⟩

end Rows

/-! ## What a filter leaves -/

namespace Filter

variable (f : Filter)

/-- A window that reaches one border further than what is to be produced, in every channel that is
read. -/
structure Feeds (w : Window) : Prop where
  /-- It does so on the left. -/
  extra_le : w.segment.extra + f.border ≤ w.rows.pad
  /-- It does so on the right. -/
  exists_row : ∀ c, (f.mode c).reads → ∃ row, w.rows.get? c = some row ∧
    w.rows.pad + w.segment.length + w.segment.extra + f.border ≤ row.size

/-- What becomes of rows whose first pixel is that of column `origin` when a filter makes some
columns of them: these are as it makes them of a strip, all others and all other channels are as
they were. -/
structure Made (strip : Strip) (origin : Nat) (has : Int → Prop) (old new : Rows) : Prop where
  /-- The first pixel stays where it is. -/
  pad_eq : new.pad = old.pad
  /-- Channels that hold no color stay. -/
  other : ∀ c, 3 ≤ c → new.get? c = old.get? c
  /-- A color keeps its length, and of its samples those that are not made. -/
  color : ∀ c < 3, ∀ row, old.get? c = some row →
    ∃ made, new.get? c = some made ∧ made.size = row.size ∧ ∀ i < row.size,
      (has (old.columnOf origin i) →
        made[i]? = some (f.onStrip strip c (old.columnOf origin i))) ∧
      (¬has (old.columnOf origin i) → made[i]? = row[i]?)

namespace Made

variable {f} {strip : Strip} {origin : Nat} {has also : Int → Prop} {old mid new other : Rows}

theorem refl (f : Filter) (strip : Strip) (origin : Nat) (r : Rows) :
    f.Made strip origin (fun _ ↦ False) r r :=
  ⟨rfl, fun _ _ ↦ rfl, fun _ _ row hrow ↦ ⟨row, hrow, rfl, fun _ _ ↦ ⟨False.elim, fun _ ↦ rfl⟩⟩⟩

/-- Making some columns and then others makes both. -/
theorem trans (h : f.Made strip origin has old mid) (h' : f.Made strip origin also mid new) :
    f.Made strip origin (fun x ↦ has x ∨ also x) old new := by
  have hcolumn : ∀ i, mid.columnOf origin i = old.columnOf origin i := fun i ↦ by
    simp only [Rows.columnOf, h.pad_eq]
  refine ⟨by rw [h'.pad_eq, h.pad_eq], fun c hc ↦ by rw [h'.other c hc, h.other c hc],
    fun c hc row hrow ↦ ?_⟩
  obtain ⟨row', hrow', hsize, hfirst⟩ := h.color c hc row hrow
  obtain ⟨made, hmade, hsize', hsecond⟩ := h'.color c hc row' hrow'
  refine ⟨made, hmade, by rw [hsize', hsize], fun i hi ↦ ?_⟩
  have hsecond := hsecond i (by rwa [hsize])
  rw [hcolumn] at hsecond
  by_cases halso : also (old.columnOf origin i)
  · exact ⟨fun _ ↦ hsecond.1 halso, fun hnone ↦ absurd (.inr halso) hnone⟩
  · rw [hsecond.2 halso]
    exact ⟨fun hor ↦ (hfirst i hi).1 (hor.resolve_right halso),
      fun hnone ↦ (hfirst i hi).2 fun hhas ↦ hnone (.inl hhas)⟩

theorem congr (h : f.Made strip origin has old new) (same : ∀ x, has x ↔ also x) :
    f.Made strip origin also old new := by
  obtain rfl : has = also := funext fun x ↦ propext (same x)
  exact h

theorem get?_eq {segment : Segment} (room : old.HasRoom segment)
    (h : f.Made strip origin has old new) (h' : f.Made strip origin has old other) (c : Nat) :
    new.get? c = other.get? c := by
  rcases Nat.lt_or_ge c 3 with hc | hc
  · obtain ⟨row, hrow, -⟩ := room.exists_row c hc
    obtain ⟨made, hmade, hsize, hget⟩ := h.color c hc row hrow
    obtain ⟨made', hmade', hsize', hget'⟩ := h'.color c hc row hrow
    rw [hmade, hmade', Option.some.injEq]
    apply Array.ext_getElem?
    intro i
    rcases Nat.lt_or_ge i row.size with hi | hi
    · by_cases hhas : has (old.columnOf origin i)
      · rw [(hget i hi).1 hhas, (hget' i hi).1 hhas]
      · rw [(hget i hi).2 hhas, (hget' i hi).2 hhas]
    · rw [Array.getElem?_eq_none (by omega), Array.getElem?_eq_none (by omega)]
  · rw [h.other c hc, h'.other c hc]

theorem hasRoom {segment : Segment} (h : f.Made strip origin has old new)
    (room : old.HasRoom segment) : new.HasRoom segment := by
  refine ⟨by rw [h.pad_eq]; exact room.extra_le, fun c hc ↦ ?_⟩
  obtain ⟨row, hrow, hlong, hbound⟩ := room.exists_row c hc
  obtain ⟨made, hmade, hsize, -⟩ := h.color c hc row hrow
  exact ⟨made, hmade, by rw [h.pad_eq, hsize]; exact hlong, by rwa [hsize]⟩

end Made

theorem reads_of_lt {c : Nat} (hc : c < 3) : (f.mode c).reads := by
  have hchanges := (f.changes_iff c).2 hc
  cases hmode : f.mode c <;> simp_all [Mode.reads, Mode.changes]

theorem reads_alpha (f : Premultiply) : (Filter.mode (.premultiply f) f.alpha).reads := by
  simp [mode, Premultiply.mode, Nat.not_lt.2 f.le_alpha, Mode.reads]

/-- What a filter makes of a column depends on the columns within its border, in the channels that
it reads. -/
theorem onStrip_congr {s t : Strip} {x : Int}
    (h : ∀ c, (f.mode c).reads → ∀ z, x - f.border ≤ z → z ≤ x + f.border → s c z = t c z)
    {c : Nat} (hc : c < 3) : f.onStrip s c x = f.onStrip t c x := by
  have hreads := f.reads_of_lt hc
  cases f with
  | premultiply f =>
    simp only [onStrip, if_pos hc]
    rw [h c hreads x (by simp [border]) (by simp [border]),
      h f.alpha (reads_alpha f) x (by simp [border]) (by simp [border])]
  | smooth f =>
    have hborder : ((Filter.smooth f).border : Int) = 1 := rfl
    simp only [onStrip, if_pos hc]
    rw [h c hreads x (by omega) (by omega), h c hreads (x - 1) (by omega) (by omega),
      h c hreads (x + 1) (by omega) (by omega)]

namespace Feeds

variable {f} {w : Window} (h : f.Feeds w) {c : Nat} (hc : (f.mode c).reads)
include h hc

theorem get?_eq : w.rows.get? c = some (w.rows.rowAt c) ∧
    w.rows.pad + w.segment.length + w.segment.extra + f.border ≤ (w.rows.rowAt c).size := by
  obtain ⟨row, hrow, hsize⟩ := h.exists_row c hc
  rw [Rows.rowAt, hrow]
  exact ⟨rfl, hsize⟩

theorem place_le_size {n : Nat} (hn : n ≤ w.segment.extra + f.border) :
    w.rows.pad - n + (w.segment.length + 2 * n) ≤ (w.rows.rowAt c).size := by
  have hpad := h.extra_le
  have hsize := (h.get?_eq hc).2
  omega

/-- As far as the extra samples and the border, the samples of a window are those of the strip that
it shows. -/
theorem extract_eq {n : Nat} (hn : n ≤ w.segment.extra + f.border) :
    (w.rows.rowAt c).extract (w.rows.pad - n) (w.rows.pad - n + (w.segment.length + 2 * n)) =
      (w.rows.strip w.segment.column).run c ((w.segment.column : Int) - n)
        (w.segment.length + 2 * n) := by
  have hpad := h.extra_le
  have hfirst : ((w.segment.column : Int) - w.rows.pad) + ((w.rows.pad - n : Nat) : Int) =
      w.segment.column - n := by omega
  rw [w.rows.rowAt_eq_run w.segment.column c,
    Strip.extract_run _ _ _ _ (h.place_le_size hc hn), hfirst, Nat.add_sub_cancel_left]

end Feeds

section Produce

variable {f} {whole : Window} {output : Rows}

/-- A filter writes into every color a run of the strip that it makes. -/
theorem produce_eq (feeds : f.Feeds whole) (room : output.HasRoom whole.segment) :
    ∃ written, f.produce whole.rows output whole.segment = .ok written ∧
      written.pad = output.pad ∧ ∀ c, written.get? c =
        if c < 3 then
          some (overwrite (output.rowAt c) (output.pad - whole.segment.extra)
            ((f.onStrip (whole.rows.strip whole.segment.column)).run c
              ((whole.segment.column : Int) - whole.segment.extra) whole.segment.produced))
        else output.get? c := by
  have hspan : whole.segment.produced = whole.segment.length + 2 * whole.segment.extra := rfl
  have hin := feeds.extra_le
  have hout := room.extra_le
  have hroom : ∀ c < 3,
      output.pad - whole.segment.extra + whole.segment.produced ≤ (output.rowAt c).size := by
    intro c hc
    have hlong := (room.get?_eq hc).2.1
    omega
  have hbound : whole.segment.produced < Size.bound := by
    have hlong := hroom 0 (by decide)
    have hsize := (room.get?_eq (c := 0) (by decide)).2.2
    omega
  cases f with
  | premultiply f =>
    have hreads : ∀ c < 3, (Filter.mode (.premultiply f) c).reads := fun c ↦ reads_of_lt _
    have hfar : whole.segment.extra ≤ whole.segment.extra + (Filter.premultiply f).border :=
      Nat.le_add_right _ _
    obtain ⟨written, hwritten, hpad, hget⟩ := f.produce_eq hbound (hfar.trans hin) hout
      (feeds.get?_eq (reads_alpha f)).1 (feeds.place_le_size (reads_alpha f) hfar)
      (fun c hc ↦ (feeds.get?_eq (hreads c hc)).1)
      (fun c hc ↦ feeds.place_le_size (hreads c hc) hfar) (fun c hc ↦ (room.get?_eq hc).1) hroom
    refine ⟨written, hwritten, hpad, fun c ↦ ?_⟩
    rw [hget]
    split_ifs with hc
    · rw [hspan, feeds.extract_eq (hreads c hc) hfar, feeds.extract_eq (reads_alpha f) hfar,
        f.apply_run _ hc]
    · rfl
  | smooth f =>
    have hreads : ∀ c < 3, (Filter.mode (.smooth f) c).reads := fun c ↦ reads_of_lt _
    have hfar : whole.segment.extra + Smooth.border ≤
        whole.segment.extra + (Filter.smooth f).border := Nat.le_refl _
    -- with a border on both sides, what is read is two samples longer than what is produced
    have hlength : whole.segment.produced + 2 =
        whole.segment.length + 2 * (whole.segment.extra + Smooth.border) := rfl
    obtain ⟨written, hwritten, hpad, hget⟩ := f.produce_eq hbound hin hout
      (fun c hc ↦ (feeds.get?_eq (hreads c hc)).1)
      (fun c hc ↦ feeds.place_le_size (hreads c hc) hfar) (fun c hc ↦ (room.get?_eq hc).1) hroom
    refine ⟨written, hwritten, hpad, fun c ↦ ?_⟩
    rw [hget]
    split_ifs with hc
    · have hfirst : (whole.segment.column : Int) - (whole.segment.extra + Smooth.border : Nat) =
          whole.segment.column - whole.segment.extra - 1 := by
        rw [Nat.cast_add]
        exact (sub_sub _ _ _).symm
      rw [hlength, feeds.extract_eq (hreads c hc) hfar, hfirst, ← hlength, f.apply_run _ hc]
    · rfl

/-- A filter makes the columns of its segment, and no others. -/
theorem exists_made (feeds : f.Feeds whole) (room : output.HasRoom whole.segment) :
    ∃ written, f.produce whole.rows output whole.segment = .ok written ∧
      f.Made (whole.rows.strip whole.segment.column) whole.segment.column whole.segment.Produces
        output written := by
  obtain ⟨written, hwritten, hpad, hget⟩ := produce_eq feeds room
  have hspan : whole.segment.produced = whole.segment.length + 2 * whole.segment.extra := rfl
  have hout := room.extra_le
  refine ⟨written, hwritten, hpad, fun c hc ↦ by rw [hget, if_neg (Nat.not_lt.2 hc)],
    fun c hc row hrow ↦ ?_⟩
  have hrowAt : output.rowAt c = row := by rw [Rows.rowAt, hrow, Option.getD_some]
  refine ⟨_, by rw [hget, if_pos hc], by rw [size_overwrite, hrowAt], fun i hi ↦ ?_⟩
  rw [hrowAt, getElem?_overwrite, Strip.size_run]
  unfold Segment.Produces Rows.columnOf Segment.reach
  constructor
  · rintro ⟨hfirst, hlast⟩
    rw [if_pos (by omega), Strip.getElem?_run, if_pos (by omega)]
    congr 2
    omega
  · intro hnone
    rw [if_neg (by omega)]

end Produce

/-! ## Windows together -/

/-- Produces windows one after another, in the same rows. -/
def produceAll (origin : Nat) (windows : List Window) (output : Rows) : Except Misuse Rows :=
  windows.foldlM (fun output w ↦ do
    let written ← f.produce w.rows (output.seenFrom origin w.segment.column) w.segment
    return { written with pad := output.pad }) output

/-- A window within the columns of another one that shows the same samples. -/
structure IsPart (whole w : Window) : Prop where
  /-- It has what it takes to produce its columns. -/
  feeds : f.Feeds w
  /-- It does not begin before the other one. -/
  first_le : (whole.segment.column : Int) - whole.segment.extra ≤ w.segment.column - w.segment.extra
  /-- It does not end after it. -/
  reach_le : w.segment.reach ≤ whole.segment.reach
  /-- The samples that it reads are the same. -/
  same : ∀ c, (f.mode c).reads → ∀ x,
    (w.segment.column : Int) - w.segment.extra - f.border ≤ x → x < w.segment.reach + f.border →
      w.rows.strip w.segment.column c x = whole.rows.strip whole.segment.column c x

/-- Windows that together have the columns of a window and show the same samples. -/
structure Splits (whole : Window) (windows : List Window) : Prop where
  /-- Each of them is a part of the whole. -/
  parts : ∀ w ∈ windows, f.IsPart whole w
  /-- Every column of the whole is produced by one of them. -/
  covers : ∀ x, whole.segment.Produces x → ∃ w ∈ windows, w.segment.Produces x

section ProduceAll

variable {f} {whole : Window} {output : Rows}

/-- A part makes its columns of the strip that the whole shows. -/
theorem IsPart.exists_made {w : Window} (h : f.IsPart whole w)
    (room : output.HasRoom whole.segment) :
    ∃ written, f.produce w.rows (output.seenFrom whole.segment.column w.segment.column)
        w.segment = .ok written ∧
      f.Made (whole.rows.strip whole.segment.column) whole.segment.column w.segment.Produces
        output { written with pad := output.pad } := by
  have hextra := room.extra_le
  have hfirst := h.first_le
  have horigin : whole.segment.column ≤ output.pad + w.segment.column := by omega
  obtain ⟨written, hwritten, hmade⟩ :=
    Filter.exists_made h.feeds (room.seenFrom h.first_le h.reach_le)
  refine ⟨written, hwritten, rfl, fun c hc ↦ ?_, fun c hc row hrow ↦ ?_⟩
  · rw [Rows.get?_with_pad, hmade.other c hc, Rows.get?_seenFrom]
  · obtain ⟨made, hget, hsize, hsamples⟩ := hmade.color c hc row (by rw [Rows.get?_seenFrom, hrow])
    refine ⟨made, hget, hsize, fun i hi ↦ ?_⟩
    have hsample := hsamples i hi
    rw [Rows.columnOf_seenFrom _ horigin] at hsample
    refine ⟨fun hhas ↦ ?_, hsample.2⟩
    rw [hsample.1 hhas]
    refine congrArg some (f.onStrip_congr (fun c hreads z hz hz' ↦ ?_) hc)
    obtain ⟨hleft, hright⟩ := hhas
    exact h.same c hreads z (by omega) (by omega)

theorem exists_made_produceAll {windows : List Window} (parts : ∀ w ∈ windows, f.IsPart whole w)
    (room : output.HasRoom whole.segment) :
    ∃ together, f.produceAll whole.segment.column windows output = .ok together ∧
      f.Made (whole.rows.strip whole.segment.column) whole.segment.column
        (fun x ↦ ∃ w ∈ windows, w.segment.Produces x) output together := by
  induction windows generalizing output with
  | nil => exact ⟨output, rfl, (Made.refl f _ _ output).congr (by simp)⟩
  | cons w rest ih =>
    obtain ⟨hpart, hparts⟩ := List.forall_mem_cons.1 parts
    obtain ⟨written, hwritten, hmade⟩ := hpart.exists_made room
    obtain ⟨together, htogether, hrest⟩ := ih hparts (hmade.hasRoom room)
    refine ⟨together, ?_, (hmade.trans hrest).congr (by simp)⟩
    rw [produceAll, List.foldlM_cons, hwritten]
    exact htogether

/-- Windows that split a window leave what it leaves. -/
theorem get?_produceAll {windows : List Window} {written : Rows}
    (room : output.HasRoom whole.segment) (splits : f.Splits whole windows)
    (made : f.Made (whole.rows.strip whole.segment.column) whole.segment.column
      whole.segment.Produces output written) :
    ∃ together, f.produceAll whole.segment.column windows output = .ok together ∧
      ∀ c, together.get? c = written.get? c := by
  obtain ⟨together, htogether, hall⟩ := exists_made_produceAll splits.parts room
  refine ⟨together, htogether, fun c ↦ ?_⟩
  refine (hall.congr fun x ↦ ⟨?_, splits.covers x⟩).get?_eq room made c
  rintro ⟨w, hmem, hfirst, hlast⟩
  have hpart := splits.parts w hmem
  have hbegin := hpart.first_le
  have hend := hpart.reach_le
  exact ⟨by omega, by omega⟩

/-- Segments that a window is cut into one after another split it, each seen from its own first
column. -/
theorem splits_cut {lengths : List Nat} (feeds : f.Feeds whole) (some : lengths ≠ [])
    (sum : lengths.sum = whole.segment.length) :
    f.Splits whole ((whole.segment.cut lengths).map fun piece ↦
      ⟨whole.rows.seenFrom whole.segment.column piece.column, piece⟩) := by
  have hpad := feeds.extra_le
  refine ⟨List.forall_mem_map.2 fun piece hpiece ↦ ?_, fun x hx ↦ ?_⟩
  · obtain ⟨hextra, hfirst, hlast⟩ := Segment.within_of_mem_cutFrom hpiece
    refine ⟨⟨by simp only [Rows.seenFrom]; omega, fun c hc ↦ ?_⟩, by simp only; omega,
      by simp only [Segment.reach]; omega, fun c _ x _ _ ↦ ?_⟩
    · obtain ⟨row, hrow, hsize⟩ := feeds.exists_row c hc
      exact ⟨row, hrow, by simp only [Rows.seenFrom]; omega⟩
    · rw [Rows.strip_seenFrom _ (by omega)]
  · obtain ⟨hfirst, hlast⟩ := hx
    unfold Segment.reach at hlast
    obtain ⟨piece, hmem, hpiece⟩ :=
      Segment.exists_mem_cutFrom some hfirst (by rw [sum]; exact_mod_cast hlast)
    exact ⟨_, List.mem_map_of_mem hmem, hpiece⟩

/-- A filter that is handed a window, whatever its length, its extra samples and the paddings of its
rows, comes to its end: every column of the window has in every color what the filter makes of the
samples that it was shown, and nothing else changes.  The same is left, sample for sample, by any
windows that together have these columns and show the same samples, and so by those that it is cut
into one after another. -/
theorem produce_in_pieces (feeds : f.Feeds whole) (room : output.HasRoom whole.segment) :
    ∃ written, f.produce whole.rows output whole.segment = .ok written ∧
      f.Made (whole.rows.strip whole.segment.column) whole.segment.column whole.segment.Produces
        output written ∧
      (∀ windows, f.Splits whole windows →
        ∃ together, f.produceAll whole.segment.column windows output = .ok together ∧
          ∀ c, together.get? c = written.get? c) ∧
      ∀ lengths ≠ [], lengths.sum = whole.segment.length →
        ∃ together,
          f.produceAll whole.segment.column
            ((whole.segment.cut lengths).map fun piece ↦
              ⟨whole.rows.seenFrom whole.segment.column piece.column, piece⟩) output =
            .ok together ∧
          ∀ c, together.get? c = written.get? c := by
  obtain ⟨written, hwritten, hmade⟩ := exists_made feeds room
  exact ⟨written, hwritten, hmade, fun windows splits ↦ get?_produceAll room splits hmade,
    fun lengths some sum ↦ get?_produceAll room (splits_cut feeds some sum) hmade⟩

/-- A window of three pixels with one extra sample on either side, in rows that have more samples
than it takes: smoothed as a whole, or one pixel and then two. -/
theorem produce_in_pieces_smoothed :
    let row : Row := #[.zero, .one, .two, .one, .zero, .two, .one, .zero, .two]
    let whole : Window :=
      ⟨⟨Array.replicate 3 (some row), 3⟩, { extra := 1, length := 3, column := 5 }⟩
    let output : Rows := ⟨Array.replicate 4 (some (Array.replicate 6 .zero)), 1⟩
    let f : Filter := .smooth .standard
    ∃ written together, f.produce whole.rows output whole.segment = .ok written ∧
      f.produceAll 5 ((whole.segment.cut [1, 2]).map fun piece ↦
        ⟨whole.rows.seenFrom 5 piece.column, piece⟩) output = .ok together ∧
      ∀ c, together.get? c = written.get? c := by
  intro row whole output f
  have hfeeds : f.Feeds whole := by
    refine ⟨by decide, fun c hc ↦ ⟨row, ?_, by decide⟩⟩
    have hlt : c < 3 := by
      by_contra hge
      simp [f, mode, Smooth.mode, hge, Mode.reads] at hc
    simp [whole, Rows.get?, hlt]
  have hroom : output.HasRoom whole.segment := by
    refine ⟨by decide, fun c hc ↦ ⟨Array.replicate 6 .zero, ?_, by decide, by decide⟩⟩
    simp [output, Rows.get?, Nat.lt_succ_of_lt hc]
  obtain ⟨written, hwritten, -, -, hcut⟩ := produce_in_pieces hfeeds hroom
  obtain ⟨together, htogether, hget⟩ := hcut [1, 2] (by decide) rfl
  exact ⟨written, together, hwritten, htogether, hget⟩

end ProduceAll

end Filter

end Scanline
