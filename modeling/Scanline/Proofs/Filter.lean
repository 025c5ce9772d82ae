import Scanline.Proofs.Outcome
import Scanline.Proofs.Strip
import Scanline.Proofs.Usage

/-!
# What filters write

A filter that is handed the rows it asked for writes every color and nothing else
(`Premultiply.produce_eq`, `Smooth.produce_eq`, for windows and paddings of any size).  In terms of
strips it writes windows of the strip that it makes (`Filter.produce_run`).  Whatever it is handed,
it hands back all rows with the lengths they had (`Filter.keptIn_produce`).
-/

namespace Scanline

namespace Rows

theorem row_of_get? {r : Rows} {c : Nat} {row : Row} (h : r.get? c = some row) :
    r.row c = .ok row := by simp [Rows.row, h]

theorem ext_get? {r s : Rows} (pad : r.pad = s.pad) (size : r.slots.size = s.slots.size)
    (get : ∀ c, r.get? c = s.get? c) : r = s := by
  have hslots : r.slots = s.slots := by
    refine Array.ext size fun c hr hs ↦ ?_
    have h := get c
    rwa [get?, get?, Array.getElem?_eq_getElem hr, Array.getElem?_eq_getElem hs, Option.join_some,
      Option.join_some] at h
  obtain ⟨slots, pad⟩ := r
  cases hslots
  cases pad
  rfl

/-- Writing into a row that has room changes that row only. -/
theorem write_eq {r : Rows} {channel start : Nat} {samples row : Row}
    (h : r.get? channel = some row) (room : start + samples.size ≤ row.size) :
    ∃ written, r.write channel start samples = .ok written ∧ written.pad = r.pad ∧
      ∀ c, written.get? c =
        if c = channel then some (overwrite row start samples) else r.get? c := by
  have hslot : r.slots[channel]? = some (some row) := by
    simpa [Rows.get?, Option.join_eq_some_iff] using h
  have hlt : channel < r.slots.size := (Array.getElem?_eq_some_iff.1 hslot).1
  refine ⟨{ r with slots := r.slots.set! channel (some (overwrite row start samples)) }, ?_, rfl,
    fun c ↦ ?_⟩
  · simp only [Rows.write, Rows.writable, h, bind, Except.bind, if_pos room]
    rfl
  · simp only [Rows.get?, Array.set!_eq_setIfInBounds, Array.getElem?_setIfInBounds]
    by_cases hc : c = channel
    · subst hc
      simp [hlt]
    · simp [hc, Ne.symm hc]

/-- Every color is overwritten with what was made for it, and no other row is. -/
theorem writeColors_eq {output : Rows} {target : Nat} {make : Nat → Except Misuse Row}
    {made rows : Nat → Row} (hmake : ∀ c < 3, make c = .ok (made c))
    (hrows : ∀ c < 3, output.get? c = some (rows c))
    (room : ∀ c < 3, target + (made c).size ≤ (rows c).size) :
    ∃ written, output.writeColors target make = .ok written ∧ written.pad = output.pad ∧
      ∀ c, written.get? c =
        if c < 3 then some (overwrite (rows c) target (made c)) else output.get? c := by
  obtain ⟨w0, hw0, hp0, hg0⟩ := write_eq (hrows 0 (by omega)) (room 0 (by omega))
  have hrow1 : w0.get? 1 = some (rows 1) := by rw [hg0, if_neg (by omega), hrows 1 (by omega)]
  obtain ⟨w1, hw1, hp1, hg1⟩ := write_eq hrow1 (room 1 (by omega))
  have hrow2 : w1.get? 2 = some (rows 2) := by
    rw [hg1, if_neg (by omega), hg0, if_neg (by omega), hrows 2 (by omega)]
  obtain ⟨w2, hw2, hp2, hg2⟩ := write_eq hrow2 (room 2 (by omega))
  refine ⟨w2, ?_, by rw [hp2, hp1, hp0], fun c ↦ ?_⟩
  · simp [writeColors, colorChannels, hmake, hw0, hw1, hw2, bind, Except.bind, pure, Except.pure]
  · rw [hg2, hg1, hg0]
    rcases Nat.lt_or_ge c 3 with hc | hc
    · rw [if_pos hc]
      obtain rfl | rfl | rfl : c = 0 ∨ c = 1 ∨ c = 2 := by omega
      all_goals simp
    · rw [if_neg (by omega), if_neg (by omega), if_neg (by omega), if_neg (by omega)]

end Rows

theorem Row.slice_eq {row : Row} {start length : Nat} (h : start + length ≤ row.size) :
    row.slice start length = .ok (row.extract start (start + length)) := if_pos h

section Produce

variable {input output : Rows} {segment : Segment} {colors rows : Nat → Row}

/-- Premultiplication overwrites every color with its products with alpha. -/
theorem Premultiply.produce_eq (s : Premultiply) {alpha : Row}
    (bound : segment.produced < Size.bound) (hin : segment.extra ≤ input.pad)
    (hout : segment.extra ≤ output.pad) (halpha : input.get? s.alpha = some alpha)
    (alphaLong : input.pad - segment.extra + segment.produced ≤ alpha.size)
    (hcolors : ∀ c < 3, input.get? c = some (colors c))
    (long : ∀ c < 3, input.pad - segment.extra + segment.produced ≤ (colors c).size)
    (hrows : ∀ c < 3, output.get? c = some (rows c))
    (room : ∀ c < 3, output.pad - segment.extra + segment.produced ≤ (rows c).size) :
    ∃ written, s.produce input output segment = .ok written ∧ written.pad = output.pad ∧
      ∀ c, written.get? c =
        if c < 3 then
          some (overwrite (rows c) (output.pad - segment.extra)
            (apply
              ((colors c).extract (input.pad - segment.extra)
                (input.pad - segment.extra + segment.produced))
              (alpha.extract (input.pad - segment.extra)
                (input.pad - segment.extra + segment.produced))))
        else output.get? c := by
  have hlength := Size.ofNat_of_lt bound
  have hstart := Size.sub_eq_ok_iff.2 ⟨hin, rfl⟩
  have htarget := Size.sub_eq_ok_iff.2 ⟨hout, rfl⟩
  simp only [Premultiply.produce, hlength, hstart, htarget, Rows.row_of_get? halpha,
    Row.slice_eq alphaLong, bind, Except.bind]
  refine Rows.writeColors_eq (fun c hc ↦ ?_) hrows fun c hc ↦ ?_
  · simp only [Rows.row_of_get? (hcolors c hc), Row.slice_eq (long c hc)]
    rfl
  · have := room c hc
    simp only [Premultiply.apply, Array.size_zipWith, Array.size_extract]
    omega

/-- Smoothing overwrites every color with its smoothed samples. -/
theorem Smooth.produce_eq (s : Smooth) (bound : segment.produced < Size.bound)
    (hin : segment.extra + border ≤ input.pad) (hout : segment.extra ≤ output.pad)
    (hcolors : ∀ c < 3, input.get? c = some (colors c))
    (long : ∀ c < 3,
      input.pad - (segment.extra + border) + (segment.produced + 2) ≤ (colors c).size)
    (hrows : ∀ c < 3, output.get? c = some (rows c))
    (room : ∀ c < 3, output.pad - segment.extra + segment.produced ≤ (rows c).size) :
    ∃ written, s.produce input output segment = .ok written ∧ written.pad = output.pad ∧
      ∀ c, written.get? c =
        if c < 3 then
          some (overwrite (rows c) (output.pad - segment.extra)
            (s.apply
              ((colors c).extract (input.pad - (segment.extra + border))
                (input.pad - (segment.extra + border) + (segment.produced + 2)))))
        else output.get? c := by
  have hlength := Size.ofNat_of_lt bound
  have hstart := Size.sub_eq_ok_iff.2 ⟨hin, rfl⟩
  have htarget := Size.sub_eq_ok_iff.2 ⟨hout, rfl⟩
  simp only [Smooth.produce, hlength, hstart, htarget, bind, Except.bind]
  refine Rows.writeColors_eq (fun c hc ↦ ?_) hrows fun c hc ↦ ?_
  · simp only [Rows.row_of_get? (hcolors c hc), Row.slice_eq (long c hc)]
    rfl
  · have := room c hc
    simp only [Smooth.apply, Array.size_ofFn, Array.size_extract]
    omega

end Produce

theorem Filter.produce_of_bound_le {f : Filter} {input output : Rows} {segment : Segment}
    (large : Size.bound ≤ segment.produced) :
    f.produce input output segment = .error .overflow := by
  cases f with
  | premultiply f => rw [Filter.produce, Premultiply.produce, Size.ofNat_of_le large]; rfl
  | smooth f => rw [Filter.produce, Smooth.produce, Size.ofNat_of_le large]; rfl

/-! ## On strips -/

theorem Premultiply.apply_run (f : Premultiply) (s : Strip) {c : Nat} (hc : c < 3) (start : Int)
    (length : Nat) :
    apply (s.run c start length) (s.run f.alpha start length) =
      ((Filter.premultiply f).onStrip s).run c start length := by
  refine Array.ext (by simp [apply]) ?_
  intro i _ _
  simp [apply, Filter.onStrip, hc]

/-- Smoothing a run gives the run of the smoothed strip, one sample shorter on each side. -/
theorem Smooth.apply_run (f : Smooth) (s : Strip) {c : Nat} (hc : c < 3) (start : Int)
    (length : Nat) :
    f.apply (s.run c (start - 1) (length + 2)) =
      ((Filter.smooth f).onStrip s).run c start length := by
  refine Array.ext (by simp [apply]) ?_
  intro i _ _
  have hcenter : start - 1 + ((i + 1 : Nat) : Int) = start + i := by omega
  have hleft : start - 1 + (i : Int) = start + i - 1 := by omega
  have hright : start - 1 + ((i + 2 : Nat) : Int) = start + i + 1 := by omega
  simp only [apply, Array.getElem_ofFn, Strip.getElem_run, Filter.onStrip, if_pos hc, hcenter,
    hleft, hright]

section ProduceRun

variable (s : Strip) {start : Int} {input output : Rows} {segment : Segment}
  (bound : segment.produced < Size.bound) (outputPad : output.pad = segment.extra)
  (delivered : ∀ c < 3,
    input.get? c = some (s.run c (start - input.pad) (segment.length + 2 * input.pad)))
  (writable : ∀ c < 3, output.get? c = some ((output.get? c).getD #[]) ∧
    ((output.get? c).getD #[]).size = segment.produced)
include bound outputPad delivered writable

/-- Handed windows of a strip, premultiplication makes windows of the premultiplied one. -/
theorem Premultiply.produce_run (f : Premultiply) (inputPad : input.pad = segment.extra)
    (halpha : input.get? f.alpha =
      some (s.run f.alpha (start - input.pad) (segment.length + 2 * input.pad))) :
    ∃ written, f.produce input output segment = .ok written ∧ ∀ c < 3, written.get? c =
      some (((Filter.premultiply f).onStrip s).run c (start - segment.extra) segment.produced) := by
  have hspan : segment.produced = segment.length + 2 * segment.extra := rfl
  obtain ⟨written, hwritten, _, hget⟩ := f.produce_eq
    bound (by omega) (by omega) halpha (by simp; omega) delivered (by intros; simp; omega)
    (fun c hc ↦ (writable c hc).1) (fun c hc ↦ by rw [(writable c hc).2]; omega)
  refine ⟨written, hwritten, fun c hc ↦ ?_⟩
  have hzero : output.pad - segment.extra = 0 := by omega
  have hwindow : input.pad - segment.extra = 0 := by omega
  rw [hget, if_pos hc, hzero, hwindow, Strip.extract_run _ _ _ _ (by omega),
    Strip.extract_run _ _ _ _ (by omega), f.apply_run s hc, overwrite_all]
  · congr 2 <;> omega
  · rw [(writable c hc).2]
    simp

/-- Handed windows of a strip that reach one column further, smoothing makes windows of the smoothed
one. -/
theorem Smooth.produce_run (f : Smooth) (inputPad : input.pad = border + segment.extra) :
    ∃ written, f.produce input output segment = .ok written ∧ ∀ c < 3, written.get? c =
      some (((Filter.smooth f).onStrip s).run c (start - segment.extra) segment.produced) := by
  have hspan : segment.produced = segment.length + 2 * segment.extra := rfl
  have hborder : border = 1 := rfl
  obtain ⟨written, hwritten, _, hget⟩ := f.produce_eq
    bound (by omega) (by omega) delivered (by intros; simp; omega)
    (fun c hc ↦ (writable c hc).1) (fun c hc ↦ by rw [(writable c hc).2]; omega)
  refine ⟨written, hwritten, fun c hc ↦ ?_⟩
  have hzero : output.pad - segment.extra = 0 := by omega
  have hwindow : input.pad - (segment.extra + border) = 0 := by omega
  have hstart : start - input.pad + ((0 : Nat) : Int) = start - segment.extra - 1 := by omega
  have hlength : 0 + (segment.produced + 2) - 0 = segment.produced + 2 := by omega
  rw [hget, if_pos hc, hzero, hwindow, Strip.extract_run _ _ _ _ (by omega), hstart, hlength,
    f.apply_run s hc, overwrite_all]
  rw [(writable c hc).2]
  simp

end ProduceRun

/-- Handed windows of a strip that reach one border further than what is asked for, a filter
makes windows of the strip that it makes of it. -/
theorem Filter.produce_run (f : Filter) (s : Strip) {start : Int} {input output : Rows}
    {segment : Segment} (bound : segment.produced < Size.bound)
    (inputPad : input.pad = f.border + segment.extra) (outputPad : output.pad = segment.extra)
    (delivered : ∀ c, (f.mode c).reads →
      input.get? c = some (s.run c (start - input.pad) (segment.length + 2 * input.pad)))
    (writable : ∀ c, (f.mode c).changes →
      ∃ row, output.get? c = some row ∧ row.size = segment.produced) :
    ∃ written, f.produce input output segment = .ok written ∧
      ∀ c, (f.mode c).changes →
        written.get? c = some ((f.onStrip s).run c (start - segment.extra) segment.produced) := by
  have hcolors : ∀ c < 3, input.get? c =
      some (s.run c (start - input.pad) (segment.length + 2 * input.pad)) := by
    intro c hc
    exact delivered c (reads_of_changes ((f.changes_iff c).2 hc))
  have hwritable : ∀ c < 3, output.get? c = some ((output.get? c).getD #[]) ∧
      ((output.get? c).getD #[]).size = segment.produced := by
    intro c hc
    obtain ⟨row, hrow, hsize⟩ := writable c ((f.changes_iff c).2 hc)
    simp [hrow, hsize]
  simp only [Filter.changes_iff]
  cases f with
  | premultiply f =>
    have halpha : (Filter.mode (.premultiply f) f.alpha).reads := by
      simp only [Filter.mode, Premultiply.mode]
      split <;> simp [Mode.reads]
    exact f.produce_run s bound outputPad hcolors hwritable
      (by rw [inputPad]; exact Nat.zero_add _) (delivered f.alpha halpha)
  | smooth f => exact f.produce_run s bound outputPad hcolors hwritable inputPad

/-! ## What is kept -/

namespace Rows

/-- Rows that are all there, with the lengths they had. -/
def KeptIn (r s : Rows) : Prop :=
  ∀ (c : Nat) (row : Row), r.get? c = some row → ∃ new, s.get? c = some new ∧ new.size = row.size

variable {r s t : Rows}

theorem KeptIn.trans (h : r.KeptIn s) (h' : s.KeptIn t) : r.KeptIn t := fun c row hrow ↦ by
  obtain ⟨mid, hmid, hsize⟩ := h c row hrow
  obtain ⟨new, hnew, hsize'⟩ := h' c mid hmid
  exact ⟨new, hnew, hsize'.trans hsize⟩

/-- Writing keeps all rows. -/
theorem keptIn_write {channel start : Nat} {samples : Row}
    (h : r.write channel start samples = .ok s) : r.KeptIn s := by
  obtain ⟨target, htarget, hwrite⟩ := bind_eq_ok_iff.1 h
  split_ifs at hwrite with room
  have hget : r.get? channel = some target := by
    unfold writable at htarget
    split at htarget
    case h_1 there hget => cases htarget; exact hget
    case h_2 => cases htarget
  obtain ⟨written, hwritten, -, hread⟩ := write_eq hget room
  rw [h] at hwritten
  cases hwritten
  intro c row hrow
  rw [hread c]
  split_ifs with hc
  · subst hc
    rw [hget] at hrow
    cases hrow
    exact ⟨_, rfl, size_overwrite _ _ _⟩
  · exact ⟨row, hrow, rfl⟩

theorem keptIn_writeColors {target : Nat} {make : Nat → Except Misuse Row}
    (h : r.writeColors target make = .ok s) : r.KeptIn s := by
  simp only [writeColors, colorChannels, List.foldlM_cons, List.foldlM_nil, bind_eq_ok_iff] at h
  obtain ⟨r1, ⟨_, -, h0⟩, r2, ⟨_, -, h1⟩, r3, ⟨_, -, h2⟩, h⟩ := h
  cases h
  exact ((keptIn_write h0).trans (keptIn_write h1)).trans (keptIn_write h2)

end Rows

/-- A filter hands back all rows that it was to write. -/
theorem Filter.keptIn_produce {f : Filter} {input output written : Rows} {segment : Segment}
    (h : f.produce input output segment = .ok written) : output.KeptIn written := by
  cases f with
  | premultiply f =>
    simp only [Filter.produce, Premultiply.produce, bind_eq_ok_iff] at h
    obtain ⟨_, -, _, -, _, -, _, -, _, -, h⟩ := h
    exact Rows.keptIn_writeColors h
  | smooth f =>
    simp only [Filter.produce, Smooth.produce, bind_eq_ok_iff] at h
    obtain ⟨_, -, _, -, _, -, h⟩ := h
    exact Rows.keptIn_writeColors h

end Scanline
