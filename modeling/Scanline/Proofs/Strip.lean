import Scanline.Frame.Plane
import Scanline.Proofs.Overwrite
import Scanline.Proofs.Reflection
import Scanline.Stage.Filter

/-!
# Filters on rows without ends

A `Strip` is one row of a frame with all its channels, extended to every column.  On strips a
filter needs no borders and no tiles: `Filter.onStrip` is what it does to one, and
`Strip.through` what a list of filters does one after another.  This is the reference that runs of
a pipeline are compared with.

`Filter.produce_run` ties the two: handed windows of a strip that reach one border further than
what is asked for, a filter makes windows of the strip that it makes of that strip.
-/

namespace Scanline

/-- The samples of every channel at every column of one row. -/
abbrev Strip := Nat → Int → Sample

namespace Strip

/-- Row `y` of the planes, mirrored at the edges of the frame; zero in channels that are not
there. -/
def ofPlanes (input : List Plane) (y : Nat) : Strip := fun c x ↦
  match input[c]? with
  | some plane => (plane.samplesOf y).extended x
  | none => .zero

/-- The samples of channel `c` from column `start` on, `length` of them. -/
def run (s : Strip) (c : Nat) (start : Int) (length : Nat) : Row :=
  Array.ofFn fun i : Fin length ↦ s c (start + i)

variable (s : Strip) (c : Nat) (start : Int) (length : Nat)

@[simp] theorem size_run : (s.run c start length).size = length := by simp [run]

@[simp] theorem getElem_run (i : Nat) (h : i < (s.run c start length).size) :
    (s.run c start length)[i] = s c (start + i) := by simp [run]

theorem getElem?_run (i : Nat) :
    (s.run c start length)[i]? = if i < length then some (s c (start + i)) else none := by
  rw [run, Array.getElem?_ofFn]
  rfl

theorem extract_run {first stop : Nat} (h : stop ≤ length) :
    (s.run c start length).extract first stop = s.run c (start + first) (stop - first) := by
  apply Array.ext_getElem?
  intro i
  rw [Array.getElem?_extract, getElem?_run, getElem?_run, size_run]
  by_cases inside : i < stop - first
  · rw [if_pos (by omega), if_pos (by omega), if_pos inside, Nat.cast_add, add_assoc]
  · rw [if_neg (by omega), if_neg inside]

theorem run_congr {s t : Strip} {c : Nat} (h : s c = t c) : s.run c = t.run c := by
  funext start length
  simp only [run, h]

end Strip

theorem Rows.exists_strip (r : Rows) (start : Int) :
    ∃ s : Strip, ∀ c row, r.get? c = some row → row = s.run c start row.size := by
  refine ⟨fun c x ↦ ((r.get? c).getD #[])[(x - start).toNat]?.getD .zero, fun c row h ↦ ?_⟩
  refine Array.ext (by simp) ?_
  intro i hi _
  rw [Strip.getElem_run, h]
  simp [hi]

/-! ## What filters do to strips -/

/-- What a filter does to a row without ends.  Premultiplication takes alpha at the same column;
smoothing weighs a sample and its two neighbors; only colors change. -/
def Filter.onStrip : Filter → Strip → Strip
  | .premultiply f, s => fun c x ↦ if c < 3 then s c x * s f.alpha x else s c x
  | .smooth f, s => fun c x ↦
    if c < 3 then f.center * s c x + f.side * (s c (x - 1) + s c (x + 1)) else s c x

/-- What a list of filters, one after another, makes of a strip. -/
def Strip.through (filters : List Filter) (s : Strip) : Strip :=
  filters.foldl (fun s f ↦ f.onStrip s) s

@[simp] theorem Strip.through_nil (s : Strip) : s.through [] = s := rfl

theorem Strip.through_append_singleton (filters : List Filter) (f : Filter) (s : Strip) :
    s.through (filters ++ [f]) = f.onStrip (s.through filters) := by
  simp [Strip.through]

theorem Filter.onStrip_of_unchanged {f : Filter} {c : Nat} (h : (f.mode c).changes = false)
    (s : Strip) : f.onStrip s c = s c := by
  cases f with
  | premultiply f =>
    have hc : ¬c < 3 := fun hc ↦ by
      simp [Filter.mode, Premultiply.mode, hc, Mode.changes] at h
    simp [onStrip, hc]
  | smooth f =>
    have hc : ¬c < 3 := fun hc ↦ by simp [Filter.mode, Smooth.mode, hc, Mode.changes] at h
    simp [onStrip, hc]

theorem Filter.changes_iff (f : Filter) (c : Nat) : (f.mode c).changes = true ↔ c < 3 := by
  cases f <;> simp only [Filter.mode, Premultiply.mode, Smooth.mode] <;> split_ifs <;>
    simp_all [Mode.changes]

end Scanline
