import Scanline.Outcome

/-!
# Rows handed to a stage

A stage works on a `Segment`: a run of pixels of one image row, and some further ones to either
side.  It receives one row of samples for every channel it uses; the sample of the segment's
first pixel sits at the same offset, the padding, in all of them.

Reading a row that was not handed over, or beyond its ends, is a misuse.
-/

namespace Scanline

/-- Where a run of pixels sits in the frame. -/
structure Segment where
  /-- Further samples to produce on each side. -/
  extra : Nat := 0
  /-- The number of pixels. -/
  length : Nat
  /-- The column of the first pixel. -/
  column : Nat := 0
  /-- The row. -/
  row : Nat := 0
  /-- The worker that deals with the run. -/
  worker : Nat := 0
deriving DecidableEq, Repr

namespace Segment

variable (s : Segment)

/-- The number of samples to produce, extra ones included. -/
def produced : Nat := s.length + 2 * s.extra

/-- One past the last column that the segment and its extra samples reach. -/
def reach : Nat := s.column + s.length + s.extra

end Segment

namespace Row

/-- The samples of a row from `start` on, `length` of them. -/
def slice (row : Row) (start length : Nat) : Except Misuse Row :=
  if start + length ≤ row.size then .ok (row.extract start (start + length))
  else .error .outOfRange

end Row

/-- Overwrites elements one after another, from `start` on. -/
def overwriteFrom {α : Type} (start : Nat) : List α → Array α → Array α
  | [], target => target
  | a :: rest, target => overwriteFrom (start + 1) rest (target.setIfInBounds start a)

/-- Overwrites the elements from `start` on; what would fall outside is dropped. -/
def overwrite {α : Type} (target : Array α) (start : Nat) (source : Array α) : Array α :=
  overwriteFrom start source.toList target

/-- Rows of samples by channel, some of them absent. -/
structure Rows where
  /-- The row of each channel. -/
  slots : Array (Option Row)
  /-- The offset of the first pixel in every row. -/
  pad : Nat
deriving DecidableEq, Repr

namespace Rows

/-- No rows at all. -/
def none : Rows := ⟨#[], 0⟩

/-- The row of a channel, if it was handed over. -/
def get? (r : Rows) (channel : Nat) : Option Row := r.slots[channel]?.join

/-- The row of a channel that is read. -/
def row (r : Rows) (channel : Nat) : Except Misuse Row :=
  match r.get? channel with
  | some row => .ok row
  | Option.none => .error (.notDelivered channel)

/-- The row of a channel that is written. -/
def writable (r : Rows) (channel : Nat) : Except Misuse Row :=
  match r.get? channel with
  | some row => .ok row
  | Option.none => .error (.notWritable channel)

/-- Writes samples into the row of a channel, from `start` on. -/
def write (r : Rows) (channel start : Nat) (samples : Row) : Except Misuse Rows := do
  let row ← r.writable channel
  if start + samples.size ≤ row.size then
    return { r with slots := r.slots.set! channel (some (overwrite row start samples)) }
  else .error .outOfRange

end Rows

/-! ### Overwriting -/

section Overwrite

variable {α : Type}

@[simp] theorem size_overwriteFrom (start : Nat) (source : List α) (target : Array α) :
    (overwriteFrom start source target).size = target.size := by
  induction source generalizing start target with
  | nil => rfl
  | cons a rest ih => simp [overwriteFrom, ih]

/-- Elements within the range are new, all others old. -/
theorem getElem?_overwriteFrom (start : Nat) (source : List α) (target : Array α) (i : Nat) :
    (overwriteFrom start source target)[i]? =
      if start ≤ i ∧ i < start + source.length ∧ i < target.size then source[i - start]?
      else target[i]? := by
  induction source generalizing start target with
  | nil =>
    have outside : ¬(start ≤ i ∧ i < start + ([] : List α).length ∧ i < target.size) := by
      simp only [List.length_nil]; omega
    rw [if_neg outside, overwriteFrom]
  | cons a rest ih =>
    rw [overwriteFrom, ih, Array.size_setIfInBounds, List.length_cons]
    rcases Nat.lt_trichotomy i start with h | h | h
    · rw [if_neg (by omega), if_neg (by omega), Array.getElem?_setIfInBounds_ne (by omega)]
    · subst h
      rw [if_neg (by omega)]
      by_cases inside : i < target.size
      · rw [if_pos (by omega), Array.getElem?_setIfInBounds_self_of_lt inside]
        simp
      · rw [if_neg (by omega), Array.getElem?_eq_none (by simpa using Nat.le_of_not_lt inside),
          Array.getElem?_eq_none (Nat.le_of_not_lt inside)]
    · have tail : (a :: rest)[i - start]? = rest[i - (start + 1)]? := by
        rw [show i - start = i - (start + 1) + 1 by omega, List.getElem?_cons_succ]
      rw [tail, Array.getElem?_setIfInBounds_ne (by omega)]
      by_cases inside : i < start + (rest.length + 1) ∧ i < target.size
      · rw [if_pos (by omega), if_pos (by omega)]
      · rw [if_neg (by omega), if_neg (by omega)]

@[simp] theorem size_overwrite (target : Array α) (start : Nat) (source : Array α) :
    (overwrite target start source).size = target.size := by
  simp [overwrite]

theorem getElem?_overwrite (target : Array α) (start : Nat) (source : Array α) (i : Nat) :
    (overwrite target start source)[i]? =
      if start ≤ i ∧ i < start + source.size ∧ i < target.size then source[i - start]?
      else target[i]? := by
  simp [overwrite, getElem?_overwriteFrom]

end Overwrite

end Scanline
