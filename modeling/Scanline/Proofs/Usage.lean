import Mathlib.Algebra.Ring.Nat
import Mathlib.Data.List.Induction
import Mathlib.Tactic.ByContra
import Scanline.Proofs.Outcome
import Scanline.Stage.Usage

/-!
# What plans say

The padding of a stage is the sum of the borders from it on (`paddingOf_getD`), so it never grows
from one stage to the next.  `Plan.Describes` says what a plan has to do with the modes it was made
from: its first and last stage are the least and the greatest one that uses the channel.  One more
stage keeps it (`Plan.Describes.note`), hence every plan has it (`Plan.describes_ofModes`).

It follows that a plan provides for every stage (`Plan.Describes.provides`): no stage reads further
beside a row than was loaded, or than the last stage before it that changed the channel had to
write.
-/

namespace Scanline

/-! ## Padding -/

@[simp] theorem length_paddingOf (borders : List Nat) :
    (paddingOf borders).length = borders.length + 1 := by
  induction borders with
  | nil => rfl
  | cons border rest ih => simp [paddingOf, ih]

/-- The padding of a stage is the sum of the borders from that stage on. -/
theorem paddingOf_getD (borders : List Nat) (i : Nat) :
    (paddingOf borders)[i]?.getD 0 = (borders.drop i).sum := by
  induction borders generalizing i with
  | nil => cases i <;> simp [paddingOf]
  | cons border rest ih =>
    cases i with
    | zero =>
      have h := ih 0
      rw [← List.head?_eq_getElem?, List.drop_zero] at h
      simp only [paddingOf, List.headD_eq_head?_getD, h, Nat.add_comm]
      rfl
    | succ i => simpa [paddingOf] using ih i

theorem paddingOf_antitone (borders : List Nat) {i j : Nat} (h : i ≤ j) :
    (paddingOf borders)[j]?.getD 0 ≤ (paddingOf borders)[i]?.getD 0 := by
  obtain ⟨k, rfl⟩ := Nat.exists_eq_add_of_le h
  have hsplit := congrArg List.sum (List.take_append_drop k (borders.drop i))
  rw [List.sum_append, List.drop_drop] at hsplit
  rw [paddingOf_getD, paddingOf_getD]
  omega

theorem paddingOf_eq_add {borders : List Nat} {i border : Nat} (h : borders[i]? = some border) :
    (paddingOf borders)[i]?.getD 0 = border + (paddingOf borders)[i + 1]?.getD 0 := by
  obtain ⟨hi, rfl⟩ := List.getElem?_eq_some_iff.1 h
  rw [paddingOf_getD, paddingOf_getD, List.drop_eq_getElem_cons hi, List.sum_cons]

theorem headD_paddingOf (borders : List Nat) : (paddingOf borders).headD 0 = borders.sum := by
  have h := paddingOf_getD borders 0
  rwa [List.drop_zero, ← List.head?_eq_getElem?, ← List.headD_eq_head?_getD] at h

/-- Borders that add up to a size have a padding. -/
theorem sizedPadding_of_lt {borders : List Nat} (h : borders.sum < Size.bound) :
    sizedPadding borders = .ok (paddingOf borders) := by
  induction borders with
  | nil => rfl
  | cons border rest ih =>
    rw [List.sum_cons] at h
    have hsum : (paddingOf rest).headD 0 + border < Size.bound := by
      rw [headD_paddingOf]
      omega
    rw [sizedPadding, ih (by omega), paddingOf]
    simp only [bind, Except.bind, Size.ofNat_of_lt hsum]
    rfl

/-- Other borders overflow at the last stage from which on their sum is no size. -/
theorem sizedPadding_of_le {borders : List Nat} (h : Size.bound ≤ borders.sum) :
    sizedPadding borders = .error .overflow := by
  induction borders with
  | nil => exact absurd h (by decide)
  | cons border rest ih =>
    rw [sizedPadding]
    rcases Nat.lt_or_ge rest.sum Size.bound with hlt | hge
    · rw [List.sum_cons] at h
      have hsum : Size.bound ≤ (paddingOf rest).headD 0 + border := by
        rw [headD_paddingOf]
        omega
      rw [sizedPadding_of_lt hlt]
      simp only [bind, Except.bind, Size.ofNat_of_le hsum]
    · rw [ih hge]
      rfl

/-- How far stages with the given borders read beside a row. -/
structure Pads (borders padding : List Nat) : Prop where
  /-- There is one entry for each stage and one after the last. -/
  length_eq : padding.length = borders.length + 1
  /-- Each is the sum of the borders from its stage on. -/
  getElem?_eq : ∀ i ≤ borders.length, padding[i]? = some (borders.drop i).sum
  /-- They never grow from one stage to the next. -/
  antitone : ∀ i j : Nat, i ≤ j → padding[j]?.getD 0 ≤ padding[i]?.getD 0

/-- The padding of borders is how far their stages read. -/
theorem pads_paddingOf (borders : List Nat) : Pads borders (paddingOf borders) where
  length_eq := length_paddingOf borders
  getElem?_eq i hi := by
    have hlt : i < (paddingOf borders).length := by rw [length_paddingOf]; omega
    have h := paddingOf_getD borders i
    rw [List.getElem?_eq_getElem hlt, Option.getD_some] at h
    rw [List.getElem?_eq_getElem hlt, h]
  antitone _ _ := paddingOf_antitone borders

/-! ## Plans -/

/-- Whether the stage with number `i` uses the channel. -/
def UsedAt (modes : List Mode) (i : Nat) : Prop := ∃ mode, modes[i]? = some mode ∧ mode.reads

theorem UsedAt.lt {modes : List Mode} {i : Nat} (h : UsedAt modes i) : i < modes.length := by
  obtain ⟨_, hm, _⟩ := h
  exact (List.getElem?_eq_some_iff.1 hm).1

theorem usedAt_append_singleton {modes : List Mode} {mode : Mode} {i : Nat} :
    UsedAt (modes ++ [mode]) i ↔ UsedAt modes i ∨ i = modes.length ∧ mode.reads := by
  unfold UsedAt
  rcases Nat.lt_trichotomy i modes.length with h | h | h
  · rw [List.getElem?_append_left h]
    simp [Nat.ne_of_lt h]
  · subst h
    simp
  · rw [List.getElem?_eq_none (by simp; omega), List.getElem?_eq_none (by omega)]
    simp
    omega

theorem reads_of_changes {mode : Mode} (h : mode.changes) : mode.reads := by
  cases mode <;> simp_all [Mode.reads, Mode.changes]

/-- Whether the stage with number `i` changes the channel. -/
def ChangedAt (modes : List Mode) (i : Nat) : Prop := ∃ mode, modes[i]? = some mode ∧ mode.changes

/-- Stage `j` is the last before stage `i` that changes the channel. -/
structure LastChange (modes : List Mode) (j i : Nat) : Prop where
  /-- It changes the channel. -/
  changed : ChangedAt modes j
  /-- It comes before. -/
  lt : j < i
  /-- No stage in between changes the channel. -/
  unchanged : ∀ k, j < k → k < i → ¬ChangedAt modes k

theorem lastChange_succ_of_changed {modes : List Mode} {i j : Nat} (h : ChangedAt modes i) :
    LastChange modes j (i + 1) ↔ j = i := by
  constructor
  · intro last
    have hlt := last.lt
    by_contra hne
    exact last.unchanged i (by omega) (by omega) h
  · rintro rfl
    exact ⟨h, by omega, fun k hk hk' ↦ by omega⟩

theorem lastChange_succ_of_unchanged {modes : List Mode} {i j : Nat} (h : ¬ChangedAt modes i) :
    LastChange modes j (i + 1) ↔ LastChange modes j i := by
  constructor
  · intro last
    have hne : j ≠ i := by
      rintro rfl
      exact h last.changed
    have hlt := last.lt
    exact ⟨last.changed, by omega, fun k hk hk' ↦ last.unchanged k hk (by omega)⟩
  · intro last
    refine ⟨last.changed, Nat.lt_succ_of_lt last.lt, fun k hk hk' ↦ ?_⟩
    rcases Nat.lt_succ_iff_lt_or_eq.1 hk' with hki | rfl
    · exact last.unchanged k hk hki
    · exact h

/-- Either no stage has changed the channel, or there is a last one that did. -/
theorem unchanged_or_lastChange (modes : List Mode) (i : Nat) :
    (∀ j < i, ¬ChangedAt modes j) ∨ ∃ j, LastChange modes j i := by
  induction i with
  | zero => exact .inl fun j hj ↦ absurd hj (Nat.not_lt_zero _)
  | succ i ih =>
    by_cases hchanged : ChangedAt modes i
    · exact .inr ⟨i, (lastChange_succ_of_changed hchanged).2 rfl⟩
    · rcases ih with hnone | ⟨j, last⟩
      · refine .inl fun j hj ↦ ?_
        rcases Nat.lt_succ_iff_lt_or_eq.1 hj with hji | rfl
        · exact hnone j hji
        · exact hchanged
      · exact .inr ⟨j, (lastChange_succ_of_unchanged hchanged).2 last⟩

namespace Plan

/-- What a plan says about the modes in which the stages use a channel. -/
structure Describes (plan : Plan) (padding modes : _) : Prop where
  /-- The first stage is the least one that uses the channel. -/
  first_iff : ∀ i, plan.first = some i ↔ UsedAt modes i ∧ ∀ j < i, ¬UsedAt modes j
  /-- The last stage is the greatest one that uses the channel. -/
  last_iff : ∀ i, plan.last = some i ↔ UsedAt modes i ∧ ∀ j, i < j → ¬UsedAt modes j
  /-- The channel counts as changed when a stage changes it. -/
  changed_iff : plan.changed = true ↔ ∃ mode ∈ modes, mode.changes
  /-- The border is the padding of the first stage. -/
  border_eq : ∀ i, plan.first = some i → plan.border = (padding : List Nat)[i]?.getD 0

namespace Describes

variable {plan : Plan} {padding : List Nat} {modes : List Mode}

theorem not_usedAt (h : plan.Describes padding modes) (none : plan.first = none) (i : Nat) :
    ¬UsedAt modes i := by
  induction i using Nat.strongRecOn with
  | ind i ih =>
    intro used
    have := (h.first_iff i).2 ⟨used, ih⟩
    simp [none] at this

/-- Every use lies between the first and the last one. -/
theorem exists_bounds (h : plan.Describes padding modes) {i : Nat} (used : UsedAt modes i) :
    ∃ first last, plan.first = some first ∧ plan.last = some last ∧ first ≤ i ∧ i ≤ last := by
  cases hfirst : plan.first with
  | none => exact absurd used (h.not_usedAt hfirst i)
  | some first =>
    have hle : first ≤ i := by
      by_contra hlt
      exact ((h.first_iff first).1 hfirst).2 i (by omega) used
    -- the greatest use exists because only stages that are there can be uses
    have hlast : ∃ last, UsedAt modes last ∧ ∀ j, last < j → ¬UsedAt modes j := by
      by_contra hno
      have hup : ∀ k, ∃ j, k ≤ j ∧ UsedAt modes j := fun k ↦ by
        induction k with
        | zero => exact ⟨i, by omega, used⟩
        | succ k ih =>
          obtain ⟨j, hj, huse⟩ := ih
          by_contra hnone
          exact hno ⟨j, huse, fun l hl hlu ↦ hnone ⟨l, by omega, hlu⟩⟩
      obtain ⟨j, hj, huse⟩ := hup modes.length
      exact absurd huse.lt (by omega)
    obtain ⟨last, hl⟩ := hlast
    refine ⟨first, last, rfl, (h.last_iff last).2 hl, hle, ?_⟩
    by_contra hlt
    exact hl.2 i (by omega) used

theorem spans_of_usedAt (h : plan.Describes padding modes) {i : Nat} (used : UsedAt modes i) :
    plan.spans i = true := by
  obtain ⟨first, last, hfirst, hlast, hle, hge⟩ := h.exists_bounds used
  simp [spans, hfirst, hlast, hle, hge]

/-- A stage that does not use a channel leaves its plan in line with the modes. -/
theorem append_of_unread (h : plan.Describes padding modes) {mode : Mode}
    (hreads : mode.reads = false) : plan.Describes padding (modes ++ [mode]) := by
  have hchanges : mode.changes = false := by cases mode <;> simp_all [Mode.reads, Mode.changes]
  have hused : ∀ i, UsedAt (modes ++ [mode]) i ↔ UsedAt modes i := by
    intro i
    simp [usedAt_append_singleton, hreads]
  constructor
  · intro i
    simp only [hused, h.first_iff]
  · intro i
    simp only [hused, h.last_iff]
  · simp [h.changed_iff, or_and_right, exists_or, hchanges]
  · exact h.border_eq

/-- The first stage that uses a channel is the one that was so before, or the one after all of
these. -/
theorem first_append_iff (h : plan.Describes padding modes) {i : Nat} :
    plan.first.getD modes.length = i ↔
      (UsedAt modes i ∨ i = modes.length) ∧ ∀ j < i, ¬(UsedAt modes j ∨ j = modes.length) := by
  cases hfirst : plan.first with
  | none =>
    have hnone := h.not_usedAt hfirst
    simp only [hnone, Option.getD_none, false_or]
    constructor
    · rintro rfl
      exact ⟨rfl, fun j hj ↦ by omega⟩
    · exact fun hi ↦ hi.1.symm
  | some first =>
    obtain ⟨hfirstUsed, hleast⟩ := (h.first_iff first).1 hfirst
    have hlt := hfirstUsed.lt
    simp only [Option.getD_some]
    constructor
    · rintro rfl
      exact ⟨.inl hfirstUsed, fun j hj hor ↦ hor.elim (hleast j hj) (by omega)⟩
    · rintro ⟨hi, hmin⟩
      have hle : ¬first < i := fun hfi ↦ hmin first hfi (.inl hfirstUsed)
      have hge : ¬i < first := fun hif ↦ hi.elim (hleast i hif) (by omega)
      omega

/-- The last stage that uses a channel is the one after all before. -/
theorem last_append_iff {i : Nat} :
    modes.length = i ↔
      (UsedAt modes i ∨ i = modes.length) ∧
        ∀ j, i < j → ¬(UsedAt modes j ∨ j = modes.length) := by
  constructor
  · rintro rfl
    exact ⟨.inr rfl, fun j hj hor ↦ hor.elim (fun hu ↦ by have := hu.lt; omega) (by omega)⟩
  · rintro ⟨hi | rfl, hmax⟩
    · exact absurd (.inr rfl) (hmax modes.length hi.lt)
    · rfl

/-- One more stage keeps a plan in line with the modes. -/
theorem note (h : plan.Describes padding modes) (mode : Mode) :
    (plan.note modes.length (padding[modes.length]?.getD 0) mode).Describes padding
      (modes ++ [mode]) := by
  cases hreads : mode.reads with
  | false =>
    have hnote : plan.note modes.length (padding[modes.length]?.getD 0) mode = plan := by
      simp [Plan.note, hreads]
    rw [hnote]
    exact h.append_of_unread hreads
  | true =>
    have hused : ∀ i, UsedAt (modes ++ [mode]) i ↔ UsedAt modes i ∨ i = modes.length := by
      intro i
      simp [usedAt_append_singleton, hreads]
    constructor
    · intro i
      simp only [Plan.note, hreads, if_true, Option.some.injEq, hused]
      exact h.first_append_iff
    · intro i
      simp only [Plan.note, hreads, if_true, Option.some.injEq, hused]
      exact last_append_iff
    · simp only [Plan.note, hreads, if_true, Bool.or_eq_true, h.changed_iff, List.mem_append,
        List.mem_singleton, or_and_right, exists_or, exists_eq_left]
    · intro i hi
      simp only [Plan.note, hreads, if_true, Option.some.injEq] at hi ⊢
      cases hfirst : plan.first with
      | none =>
        rw [hfirst, Option.getD_none] at hi
        simp [hi]
      | some first =>
        rw [hfirst, Option.getD_some] at hi
        subst hi
        simpa using h.border_eq first hfirst

end Describes

theorem describes_nil (padding : List Nat) : ({} : Plan).Describes padding [] := by
  constructor <;> simp [UsedAt]

/-- Taking account of one more stage is done last. -/
theorem noteAll_append_singleton (plan : Plan) (stage : Nat) {padding : List Nat}
    {modes : List Mode} (mode : Mode) (h : modes.length < padding.length) :
    noteAll plan stage padding (modes ++ [mode]) =
      (noteAll plan stage padding modes).note (stage + modes.length)
        (padding[modes.length]?.getD 0) mode := by
  induction modes generalizing plan stage padding with
  | nil =>
    cases padding with
    | nil => simp at h
    | cons pad pads => cases pads <;> simp [noteAll]
  | cons first rest ih =>
    cases padding with
    | nil => simp at h
    | cons pad pads =>
      have h' : rest.length < pads.length := by simpa using h
      simp only [List.cons_append, noteAll, List.length_cons, List.getElem?_cons_succ]
      rw [ih _ _ h', Nat.add_right_comm, Nat.add_assoc stage]

/-- The plan made from the modes of all stages describes them. -/
theorem describes_ofModes {padding : List Nat} {modes : List Mode}
    (h : modes.length ≤ padding.length) : (ofModes padding modes).Describes padding modes := by
  induction modes using List.reverseRecOn with
  | nil => cases padding <;> exact describes_nil _
  | append_singleton modes mode ih =>
    have hlt : modes.length < padding.length := by
      rw [List.length_append, List.length_singleton] at h
      omega
    rw [ofModes, noteAll_append_singleton _ _ mode hlt, Nat.zero_add]
    exact (ih (Nat.le_of_lt hlt)).note mode

end Plan

/-- A plan by which every stage that uses the channel finds the samples that it reads. -/
structure Plan.Provides (plan : Plan) (padding : List Nat) (modes : List Mode) : Prop where
  /-- There is a first stage unless no stage uses the channel. -/
  first_eq_none_iff : plan.first = none ↔ ∀ i, ¬UsedAt modes i
  /-- There is a last stage unless no stage uses the channel. -/
  last_eq_none_iff : plan.last = none ↔ ∀ i, ¬UsedAt modes i
  /-- Every use lies in the span of the plan. -/
  spans : ∀ i, UsedAt modes i → plan.spans i
  /-- As many samples are loaded as any use reads. -/
  le_border : ∀ i, UsedAt modes i → padding[i]?.getD 0 ≤ plan.border
  /-- As many are written by the last stage before it that changes the channel. -/
  le_padding : ∀ i j, LastChange modes j i → padding[i]?.getD 0 ≤ padding[j + 1]?.getD 0

/-- A plan that describes its modes provides for them. -/
theorem Plan.Describes.provides {plan : Plan} {borders : List Nat} {modes : List Mode}
    (h : plan.Describes (paddingOf borders) modes) : plan.Provides (paddingOf borders) modes where
  first_eq_none_iff := by
    refine ⟨h.not_usedAt, fun unused ↦ ?_⟩
    cases hfirst : plan.first with
    | none => rfl
    | some first => exact absurd ((h.first_iff first).1 hfirst).1 (unused first)
  last_eq_none_iff := by
    refine ⟨fun hnone i used ↦ ?_, fun unused ↦ ?_⟩
    · obtain ⟨_, last, -, hlast, -⟩ := h.exists_bounds used
      rw [hnone] at hlast
      cases hlast
    · cases hlast : plan.last with
      | none => rfl
      | some last => exact absurd ((h.last_iff last).1 hlast).1 (unused last)
  spans _ := h.spans_of_usedAt
  le_border i used := by
    obtain ⟨first, -, hfirst, -, hle, -⟩ := h.exists_bounds used
    rw [h.border_eq first hfirst]
    exact paddingOf_antitone borders hle
  le_padding _ _ last := paddingOf_antitone borders last.lt

end Scanline
