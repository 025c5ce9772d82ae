import Scanline.Pipeline.Run
import Scanline.Proofs.Built
import Scanline.Proofs.Filter

/-!
# What a worker's rows hold

A worker's rows keep the lengths they were reserved with (`Pipeline.Shaped`), so no step finds a
window that does not fit (`windowsFit_of_shaped`), whatever the rows hold.

What they hold is said by `Pipeline.Shows`: in every channel that has been loaded for this row, the
window of the next stage is a run of the strip that this stage sees, `Pipeline.stripAt`.  Loading
keeps this and adds the channels that come into use (`shows_load`), a filter hands it on to the next
stage (`shows_takeOver`), and it makes the rows that a stage is handed those of the strip
(`rowsRead_eq_rowsOf`).
-/

namespace Scanline.Pipeline

variable (p : Pipeline)

/-- The strip that a stage sees of a row: the row of the frame without ends, after all filters
before the stage. -/
def stripAt (input : List Plane) (row stage : Nat) : Strip :=
  (Strip.ofPlanes input row).through (p.filters.take stage)

/-- The rows that a stage is handed when its channels are those of a strip. -/
def rowsOf (s : Strip) (step : Step) : Rows :=
  { slots := Array.ofFn fun c : Fin p.channels ↦
      if p.deliversAt step.stage c then
        some (s.run c (step.column - p.paddingAt step.stage)
          (step.length + 2 * p.paddingAt step.stage))
      else none
    pad := p.paddingAt step.stage }

/-- Rows with the lengths they were reserved with. -/
structure Shaped (rows : Workspace) : Prop where
  /-- There is a slot for every channel. -/
  size_eq : rows.size = p.channels
  /-- Channels in use have rows. -/
  present : ∀ c, (p.planAt c).inUse → ∃ ch, rows[c]? = some (some ch)
  /-- The front row takes a tile and the widest border on both sides. -/
  front_size : ∀ (c : Nat) (ch : RowPair), rows[c]? = some (some ch) → ch.front.size = p.rowLength
  /-- So does the back row, where there is one. -/
  back_size : ∀ (c : Nat) (ch : RowPair), rows[c]? = some (some ch) → (p.planAt c).changed →
    ch.back.size = p.rowLength

/-- A step on pixels of the frame, no more than a tile has. -/
structure InFrame (step : Step) : Prop where
  /-- It is not wider than a tile. -/
  length_le : step.length ≤ min p.tileSide p.width
  /-- It ends within the row. -/
  reach_le : step.column + step.length ≤ p.width
  /-- Its row is there. -/
  row_lt : step.row < p.height
  /-- Its stage is there. -/
  stage_le : step.stage ≤ p.filters.length

/-- Planes that fit the frame and hold all their rows. -/
structure Fed (input : List Plane) : Prop where
  /-- There is a plane for every channel. -/
  length_eq : input.length = p.channels
  /-- Every plane has the size of the frame. -/
  size_eq : ∀ plane ∈ input, plane.size = p.size
  /-- Every plane holds its rows. -/
  hasRow : ∀ plane ∈ input, ∀ y < plane.height, plane.hasRow y

/-- Rows in which every channel whose first stage is before `loaded` shows stage `stage` what it is
to see: the window is a run of its strip. -/
def Shows (input : List Plane) (step : Step) (stage loaded : Nat) (rows : Workspace) : Prop :=
  ∀ (c : Nat) (ch : RowPair) first, rows[c]? = some (some ch) →
    (p.planAt c).first = some first → first < loaded →
    p.window ch.front (p.paddingAt stage) step =
      (p.stripAt input step.row stage).run c (step.column - p.paddingAt stage)
        (step.length + 2 * p.paddingAt stage)

variable {p} {borders : List Nat} {input : List Plane} {step : Step} {rows : Workspace}

/-! ## Strips from stage to stage -/

@[simp] theorem stripAt_zero (row : Nat) :
    p.stripAt input row 0 = Strip.ofPlanes input row := by simp [stripAt]

theorem stripAt_succ {stage : Nat} {f : Filter} (h : p.filters[stage]? = some f) (row : Nat) :
    p.stripAt input row (stage + 1) = f.onStrip (p.stripAt input row stage) := by
  obtain ⟨hlt, rfl⟩ := List.getElem?_eq_some_iff.1 h
  rw [stripAt, List.take_succ_eq_append_getElem hlt, Strip.through_append_singleton, stripAt]

namespace Planned

variable (h : p.Planned)
include h

/-- A channel that no stage has used yet is still that of the frame. -/
theorem stripAt_of_unused {c stage : Nat} (row : Nat) (hstage : stage ≤ p.filters.length)
    (hc : c < p.channels) (unused : ∀ j < stage, (p.modeAt j c).reads = false) :
    p.stripAt input row stage c = Strip.ofPlanes input row c := by
  induction stage with
  | zero => rw [stripAt_zero]
  | succ stage ih =>
    have hf : p.filters[stage]? = some p.filters[stage] := List.getElem?_eq_getElem (by omega)
    have hmode : p.modeAt stage c = (p.filters[stage]).mode c :=
      h.modeAt_eq (stages_of_filter hf) hc
    have hchanges : ((p.filters[stage]).mode c).changes = false := by
      cases hch : ((p.filters[stage]).mode c).changes with
      | false => rfl
      | true =>
        have := unused stage (by omega)
        rw [hmode, reads_of_changes hch] at this
        cases this
    rw [stripAt_succ hf, Filter.onStrip_of_unchanged hchanges,
      ih (by omega) fun j hj ↦ unused j (by omega)]

theorem lt_channels {c i : Nat} (hi : (p.modeAt i c).reads) : c < p.channels := by
  by_contra hge
  rw [h.modeAt_of_ge (by omega)] at hi
  simp [Mode.reads] at hi

end Planned

/-! ## Shapes -/

theorem Shaped.lt_channels {slot : Option RowPair} (hrows : p.Shaped rows) {c : Nat}
    (hslot : rows[c]? = some slot) : c < p.channels := by
  have := (Array.getElem?_eq_some_iff.1 hslot).1
  rwa [hrows.size_eq] at this

/-- A row of a worker holds the windows of every step that is not wider than a tile. -/
theorem Scheduled.holdsWindow {row : Row} (h : p.Scheduled borders)
    (hlen : step.length ≤ min p.tileSide p.width) (hrow : row.size = p.rowLength) (stage : Nat) :
    p.holdsWindow row (p.paddingAt stage) step := by
  have hpad := h.paddingAt_antitone (Nat.zero_le stage)
  simp only [Pipeline.holdsWindow, hrow, rowLength, Bool.and_eq_true, decide_eq_true_eq]
  omega

/-- No step that is not wider than a tile finds a window that does not fit. -/
theorem windowsFit_of_shaped (h : p.Scheduled borders) (hrows : p.Shaped rows)
    (hlen : step.length ≤ min p.tileSide p.width) : p.windowsFit step rows = true := by
  apply Array.all_eq_true'.2
  rintro ⟨slot, c⟩ hmem
  have hslot := Array.mem_zipIdx_iff_getElem?.1 hmem
  cases slot with
  | none => rfl
  | some ch =>
    have hc := hrows.lt_channels hslot
    have hfront := hrows.front_size c ch hslot
    simp only [Option.all_some, Bool.and_eq_true, Bool.or_eq_true, Bool.not_eq_true']
    constructor
    · by_cases hload : p.loadsAt step.stage c
      · rw [h.border_eq hc (by simpa [loadsAt] using hload)]
        exact .inr (h.holdsWindow hlen hfront _)
      · exact .inl (by simpa using hload)
    · refine .inr ⟨h.holdsWindow hlen hfront _, ?_⟩
      cases hchanges : (p.modeAt step.stage c).changes with
      | false => exact .inl rfl
      | true =>
        exact .inr (h.holdsWindow hlen
          (hrows.back_size c ch hslot (h.changed_of_changes hc hchanges)) _)

theorem sourcesReady_of_fed (hinput : p.Fed input) (hstep : p.InFrame step) :
    p.sourcesReady input step = true := by
  apply List.all_eq_true.2
  rintro ⟨plane, c⟩ hmem
  have hplane : plane ∈ input := List.mem_of_getElem? (List.mem_zipIdx_iff_getElem?.1 hmem)
  have hheight : plane.height = p.height := congrArg Prod.snd (hinput.size_eq plane hplane)
  simp only [Bool.or_eq_true]
  exact .inr (hinput.hasRow plane hplane _ (by rw [hheight]; exact hstep.row_lt))

theorem size_window {row : Row} (h : p.Scheduled borders)
    (hlen : step.length ≤ min p.tileSide p.width) (hrow : row.size = p.rowLength) (stage : Nat) :
    (p.window row (p.paddingAt stage) step).size = step.length + 2 * p.paddingAt stage := by
  have hpad := h.paddingAt_antitone (Nat.zero_le stage)
  simp only [window, Array.size_extract, hrow, rowLength]
  omega

/-- A later stage's window is a piece of an earlier stage's. -/
theorem window_of_le (row : Row) (h : p.Scheduled borders) {i j : Nat} (hij : i ≤ j) :
    p.window row (p.paddingAt j) step =
      (p.window row (p.paddingAt i) step).extract (p.paddingAt i - p.paddingAt j)
        (step.length + p.paddingAt i + p.paddingAt j) := by
  have hle := h.paddingAt_antitone hij
  have hpad := h.paddingAt_antitone (Nat.zero_le i)
  rw [window, window, Array.extract_extract]
  congr 1 <;> omega

theorem window_overwrite {row samples : Row} (h : p.Scheduled borders)
    (hlen : step.length ≤ min p.tileSide p.width) (hrow : row.size = p.rowLength) {stage : Nat}
    (hsamples : samples.size = step.length + 2 * p.paddingAt stage) :
    p.window (overwrite row (p.paddingAt 0 - p.paddingAt stage) samples) (p.paddingAt stage) step =
      samples := by
  have hpad := h.paddingAt_antitone (Nat.zero_le stage)
  have hsize : row.size = min p.tileSide p.width + 2 * p.paddingAt 0 := hrow
  have hstop : p.paddingAt 0 + step.length + p.paddingAt stage =
      p.paddingAt 0 - p.paddingAt stage + samples.size := by omega
  rw [window, hstop, extract_overwrite (by omega)]

/-! ## Loading -/

theorem loaded_eq_run {plane : Plane} {c : Nat} (hplane : input[c]? = some plane) (border : Nat) :
    loaded plane border step =
      (Strip.ofPlanes input step.row).run c (step.column - border) (step.length + 2 * border) := by
  rw [loaded, reflectedRun_eq_ofFn, Strip.run]
  simp [Strip.ofPlanes, hplane]

theorem getElem?_load (c : Nat) :
    (p.load input step rows)[c]? = rows[c]?.map fun slot ↦
      match slot, input[c]? with
      | some ch, some plane =>
        if p.loadsAt step.stage c then
          some { ch with
            front := overwrite ch.front (p.paddingAt 0 - (p.planAt c).border)
              (loaded plane (p.planAt c).border step) }
        else slot
      | _, _ => slot := by
  unfold load
  exact Array.getElem?_mapIdx

theorem Fed.planes (hinput : p.Fed input) : p.channels ≤ input.length :=
  Nat.le_of_eq hinput.length_eq.symm

/-- A channel with rows has rows after loading, and only the front one may have changed. -/
theorem getElem?_load_of_some (planes : p.channels ≤ input.length) (hrows : p.Shaped rows)
    (step : Step)
    {c : Nat} {ch : RowPair} (hch : rows[c]? = some (some ch)) :
    ∃ plane, input[c]? = some plane ∧ (p.load input step rows)[c]? =
      some (some { ch with
        front := if p.loadsAt step.stage c then
          overwrite ch.front (p.paddingAt 0 - (p.planAt c).border)
            (loaded plane (p.planAt c).border step)
        else ch.front }) := by
  have hc : c < input.length := Nat.lt_of_lt_of_le (hrows.lt_channels hch) planes
  refine ⟨input[c], List.getElem?_eq_getElem hc, ?_⟩
  rw [getElem?_load, hch, List.getElem?_eq_getElem hc]
  simp only [Option.map_some]
  split <;> rfl

/-- Channels without rows have none after loading. -/
theorem exists_of_getElem?_load {c : Nat} {ch : RowPair}
    (hch : (p.load input step rows)[c]? = some (some ch)) :
    ∃ old : RowPair, rows[c]? = some (some old) := by
  rw [getElem?_load] at hch
  cases hslot : rows[c]? with
  | none => simp [hslot] at hch
  | some slot =>
    cases slot with
    | none => simp [hslot] at hch
    | some old => exact ⟨old, rfl⟩

/-- Loading keeps the lengths of rows. -/
theorem Shaped.load (planes : p.channels ≤ input.length) (hrows : p.Shaped rows) (step : Step) :
    p.Shaped (p.load input step rows) := by
  have hsame : ∀ (c : Nat) (ch : RowPair), (p.load input step rows)[c]? = some (some ch) →
      ∃ old : RowPair, rows[c]? = some (some old) ∧ ch.front.size = old.front.size ∧
        ch.back = old.back := by
    intro c ch hch
    obtain ⟨old, hold⟩ := exists_of_getElem?_load hch
    obtain ⟨plane, -, hnew⟩ := getElem?_load_of_some planes hrows step hold
    rw [hnew] at hch
    cases hch
    refine ⟨old, hold, ?_, rfl⟩
    dsimp only
    split <;> simp
  refine ⟨by simp [Pipeline.load, hrows.size_eq], fun c hc ↦ ?_, fun c ch hch ↦ ?_,
    fun c ch hch hchanged ↦ ?_⟩
  · obtain ⟨ch, hch⟩ := hrows.present c hc
    obtain ⟨plane, -, hnew⟩ := getElem?_load_of_some planes hrows step hch
    exact ⟨_, hnew⟩
  · obtain ⟨old, hold, hfront, -⟩ := hsame c ch hch
    rw [hfront, hrows.front_size c old hold]
  · obtain ⟨old, hold, -, hback⟩ := hsame c ch hch
    rw [hback, hrows.back_size c old hold hchanged]

/-- Loading adds the channels that come into use to those that show what is to be seen. -/
theorem shows_load (h : p.Planned) (planes : p.channels ≤ input.length) (hrows : p.Shaped rows)
    (hstep : p.InFrame step) (hshows : p.Shows input step step.stage step.stage rows) :
    p.Shows input step step.stage (step.stage + 1) (p.load input step rows) := by
  intro c ch first hch hfirst hle
  obtain ⟨old, hold⟩ := exists_of_getElem?_load hch
  obtain ⟨plane, hplane, hnew⟩ := getElem?_load_of_some planes hrows step hold
  rw [hnew] at hch
  cases hch
  have hc := hrows.lt_channels hold
  rcases Nat.lt_succ_iff_lt_or_eq.1 hle with hlt | rfl
  · have hnot : p.loadsAt step.stage c = false := by
      simp [loadsAt, hfirst, Nat.ne_of_lt hlt]
    simp only [hnot, Bool.false_eq_true, if_false]
    exact hshows c old first hold hfirst hlt
  · have hloads : p.loadsAt step.stage c = true := by simp [loadsAt, hfirst]
    have hunused : ∀ j < step.stage, (p.modeAt j c).reads = false := fun j hj ↦ by
      have := ((h.scheduled.describes hc).first_iff _).1 hfirst
      simpa [usedAt_iff] using this.2 j hj
    simp only [hloads, if_true, h.scheduled.border_eq hc hfirst, loaded_eq_run hplane]
    rw [window_overwrite h.scheduled hstep.length_le (hrows.front_size c old hold) (by simp),
      Strip.run_congr (h.stripAt_of_unused step.row hstep.stage_le hc hunused).symm]

end Scanline.Pipeline
