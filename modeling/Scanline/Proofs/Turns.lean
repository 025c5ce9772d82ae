import Scanline.Proofs.Runs

/-!
# Stages in turn

Stages may use channels in any pattern: skip a channel and come back to it, read what another stage
changed, change what no one reads.  `Pipeline.turns` lets stages that make anything of their rows
work on one row of the frame, one after another, with the worker's own functions; for the filters of
a pipeline, this is what a worker does (`Pipeline.processRow_eq_turns`).

`Pipeline.Fresh` is what each turn keeps: around the pixels of the row, a channel holds what was
loaded of it, or what was last handed back.  The main statement, `provided_of_schedule`, puts this
together with what padding and plans say: nothing else is ever read, and what rows held before does
not matter.
-/

namespace Scanline

/-! ## Rows of the same lengths -/

namespace Rows

/-- Rows of the same channels with the same lengths and padding, whatever they hold. -/
structure Alike (r s : Rows) : Prop where
  /-- The padding is the same. -/
  pad_eq : r.pad = s.pad
  /-- There are as many slots. -/
  size_eq : r.slots.size = s.slots.size
  /-- They have rows of the same lengths. -/
  sizes_eq : ∀ c, (r.get? c).map Array.size = (s.get? c).map Array.size

end Rows

namespace Pipeline

/-! ## Turns -/

/-- The step in which another stage works on the same pixels. -/
def Step.onStage (step : Step) (stage : Nat) : Step := { step with stage }

section Turns

variable (p : Pipeline) (input : List Plane) (step : Step) (work : Nat → Rows → Rows → Rows)
  (rows : Workspace)

/-- One turn of a stage that makes `make` of the rows it reads and of those that it is to write: the
channels that come into use are loaded, the stage works, and what it hands back is taken over. -/
def turn (make : Rows → Rows → Rows) (step : Step) (rows : Workspace) : Workspace :=
  let loaded := p.load input step rows
  p.takeOver step (make (p.rowsRead step loaded) (p.rowsWritten step loaded)) loaded

/-- The rows of a worker after the turns of all stages before a given one. -/
def turns : Nat → Workspace
  | 0 => rows
  | stage + 1 => p.turn input (work stage) (step.onStage stage) (turns stage)

/-- The rows of a worker when a stage starts. -/
def rowsAt (stage : Nat) : Workspace :=
  p.load input (step.onStage stage) (p.turns input step work rows stage)

/-- The rows that a stage is handed to read. -/
def handed (stage : Nat) : Rows :=
  p.rowsRead (step.onStage stage) (p.rowsAt input step work rows stage)

/-- The rows that a stage hands back. -/
def handedBack (stage : Nat) : Rows :=
  work stage (p.handed input step work rows stage)
    (p.rowsWritten (step.onStage stage) (p.rowsAt input step work rows stage))

end Turns

/-- Stages that hand back all rows that they are to write, with the lengths that these had. -/
def KeepsRows (work : Nat → Rows → Rows → Rows) : Prop :=
  ∀ stage read written, Rows.KeptIn written (work stage read written)

/-- Stages that write all samples of the rows that they are to write: what these held does not
matter. -/
def Overwrites (work : Nat → Rows → Rows → Rows) : Prop :=
  ∀ stage read written other, Rows.Alike written other →
    work stage read written = work stage read other

variable {p : Pipeline} {borders : List Nat} {input : List Plane} {step : Step}
  {work : Nat → Rows → Rows → Rows} {rows : Workspace}

@[simp] theorem stage_onStage (stage : Nat) : (step.onStage stage).stage = stage := rfl

theorem length_onStage_le {n : Nat} (h : step.length ≤ n) (stage : Nat) :
    (step.onStage stage).length ≤ n := h

@[simp] theorem window_onStage (row : Row) (pad stage : Nat) :
    p.window row pad (step.onStage stage) = p.window row pad step := rfl

@[simp] theorem loaded_onStage (plane : Plane) (border stage : Nat) :
    loaded plane border (step.onStage stage) = loaded plane border step := rfl

theorem size_loaded (plane : Plane) (border : Nat) (step : Step) :
    (loaded plane border step).size = step.length + 2 * border := by
  rw [loaded, reflectedRun_eq_ofFn, Array.size_ofFn]

theorem turns_succ (stage : Nat) :
    p.turns input step work rows (stage + 1) =
      p.takeOver (step.onStage stage) (p.handedBack input step work rows stage)
        (p.rowsAt input step work rows stage) := rfl

theorem changedAt_iff {i c : Nat} :
    ChangedAt (modesOf p.modes c) i ↔ (p.modeAt i c).changes := by
  unfold ChangedAt modesOf modeAt
  rw [List.getElem?_map]
  cases p.modes[i]? with
  | none => simp [Mode.changes]
  | some row => simp

/-! ## What turns keep -/

/-- Rows that hold, around the pixels of a step, what was made for them: the channels whose first
stage is before `loadedTo` were loaded, and the stages before `turnsTo` have handed back what `back`
says. -/
structure Fresh (p : Pipeline) (input : List Plane) (step : Step) (back : Nat → Rows)
    (turnsTo loadedTo : Nat) (rows : Workspace) : Prop where
  /-- A channel that no stage has changed yet holds what was loaded. -/
  loaded : ∀ (c : Nat) (ch : RowPair) plane first, rows[c]? = some (some ch) →
    input[c]? = some plane → (p.planAt c).first = some first → first < loadedTo →
    (∀ j < turnsTo, ¬ChangedAt (modesOf p.modes c) j) →
    p.window ch.front (p.planAt c).border step = loaded plane (p.planAt c).border step
  /-- Any other holds what the last of them handed back. -/
  written : ∀ (c : Nat) (ch : RowPair) j, rows[c]? = some (some ch) →
    LastChange (modesOf p.modes c) j turnsTo →
    (back j).get? c = some (p.window ch.front (p.paddingAt (j + 1)) step)

theorem fresh_zero (back : Nat → Rows) (rows : Workspace) : p.Fresh input step back 0 0 rows where
  loaded _ _ _ _ _ _ _ hlt := absurd hlt (Nat.not_lt_zero _)
  written _ _ _ _ last := absurd last.lt (Nat.not_lt_zero _)

/-- Loading adds the channels whose first stage starts. -/
theorem Fresh.load (h : p.Scheduled borders) (hinput : p.Fed input) (hrows : p.Shaped rows)
    (hlen : step.length ≤ min p.tileSide p.width) {back : Nat → Rows} {stage : Nat}
    (hfresh : p.Fresh input step back stage stage rows) :
    p.Fresh input step back stage (stage + 1) (p.load input (step.onStage stage) rows) := by
  constructor
  · intro c ch plane first hch hplane hfirst hle unchanged
    obtain ⟨old, hold⟩ := exists_of_getElem?_load hch
    obtain ⟨plane', hplane', hnew⟩ := getElem?_load_of_some hinput.planes hrows _ hold
    rw [hplane, Option.some.injEq] at hplane'
    subst hplane'
    rw [hnew] at hch
    cases hch
    have hloads : p.loadsAt stage c = decide (first = stage) := by simp [loadsAt, hfirst]
    simp only [stage_onStage, hloads, decide_eq_true_eq, loaded_onStage]
    split_ifs with hhere
    · rw [h.border_eq (hrows.lt_channels hold) hfirst]
      exact window_overwrite h hlen (hrows.front_size c old hold) (size_loaded _ _ _)
    · exact hfresh.loaded c old plane first hold hplane hfirst (by omega) unchanged
  · intro c ch j hch last
    obtain ⟨old, hold⟩ := exists_of_getElem?_load hch
    obtain ⟨plane, -, hnew⟩ := getElem?_load_of_some hinput.planes hrows _ hold
    rw [hnew] at hch
    cases hch
    -- the stage that changed the channel used it, so it was loaded before
    obtain ⟨first, hfirst, hle⟩ := h.exists_first (hrows.lt_channels hold)
      (reads_of_changes (changedAt_iff.1 last.changed))
    have hloads : p.loadsAt stage c = false := by
      have hlt := last.lt
      simp only [loadsAt, hfirst, Option.some.injEq, decide_eq_false_iff_not]
      omega
    simp only [stage_onStage, hloads, Bool.false_eq_true, if_false]
    exact hfresh.written c old j hold last

/-- Taking over adds what the stage handed back. -/
theorem Fresh.takeOver (h : p.Scheduled borders) (hrows : p.Shaped rows)
    (hlen : step.length ≤ min p.tileSide p.width) {back : Nat → Rows} {stage : Nat}
    (hback : ∀ c < p.channels, (p.modeAt stage c).changes →
      ∃ row, (back stage).get? c = some row ∧
        row.size = step.length + 2 * p.paddingAt (stage + 1))
    (hfresh : p.Fresh input step back stage (stage + 1) rows) :
    p.Fresh input step back (stage + 1) (stage + 1)
      (p.takeOver (step.onStage stage) (back stage) rows) := by
  constructor
  · intro c ch plane first hch hplane hfirst hle unchanged
    obtain ⟨old, hold, rfl⟩ := exists_of_getElem?_takeOver hch
    have hstays : ¬(p.modeAt stage c).changes := fun hchanges ↦
      unchanged stage (Nat.lt_succ_self _) (changedAt_iff.2 hchanges)
    rw [stage_onStage, if_neg hstays]
    exact hfresh.loaded c old plane first hold hplane hfirst hle fun j hj ↦
      unchanged j (Nat.lt_succ_of_lt hj)
  · intro c ch j hch last
    obtain ⟨old, hold, rfl⟩ := exists_of_getElem?_takeOver hch
    rw [stage_onStage]
    by_cases hchanges : (p.modeAt stage c).changes
    · rw [lastChange_succ_of_changed (changedAt_iff.2 hchanges)] at last
      subst last
      rw [if_pos hchanges]
      have hc := hrows.lt_channels hold
      obtain ⟨row, hrow, hsize⟩ := hback c hc hchanges
      simp only [hrow, Option.getD_some]
      rw [window_overwrite h hlen
        (hrows.back_size c old hold (h.changed_of_changes hc hchanges)) hsize]
    · rw [lastChange_succ_of_unchanged fun hch ↦ hchanges (changedAt_iff.1 hch)] at last
      rw [if_neg hchanges]
      exact hfresh.written c old j hold last

/-- Rows that a stage is to write have the same lengths in any workspace. -/
theorem alike_rowsWritten (h : p.Scheduled borders) (hrows : p.Shaped rows) {other : Workspace}
    (hother : p.Shaped other) (hlen : step.length ≤ min p.tileSide p.width) :
    Rows.Alike (p.rowsWritten step rows) (p.rowsWritten step other) := by
  refine ⟨rfl, by simp [rowsWritten, hrows.size_eq, hother.size_eq], fun c ↦ ?_⟩
  by_cases hchanges : c < p.channels ∧ (p.modeAt step.stage c).changes
  · obtain ⟨row, hrow, hsize⟩ := exists_get?_rowsWritten h hrows hlen hchanges.1 hchanges.2
    obtain ⟨row', hrow', hsize'⟩ := exists_get?_rowsWritten h hother hlen hchanges.1 hchanges.2
    rw [hrow, hrow', Option.map_some, Option.map_some, hsize, hsize']
  · have hnone : ∀ {rows : Workspace}, p.Shaped rows → (p.rowsWritten step rows).get? c = none := by
      intro rows hrows
      rcases Nat.lt_or_ge c p.channels with hc | hc
      · have hnot : (p.modeAt step.stage c).changes = false := by
          simpa using fun hch ↦ hchanges ⟨hc, hch⟩
        cases hslot : rows[c]? <;> simp [Rows.get?, rowsWritten, hslot, hnot]
      · rw [Rows.get?, rowsWritten, Array.getElem?_eq_none (by simp [hrows.size_eq, hc])]
        rfl
    rw [hnone hrows, hnone hother]

section Run

variable (h : p.Scheduled borders) (hinput : p.Fed input) (hrows : p.Shaped rows)
include h hinput hrows

theorem shaped_turns (stage : Nat) : p.Shaped (p.turns input step work rows stage) := by
  induction stage with
  | zero => exact hrows
  | succ stage ih =>
    rw [turns_succ]
    exact (ih.load hinput.planes _).takeOver h _

theorem shaped_rowsAt (stage : Nat) : p.Shaped (p.rowsAt input step work rows stage) :=
  (shaped_turns h hinput hrows stage).load hinput.planes _

theorem get?_handed_of_not_used {c stage : Nat}
    (unused : ¬(c < p.channels ∧ UsedAt (modesOf p.modes c) stage)) :
    (p.handed input step work rows stage).get? c = none := by
  rw [handed, get?_rowsRead, stage_onStage]
  rcases Nat.lt_or_ge c p.channels with hc | hc
  · rw [h.deliversAt_eq hc, if_neg fun hreads ↦ unused ⟨hc, usedAt_iff.2 hreads⟩]
  · have hshaped : p.Shaped (p.rowsAt input step work rows stage) :=
      shaped_rowsAt h hinput hrows stage
    rw [Array.getElem?_eq_none (by rw [hshaped.size_eq]; exact hc)]
    simp

variable (hlen : step.length ≤ min p.tileSide p.width)
include hlen

/-- Every stage finds the windows that are loaded for it, that it reads and that it writes. -/
theorem windowsFit_turns (stage : Nat) :
    p.windowsFit (step.onStage stage) (p.turns input step work rows stage) :=
  windowsFit_of_shaped h (shaped_turns h hinput hrows stage) hlen

/-- A stage is handed a window of every channel that it uses, which was loaded at this stage or
before. -/
theorem exists_get?_handed (work : Nat → Rows → Rows → Rows) {c stage : Nat} (hc : c < p.channels)
    (used : UsedAt (modesOf p.modes c) stage) :
    ∃ ch first, (p.rowsAt input step work rows stage)[c]? = some (some ch) ∧
      (p.planAt c).first = some first ∧ first ≤ stage ∧
      (p.handed input step work rows stage).get? c =
        some (p.window ch.front (p.paddingAt stage) step) := by
  have hshaped : p.Shaped (p.rowsAt input step work rows stage) :=
    shaped_rowsAt h hinput hrows stage
  obtain ⟨ch, first, hch, hfirst, hle, hget, -⟩ :=
    exists_get?_rowsRead h hshaped (length_onStage_le hlen stage) hc (usedAt_iff.1 used)
  exact ⟨ch, first, hch, hfirst, hle, hget⟩

variable (hwork : KeepsRows work)
include hwork

theorem exists_get?_handedBack {c stage : Nat} (hc : c < p.channels)
    (hchanges : (p.modeAt stage c).changes) :
    ∃ row, (p.handedBack input step work rows stage).get? c = some row ∧
      row.size = step.length + 2 * p.paddingAt (stage + 1) := by
  have hshaped : p.Shaped (p.rowsAt input step work rows stage) :=
    shaped_rowsAt h hinput hrows stage
  obtain ⟨row, hrow, hsize⟩ :=
    exists_get?_rowsWritten h hshaped (length_onStage_le hlen stage) hc hchanges
  obtain ⟨new, hnew, hsame⟩ := hwork stage (p.handed input step work rows stage) _ c row hrow
  exact ⟨new, hnew, hsame.trans hsize⟩

/-- After any number of turns, rows hold what was made for them. -/
theorem fresh_turns (stage : Nat) :
    p.Fresh input step (p.handedBack input step work rows) stage stage
      (p.turns input step work rows stage) := by
  induction stage with
  | zero => exact fresh_zero _ rows
  | succ stage ih =>
    rw [turns_succ]
    refine Fresh.takeOver h (shaped_rowsAt h hinput hrows stage) hlen (fun c hc hchanges ↦ ?_)
      (ih.load h hinput (shaped_turns h hinput hrows stage) hlen)
    exact exists_get?_handedBack h hinput hrows hlen hwork hc hchanges

theorem fresh_rowsAt (stage : Nat) :
    p.Fresh input step (p.handedBack input step work rows) stage (stage + 1)
      (p.rowsAt input step work rows stage) :=
  (fresh_turns h hinput hrows hlen hwork stage).load h hinput (shaped_turns h hinput hrows stage)
    hlen

/-- A stage reads of a channel that no stage has changed what loading for it alone would load. -/
theorem get?_handed_of_unchanged {c stage : Nat} (hc : c < p.channels)
    (used : UsedAt (modesOf p.modes c) stage)
    (unchanged : ∀ j < stage, ¬ChangedAt (modesOf p.modes c) j) {plane : Plane}
    (hplane : input[c]? = some plane) :
    (p.handed input step work rows stage).get? c =
      some (loaded plane (p.paddingAt stage) step) := by
  obtain ⟨ch, first, hch, hfirst, hle, hget⟩ :=
    exists_get?_handed h hinput hrows hlen work hc used
  have hfresh := (fresh_rowsAt h hinput hrows hlen hwork stage).loaded c ch plane first hch hplane
    hfirst (Nat.lt_succ_of_le hle) unchanged
  have hpad := h.paddingAt_antitone hle
  rw [h.border_eq hc hfirst] at hfresh
  rw [hget, window_of_le ch.front h hle, hfresh, loaded_eq_run hplane, loaded_eq_run hplane,
    Strip.extract_run _ _ _ _ (by omega)]
  congr 2 <;> omega

/-- A stage reads of any other channel a piece of what was last handed back for it. -/
theorem get?_handed_of_lastChange {c stage j : Nat} (hc : c < p.channels)
    (used : UsedAt (modesOf p.modes c) stage) (last : LastChange (modesOf p.modes c) j stage) :
    ∃ row, (p.handedBack input step work rows j).get? c = some row ∧
      row.size = step.length + 2 * p.paddingAt (j + 1) ∧
      (p.handed input step work rows stage).get? c =
        some (row.extract (p.paddingAt (j + 1) - p.paddingAt stage)
          (step.length + p.paddingAt (j + 1) + p.paddingAt stage)) := by
  have hshaped : p.Shaped (p.rowsAt input step work rows stage) :=
    shaped_rowsAt h hinput hrows stage
  obtain ⟨ch, first, hch, hfirst, hle, hget⟩ :=
    exists_get?_handed h hinput hrows hlen work hc used
  refine ⟨_, (fresh_rowsAt h hinput hrows hlen hwork stage).written c ch j hch last,
    size_window h hlen (hshaped.front_size c ch hch) (j + 1), ?_⟩
  rw [hget, window_of_le ch.front h last.lt]

/-- What a stage is handed of a channel depends on what was handed back before, not on what a
worker's rows held. -/
theorem get?_handed_congr {other : Workspace} (hother : p.Shaped other) {stage : Nat}
    (hback : ∀ j < stage, p.handedBack input step work other j =
      p.handedBack input step work rows j) (c : Nat) :
    (p.handed input step work other stage).get? c =
      (p.handed input step work rows stage).get? c := by
  by_cases used : c < p.channels ∧ UsedAt (modesOf p.modes c) stage
  · obtain ⟨hc, used⟩ := used
    rcases unchanged_or_lastChange (modesOf p.modes c) stage with unchanged | ⟨j, last⟩
    · obtain ⟨plane, hplane⟩ : ∃ plane, input[c]? = some plane :=
        ⟨_, List.getElem?_eq_getElem (by rwa [hinput.length_eq])⟩
      rw [get?_handed_of_unchanged h hinput hrows hlen hwork hc used unchanged hplane,
        get?_handed_of_unchanged h hinput hother hlen hwork hc used unchanged hplane]
    · obtain ⟨row, hrow, -, hget⟩ :=
        get?_handed_of_lastChange h hinput hrows hlen hwork hc used last
      obtain ⟨row', hrow', -, hget'⟩ :=
        get?_handed_of_lastChange h hinput hother hlen hwork hc used last
      rw [hback j last.lt, hrow] at hrow'
      cases hrow'
      rw [hget, hget']
  · rw [get?_handed_of_not_used h hinput hrows used, get?_handed_of_not_used h hinput hother used]

/-- Stages that write all samples of their rows are handed the same, whatever a worker's rows held
before. -/
theorem handed_congr (overwrites : Overwrites work) {other : Workspace} (hother : p.Shaped other)
    (stage : Nat) :
    p.handed input step work other stage = p.handed input step work rows stage := by
  induction stage using Nat.strongRecOn with
  | ind stage ih =>
    have hrowsAt : ∀ {rows : Workspace} (j : Nat), p.Shaped rows →
        p.Shaped (p.rowsAt input step work rows j) := fun j hrows ↦ shaped_rowsAt h hinput hrows j
    -- what came before was handed back from the same rows, into rows of the same lengths
    have hback : ∀ j < stage, p.handedBack input step work other j =
        p.handedBack input step work rows j := fun j hj ↦ by
      rw [handedBack, handedBack, ih j hj]
      exact overwrites _ _ _ _
        (alike_rowsWritten h (hrowsAt j hother) (hrowsAt j hrows) (length_onStage_le hlen j))
    refine Rows.ext_get? rfl ?_ (get?_handed_congr h hinput hrows hlen hwork hother hback)
    simp [handed, rowsRead, (hrowsAt stage hrows).size_eq, (hrowsAt stage hother).size_eq]

end Run

/-! ## Turns of a pipeline -/

/-- The step in which the first stage works on a row of a tile. -/
def rowStep (p : Pipeline) (tile row : Nat) : Step :=
  let column := tile % p.tilesAcross * p.tileSide
  ⟨column, min p.tileSide (p.width - column), row, 0⟩

/-- What the filters of a pipeline make of their rows; a filter that cannot work leaves those that
it is to write. -/
def filterWork (p : Pipeline) (worker : Nat) (step : Step) (stage : Nat) (read written : Rows) :
    Rows :=
  match p.filters[stage]? with
  | some f =>
    match f.produce read written (p.segment worker (step.onStage stage)) with
    | .ok made => made
    | .error _ => written
  | none => written

theorem keepsRows_filterWork (worker : Nat) (step : Step) :
    KeepsRows (p.filterWork worker step) := by
  intro stage read written
  have hsame : written.KeptIn written := fun _ row hrow ↦ ⟨row, hrow, rfl⟩
  unfold filterWork
  split
  · split
    case h_1 hmade => exact Filter.keptIn_produce hmade
    case h_2 => exact hsame
  · exact hsame

theorem InFrame.onStage (hstep : p.InFrame step) {stage : Nat} (hstage : stage ≤ p.filters.length) :
    p.InFrame (step.onStage stage) :=
  ⟨hstep.length_le, hstep.reach_le, hstep.row_lt, hstage⟩

section Filters

variable (h : p.Planned) (small : p.rowLength < Size.bound) (hinput : p.Fed input)
  (hstep : p.InFrame step) (hrows : p.Shaped rows) {worker : Nat} {s : Progress}
  (hworker : s.workers[worker]? = some rows)
include h small hinput hstep hrows hworker

/-- A filter's step is a turn of the filter. -/
theorem perform_eq_turn {stage : Nat} (hstage : stage < p.filters.length) :
    p.perform input worker (step.onStage stage) s =
      .done ⟨s.workers.setIfInBounds worker
        (p.turn input (p.filterWork worker step stage) (step.onStage stage) rows), s.sink⟩ := by
  obtain ⟨workers, sink⟩ := s
  dsimp only at hworker
  have hstep' : p.InFrame (step.onStage stage) := hstep.onStage (Nat.le_of_lt hstage)
  have hf : p.filters[stage]? = some p.filters[stage] := List.getElem?_eq_getElem hstage
  have hloaded := hrows.load hinput.planes (step.onStage stage)
  obtain ⟨_, hread, -⟩ := exists_rowsRead_eq input h hloaded hstep'
  obtain ⟨written, hproduce, -⟩ := exists_produce_eq h hloaded hstep' hf hread
    (produced_lt_of_obstacle (obstacle_of_fed h.scheduled small hinput hstep') hstage worker)
  simp only [perform, hworker, Option.getD_some, sourcesReady_of_fed hinput hstep',
    windowsFit_of_shaped h.scheduled hrows hstep'.length_le, Bool.and_self, if_true, stage_onStage,
    hf, hproduce, turn, filterWork]

/-- The steps of the filters before a stage are their turns. -/
theorem each_perform_eq_turns {n : Nat} (hn : n ≤ p.filters.length) :
    Outcome.each (p.perform input worker) ((List.range n).map step.onStage) s =
      .done ⟨s.workers.setIfInBounds worker
        (p.turns input step (p.filterWork worker step) rows n), s.sink⟩ := by
  have hlt : worker < s.workers.size := (Array.getElem?_eq_some_iff.1 hworker).1
  induction n with
  | zero =>
    have hsame : s.workers.setIfInBounds worker rows = s.workers := by
      refine Array.ext_getElem? fun i ↦ ?_
      rw [Array.getElem?_setIfInBounds]
      split_ifs with hi
      · rw [← hi, hworker]
      · rfl
    simp [turns, hsame]
  | succ n ih =>
    have hturns : p.Shaped (p.turns input step (p.filterWork worker step) rows n) :=
      shaped_turns h.scheduled hinput hrows n
    rw [List.range_succ, List.map_append, Outcome.each_append, ih (Nat.le_of_succ_le hn),
      Outcome.done_next, List.map_singleton, Outcome.each_cons,
      perform_eq_turn h small hinput hstep hturns (Array.getElem?_setIfInBounds_self_of_lt hlt) hn]
    simp [turns]

end Filters

/-- A worker does a row of a tile by the turns of all filters, and the sink is handed what they made
of it. -/
theorem processRow_eq_turns (h : p.Planned) (small : p.rowLength < Size.bound)
    (hinput : p.Fed input) {tile row : Nat} (hstep : p.InFrame (p.rowStep tile row))
    (hrows : p.Shaped rows) {worker : Nat} {s : Progress}
    (hworker : s.workers[worker]? = some rows) :
    p.processRow input tile worker row s =
      (s.sink.receive
        (p.handed input (p.rowStep tile row) (p.filterWork worker (p.rowStep tile row)) rows
          p.filters.length)
        (p.segment worker ((p.rowStep tile row).onStage p.filters.length))).map
        (Progress.mk (s.workers.setIfInBounds worker
          (p.rowsAt input (p.rowStep tile row) (p.filterWork worker (p.rowStep tile row)) rows
            p.filters.length))) := by
  have hsteps : p.rowSteps tile row =
      (List.range p.stageCount).map (p.rowStep tile row).onStage := rfl
  rw [processRow, hsteps]
  generalize p.rowStep tile row = step at hstep ⊢
  have hlt : worker < s.workers.size := (Array.getElem?_eq_some_iff.1 hworker).1
  have hlast : ∀ o : Outcome Progress, o.next (Outcome.each (p.perform input worker) []) = o := by
    rintro ⟨_, _ | _⟩ <;> rfl
  have hstep' : p.InFrame (step.onStage p.filters.length) := hstep.onStage (Nat.le_refl _)
  have hturns : p.Shaped
      (p.turns input step (p.filterWork worker step) rows p.filters.length) :=
    shaped_turns h.scheduled hinput hrows p.filters.length
  rw [stageCount, List.range_succ, List.map_append, Outcome.each_append,
    each_perform_eq_turns h small hinput hstep hrows hworker (Nat.le_refl _), Outcome.done_next,
    List.map_singleton, Outcome.each_cons, hlast]
  simp only [perform, Array.getElem?_setIfInBounds_self_of_lt hlt, Option.getD_some,
    sourcesReady_of_fed hinput hstep', windowsFit_of_shaped h.scheduled hturns hstep'.length_le,
    Bool.and_self, if_true, stage_onStage, List.getElem?_eq_none (Nat.le_refl _), handed, rowsAt,
    Array.setIfInBounds_setIfInBounds]

/-! ## Any pattern of modes -/

/-- What the stages of a row are handed when they work so, by a worker whose rows hold anything. -/
structure Serves (p : Pipeline) (input : List Plane) (step : Step)
    (work : Nat → Rows → Rows → Rows) (rows : Workspace) : Prop where
  /-- No stage finds a window that does not fit. -/
  fits : ∀ stage, p.windowsFit (step.onStage stage) (p.turns input step work rows stage)
  /-- No stage is handed a channel that it does not use. -/
  not_used : ∀ stage c, ¬(c < p.channels ∧ UsedAt (modesOf p.modes c) stage) →
    (p.handed input step work rows stage).get? c = none
  /-- Of a channel that no stage before it changed, a stage reads what loading for it alone would
  load. -/
  unchanged : ∀ stage, ∀ c < p.channels, UsedAt (modesOf p.modes c) stage →
    (∀ j < stage, ¬ChangedAt (modesOf p.modes c) j) → ∀ plane, input[c]? = some plane →
    (p.handed input step work rows stage).get? c = some (loaded plane (p.paddingAt stage) step)
  /-- Of any other, it reads a piece of what the last stage before it that changed the channel
  handed back for this row. -/
  changed : ∀ stage, ∀ c < p.channels, UsedAt (modesOf p.modes c) stage →
    ∀ j, LastChange (modesOf p.modes c) j stage →
    ∃ row, (p.handedBack input step work rows j).get? c = some row ∧
      row.size = step.length + 2 * p.paddingAt (j + 1) ∧
      (p.handed input step work rows stage).get? c =
        some (row.extract (p.paddingAt (j + 1) - p.paddingAt stage)
          (step.length + p.paddingAt (j + 1) + p.paddingAt stage))
  /-- So it does not matter what rows held, if stages write all samples of theirs. -/
  forgets : Overwrites work → ∀ other, p.Shaped other → ∀ stage,
    p.handed input step work other stage = p.handed input step work rows stage

/-- Stages of a schedule are served, whatever they make of their rows. -/
theorem Scheduled.serves (h : p.Scheduled borders) (hinput : p.Fed input)
    (hlen : step.length ≤ min p.tileSide p.width) (hrows : p.Shaped rows)
    (hwork : KeepsRows work) : p.Serves input step work rows where
  fits := windowsFit_turns h hinput hrows hlen
  not_used _ _ := get?_handed_of_not_used h hinput hrows
  unchanged _ _ hc used unchanged _ :=
    get?_handed_of_unchanged h hinput hrows hlen hwork hc used unchanged
  changed _ _ hc used _ := get?_handed_of_lastChange h hinput hrows hlen hwork hc used
  forgets overwrites _ hother := handed_congr h hinput hrows hlen hwork overwrites hother

theorem Planned.serves (h : p.Planned) (hinput : p.Fed input)
    (hlen : step.length ≤ min p.tileSide p.width) (hrows : p.Shaped rows) (worker : Nat) :
    p.Serves input step (p.filterWork worker step) rows :=
  h.scheduled.serves hinput hlen hrows (keepsRows_filterWork worker step)

end Pipeline

/-- Borders of stages whose sum is no size have no padding.  For all others, and any modes of the
stages, padding and plans are what the stages need: the padding of a stage is the sum of the borders
from it on, and the plan of a channel spans the stages from its first to its last use and provides
for all of them.  A worker that goes by these serves stages that make anything of their rows: none
reads a sample that was neither loaded nor written for the row at hand. -/
theorem provided_of_schedule (borders : List Nat) (modes : List (List Mode)) (channels : Nat)
    (complete : modes.length = borders.length) :
    (Size.bound ≤ borders.sum → sizedPadding borders = .error .overflow) ∧
    (borders.sum < Size.bound → ∃ padding, sizedPadding borders = .ok padding ∧
      Pads borders padding ∧
      (∀ c < channels, ∃ plan, (planChannels modes padding channels)[c]? = some plan ∧
        plan.Describes padding (modesOf modes c) ∧ plan.Provides padding (modesOf modes c)) ∧
      ∀ p : Pipeline, p.modes = modes → p.padding = padding →
        p.plans = planChannels modes padding channels →
        ∀ (input : List Plane) (step : Pipeline.Step) (work : Nat → Rows → Rows → Rows)
          (rows : Workspace), p.Fed input → step.length ≤ min p.tileSide p.width →
          p.Shaped rows → Pipeline.KeepsRows work → p.Serves input step work rows) := by
  refine ⟨sizedPadding_of_le, fun hsum ↦ ⟨_, sizedPadding_of_lt hsum, pads_paddingOf borders,
    fun c hc ↦ ?_, fun p hmodes hpadding hplans input step work rows hinput hlen hrows hwork ↦ ?_⟩⟩
  · have hdescribes : (Plan.ofModes (paddingOf borders) (modesOf modes c)).Describes
        (paddingOf borders) (modesOf modes c) :=
      Plan.describes_ofModes (by simp [modesOf, complete])
    exact ⟨_, by simp [planChannels, hc], hdescribes, hdescribes.provides⟩
  · have hchannels : p.channels = channels := by simp [Pipeline.channels, hplans, planChannels]
    have hscheduled : p.Scheduled borders :=
      ⟨by rw [hmodes, complete], hpadding, by rw [hplans, hmodes, hpadding, hchannels]⟩
    exact hscheduled.serves hinput hlen hrows hwork

/-- A border of one sample before the largest border of all adds up to no size. -/
theorem provided_of_schedule_beyond_sizes :
    sizedPadding [Size.largest, 1] = .error .overflow ∧
      ¬∃ padding, sizedPadding [Size.largest, 1] = .ok padding ∧
        Pads [Size.largest, 1] padding := by
  have hoverflow : sizedPadding [Size.largest, 1] = .error .overflow :=
    sizedPadding_of_le (by decide)
  refine ⟨hoverflow, ?_⟩
  rintro ⟨padding, hpadding, -⟩
  rw [hoverflow] at hpadding
  cases hpadding

/-- Four stages of which none uses all channels: the first channel is read, changed and read again,
the second is changed before and after it is read, the third is left alone. -/
theorem provided_of_schedule_skipping :
    let borders := [1, 0, 2, 0]
    let padding := [3, 2, 2, 0, 0]
    let modes : List (List Mode) :=
      [[.skip, .change, .skip], [.read, .skip, .skip], [.change, .read, .skip],
        [.read, .change, .skip]]
    let p : Pipeline :=
      { filters := [], sink := .planar { image := none }, width := 3, height := 1, tileSide := 2
        limits := {}, modes, padding, plans := planChannels modes padding 3 }
    let plane : Plane := ⟨3, 1, 3, #[.zero, .one, .two], by decide, by decide⟩
    let input := [plane, plane, plane]
    let step : Pipeline.Step := ⟨0, 2, 0, 0⟩
    let ones : Rows → Rows := fun written ↦
      ⟨written.slots.map (Option.map fun row ↦ Array.replicate row.size .one), written.pad⟩
    let work : Nat → Rows → Rows → Rows := fun _ _ written ↦ ones written
    let rows : Workspace :=
      #[some ⟨Array.replicate 8 .two, Array.replicate 8 .two⟩,
        some ⟨Array.replicate 8 .two, Array.replicate 8 .two⟩, none]
    sizedPadding borders = .ok padding ∧
      (p.handed input step work rows 1).get? 0 = some (Pipeline.loaded plane 2 step) ∧
      (∃ row, (p.handedBack input step work rows 0).get? 1 = some row ∧ row.size = 6 ∧
        (p.handed input step work rows 2).get? 1 = some row) ∧
      ∀ other, p.Shaped other → ∀ stage,
        p.handed input step work other stage = p.handed input step work rows stage := by
  intro borders padding modes p plane input step ones work rows
  have hinput : p.Fed input := by
    have hplane : ∀ other ∈ input, other = plane := fun other hother ↦ by simpa [input] using hother
    refine ⟨rfl, fun other hother ↦ ?_, fun other hother y hy ↦ ?_⟩
    · rw [hplane other hother]
      rfl
    · rw [hplane other hother] at hy ⊢
      obtain rfl : y = 0 := Nat.lt_one_iff.1 hy
      rfl
  have hrows : p.Shaped rows := by
    refine ⟨rfl, fun c huse ↦ ?_, fun c ch hch ↦ ?_, fun c ch hch _ ↦ ?_⟩
    · rcases c with _ | _ | _ | c
      · exact ⟨_, rfl⟩
      · exact ⟨_, rfl⟩
      · cases huse
      · cases huse
    all_goals
      rcases c with _ | _ | _ | c
      · cases hch; rfl
      · cases hch; rfl
      · cases hch
      · cases hch
  have hget : ∀ (written : Rows) (c : Nat), (ones written).get? c =
      (written.get? c).map fun row ↦ Array.replicate row.size .one := by
    intro written c
    simp only [ones, Rows.get?, Array.getElem?_map]
    cases written.slots[c]? <;> rfl
  have hkeeps : Pipeline.KeepsRows work := fun _ _ written c row hrow ↦
    ⟨_, by rw [hget written, hrow]; rfl, Array.size_replicate⟩
  have hoverwrites : Pipeline.Overwrites work := by
    intro _ _ written other alike
    refine Rows.ext_get? alike.pad_eq (by simp [work, ones, alike.size_eq]) fun c ↦ ?_
    have hsizes := congrArg (Option.map fun size : Nat ↦ Array.replicate size Sample.one)
      (alike.sizes_eq c)
    rw [hget written, hget other]
    simpa [Option.map_map, Function.comp_def] using hsizes
  have hlast : LastChange (modesOf modes 1) 0 2 := by
    refine ⟨⟨.change, rfl, rfl⟩, by decide, ?_⟩
    rintro k hk hk' ⟨mode, hmode, hchanges⟩
    obtain rfl : k = 1 := by omega
    cases hmode
    cases hchanges
  obtain ⟨_, hpadding, -, -, hserves⟩ :=
    (provided_of_schedule borders modes 3 rfl).2 (by decide)
  have hsame : sizedPadding borders = .ok padding := rfl
  obtain rfl := Except.ok.inj (hsame.symm.trans hpadding)
  have serves := hserves p rfl rfl rfl input step work rows hinput (by decide) hrows hkeeps
  refine ⟨hsame, serves.unchanged 1 0 (by decide) ⟨.read, rfl, rfl⟩ ?_ plane rfl, ?_,
    serves.forgets hoverwrites⟩
  · rintro j hj ⟨mode, hmode, hchanges⟩
    obtain rfl : j = 0 := Nat.lt_one_iff.1 hj
    cases hmode
    cases hchanges
  · obtain ⟨row, hrow, hsize, hhanded⟩ :=
      serves.changed 2 1 (by decide) ⟨.read, rfl, rfl⟩ 0 hlast
    have hall : row.extract 0 row.size = row := Array.extract_size
    rw [hsize] at hall
    exact ⟨row, hrow, hsize, hhanded.trans (congrArg some hall)⟩

end Scanline
