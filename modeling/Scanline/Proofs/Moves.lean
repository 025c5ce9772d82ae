import Mathlib.Data.List.Chain
import Mathlib.Data.List.Range
import Scanline.Proofs.Step

/-!
# Workers taking steps in any order

A `Move` is one step of one worker, and `Pipeline.enact` makes moves one after another, in whatever
order the workers take them.  `Pipeline.deliver` is what is left of a move for the sink: nothing for
a filter's step, and for the sink's own step a receipt of the reference, whoever makes the move.

Main statement: moves in which each worker goes through rows of tiles stage by stage act on the sink
as their deliveries do, failures included (`map_enact`).  The invariant is that every worker's rows
show the next stage of its row what it is to see (`Pipeline.Poised`).
-/

namespace Scanline

/-- One step of one worker. -/
structure Move where
  /-- The worker. -/
  worker : Nat
  /-- The step. -/
  step : Pipeline.Step
deriving DecidableEq, Repr

/-- The steps that one worker makes, in order. -/
def Move.own (worker : Nat) (moves : List Move) : List Pipeline.Step :=
  (moves.filter (·.worker = worker)).map Move.step

theorem Move.own_cons_self (move : Move) (rest : List Move) :
    own move.worker (move :: rest) = move.step :: own move.worker rest := by simp [own]

theorem Move.own_cons_of_ne {move : Move} {worker : Nat} (h : move.worker ≠ worker)
    (rest : List Move) : own worker (move :: rest) = own worker rest := by simp [own, h]

namespace Pipeline

/-- A step may follow another when it opens a row or is the next stage of the same row. -/
def Step.Follows (a b : Step) : Prop := b.stage = 0 ∨ b = { a with stage := a.stage + 1 }

/-- Steps that begin with the first stage of a row and follow one another. -/
def Orderly (steps : List Step) : Prop :=
  steps.IsChain Step.Follows ∧ ∀ first ∈ steps.head?, first.stage = 0

variable (p : Pipeline)

/-- Makes moves one after another. -/
def enact (input : List Plane) : List Move → Progress → Outcome Progress :=
  .each fun move ↦ p.perform input move.worker move.step

/-- A move as far as the sink is concerned: the last stage hands over the reference, all others do
nothing. -/
def deliver (input : List Plane) (move : Move) (sink : Sink) : Outcome Sink :=
  if move.step.stage = p.filters.length then
    sink.receive (p.rowsOf (p.stripAt input move.step.row move.step.stage) move.step)
      (p.segment move.worker move.step)
  else .done sink

/-- A worker whose rows are ready for the steps it has still to make. -/
structure Poised (input : List Plane) (rows : Workspace) (steps : List Step) : Prop where
  /-- The rows have their lengths. -/
  shaped : p.Shaped rows
  /-- All steps are in the frame. -/
  inFrame : ∀ step ∈ steps, p.InFrame step
  /-- The steps follow one another. -/
  chain : steps.IsChain Step.Follows
  /-- The rows show the first step what it is to see. -/
  shows : ∀ first ∈ steps.head?, p.Shows input first first.stage first.stage rows

variable {p} {input : List Plane} {rows : Workspace}

/-! ## One worker -/

theorem shows_of_stage_zero {step : Step} (h : step.stage = 0) :
    p.Shows input step step.stage step.stage rows := by
  intro c ch first _ _ hlt
  omega

theorem poised_of_orderly {steps : List Step} (hrows : p.Shaped rows)
    (hframe : ∀ step ∈ steps, p.InFrame step) (horderly : Orderly steps) :
    p.Poised input rows steps :=
  ⟨hrows, hframe, horderly.1, fun first hfirst ↦ shows_of_stage_zero (horderly.2 first hfirst)⟩

/-- What a step leaves of the rows is ready for the steps after it. -/
theorem Poised.advance {step : Step} {rest : List Step} {after : Workspace}
    (h : p.Poised input rows (step :: rest)) (hadv : p.Advances input step rows after) :
    p.Poised input after rest := by
  refine ⟨hadv.shaped, fun s hs ↦ h.inFrame s (List.mem_cons_of_mem _ hs), h.chain.tail,
    fun next hnext ↦ ?_⟩
  obtain ⟨rest', rfl⟩ : ∃ rest', rest = next :: rest' := by
    cases rest with
    | nil => simp at hnext
    | cons b rest' => simp at hnext; exact ⟨rest', by rw [hnext]⟩
  rcases (List.isChain_cons_cons.1 h.chain).1 with hzero | hnext
  · exact shows_of_stage_zero hzero
  · have hframe := h.inFrame next (by simp)
    have hlt : step.stage < p.filters.length := by
      have := hframe.stage_le
      rw [hnext] at this
      exact this
    rw [hnext]
    exact hadv.shows hlt (h.shows step (by simp))

/-- Rows that are ready for a step without an obstacle are left ready for the steps after it.  A
filter changes nothing else, and the sink is handed the reference. -/
theorem Poised.perform_eq (h : p.Planned) (planes : p.channels ≤ input.length) {step : Step}
    {rest : List Step} (hpoised : p.Poised input rows (step :: rest))
    (clear : p.obstacle input step = none) {worker : Nat} {s : Progress}
    (hworker : s.workers[worker]? = some rows) :
    ∃ after, p.Poised input after rest ∧ p.perform input worker step s =
      if step.stage = p.filters.length then
        (s.sink.receive (p.rowsOf (p.stripAt input step.row step.stage) step)
          (p.segment worker step)).map (Progress.mk (s.workers.setIfInBounds worker after))
      else .done ⟨s.workers.setIfInBounds worker after, s.sink⟩ := by
  have hframe := hpoised.inFrame step (by simp)
  have hshows := hpoised.shows step (by simp)
  rcases Nat.lt_or_eq_of_le hframe.stage_le with hstage | hlast
  · obtain ⟨after, hadv, hperform⟩ :=
      perform_filter h planes clear hframe hstage hworker hpoised.shaped
    exact ⟨after, hpoised.advance hadv, by rw [hperform, if_neg (Nat.ne_of_lt hstage)]⟩
  · obtain ⟨after, strip, hadv, hstrip, hperform⟩ :=
      perform_sink h planes clear hframe hlast hworker hpoised.shaped
    exact ⟨after, hpoised.advance hadv, by rw [hperform, if_pos hlast, hstrip hshows]⟩

/-! ## All workers -/

/-- Workers that are ready for the moves that are still to be made. -/
def AllPoised (p : Pipeline) (input : List Plane) (s : Progress) (moves : List Move) : Prop :=
  (∀ move ∈ moves, move.worker < s.workers.size) ∧
    ∀ worker rows, s.workers[worker]? = some rows → p.Poised input rows (Move.own worker moves)

/-- A worker that went on by its move is ready for its next ones, and so are the others, which were
not touched. -/
theorem AllPoised.advance {move : Move} {rest : List Move} {s : Progress}
    (hall : AllPoised p input s (move :: rest)) {after : Workspace}
    (hafter : p.Poised input after (Move.own move.worker rest)) (sink : Sink) :
    AllPoised p input ⟨s.workers.setIfInBounds move.worker after, sink⟩ rest := by
  obtain ⟨hknown, hpoised⟩ := hall
  constructor
  · intro m hm
    simpa using hknown m (List.mem_cons_of_mem _ hm)
  · intro worker rows hrows
    dsimp only at hrows
    rw [Array.getElem?_setIfInBounds] at hrows
    by_cases hw : move.worker = worker
    · subst hw
      rw [if_pos rfl, if_pos (hknown move List.mem_cons_self)] at hrows
      cases hrows
      exact hafter
    · rw [if_neg hw] at hrows
      have hother := hpoised worker rows hrows
      rwa [Move.own_cons_of_ne hw] at hother

/-- One move acts on the sink as its delivery does, and leaves all workers ready. -/
theorem map_perform_eq_deliver (h : p.Planned) (small : p.rowLength < Size.bound)
    (hinput : p.Fed input) {move : Move} {rest : List Move} {s : Progress}
    (hall : AllPoised p input s (move :: rest)) :
    (p.perform input move.worker move.step s).map Progress.sink = p.deliver input move s.sink ∧
      ((p.perform input move.worker move.step s).failure = none →
        AllPoised p input (p.perform input move.worker move.step s).state rest) := by
  have hworker : s.workers[move.worker]? = some _ :=
    Array.getElem?_eq_getElem (hall.1 move List.mem_cons_self)
  have hown := hall.2 _ _ hworker
  rw [Move.own_cons_self] at hown
  have hframe := hown.inFrame move.step (by simp)
  obtain ⟨after, hafter, hperform⟩ :=
    hown.perform_eq h hinput.planes (obstacle_of_fed h.scheduled small hinput hframe) hworker
  rw [hperform, deliver]
  split_ifs
  · exact ⟨rfl, fun _ ↦ hall.advance hafter _⟩
  · exact ⟨rfl, fun _ ↦ hall.advance hafter s.sink⟩

/-- Moves act on the sink as their deliveries do. -/
theorem map_enact (h : p.Planned) (small : p.rowLength < Size.bound) (hinput : p.Fed input)
    {moves : List Move} {s : Progress} (hall : AllPoised p input s moves) :
    (p.enact input moves s).map Progress.sink = .each (p.deliver input) moves s.sink := by
  refine Outcome.map_each_of_step ?_ hall
  intro _ _ _ hall
  exact map_perform_eq_deliver h small hinput hall

/-! ## Tiles -/

theorem orderly_nil : Orderly [] := ⟨by simp, by simp⟩

theorem Orderly.append {a b : List Step} (ha : Orderly a) (hb : Orderly b) :
    Orderly (a ++ b) := by
  refine ⟨List.isChain_append.2 ⟨ha.1, hb.1, fun x _ y hy ↦ .inl (hb.2 y hy)⟩,
    fun first hfirst ↦ ?_⟩
  cases a with
  | nil => exact hb.2 first hfirst
  | cons x rest => exact ha.2 first hfirst

theorem Orderly.flatMap {ι : Type} {f : ι → List Step} {l : List ι}
    (hf : ∀ i ∈ l, Orderly (f i)) : Orderly (l.flatMap f) := by
  induction l with
  | nil => exact orderly_nil
  | cons i rest ih =>
    rw [List.flatMap_cons]
    exact (hf i (by simp)).append (ih fun j hj ↦ hf j (List.mem_cons_of_mem _ hj))

theorem orderly_rowSteps (p : Pipeline) (tile row : Nat) : Orderly (p.rowSteps tile row) := by
  unfold rowSteps stageCount
  constructor
  · rw [List.isChain_map, List.isChain_range]
    exact fun stage _ ↦ .inr rfl
  · rw [List.range_succ_eq_map]
    simp

theorem orderly_steps (p : Pipeline) (tile : Nat) : Orderly (p.steps tile) :=
  Orderly.flatMap fun row _ ↦ orderly_rowSteps p tile row

theorem mem_steps {tile : Nat} {step : Step} :
    step ∈ p.steps tile ↔ step.column = tile % p.tilesAcross * p.tileSide ∧
      step.length = min p.tileSide (p.width - step.column) ∧
      p.tileTop tile ≤ step.row ∧ step.row < p.tileTop tile + p.tileRows tile ∧
      step.stage ≤ p.filters.length := by
  simp only [steps, rowSteps, stageCount, List.mem_flatMap, List.mem_range'_1, List.mem_map,
    List.mem_range]
  constructor
  · rintro ⟨row, ⟨hge, hlt⟩, stage, hstage, rfl⟩
    exact ⟨rfl, rfl, hge, hlt, by simp only; omega⟩
  · rintro ⟨hcolumn, hlength, hge, hlt, hstage⟩
    refine ⟨step.row, ⟨hge, hlt⟩, step.stage, by omega, ?_⟩
    rw [← hcolumn, ← hlength]

theorem column_lt (h : p.Planned) (tile : Nat) :
    tile % p.tilesAcross * p.tileSide < p.width := by
  have hside := h.side_pos
  have hwidth := h.width_pos
  have hpos : 0 < p.tilesAcross := Nat.div_pos (by omega) hside
  have hmod := Nat.mod_lt tile hpos
  have hacross : p.tilesAcross * p.tileSide ≤ p.width + p.tileSide - 1 := Nat.div_mul_le_self _ _
  have hle : (tile % p.tilesAcross + 1) * p.tileSide ≤ p.tilesAcross * p.tileSide :=
    Nat.mul_le_mul_right _ hmod
  rw [Nat.add_mul, Nat.one_mul] at hle
  omega

theorem inFrame_of_mem_steps (h : p.Planned) {tile : Nat} {step : Step}
    (hstep : step ∈ p.steps tile) : p.InFrame step := by
  obtain ⟨hcolumn, hlength, hge, hlt, hstage⟩ := mem_steps.1 hstep
  have hinside := column_lt h tile
  rw [← hcolumn] at hinside
  unfold tileRows at hlt
  exact ⟨by omega, by omega, by omega, hstage⟩

/-- A tile of the frame has a number for the row below it. -/
theorem tileTop_add_lt (h : p.Planned) (side : p.tileSide < Size.bound)
    (height : p.height < sideBound) {tile : Nat} (htile : tile < p.tileCount) :
    p.tileTop tile + p.tileSide < Size.bound := by
  have hside := h.side_pos
  have hpos : 0 < p.tilesAcross := Nat.pos_of_ne_zero fun hzero ↦ by
    simp [tileCount, hzero] at htile
  have hdown : tile / p.tilesAcross < p.tilesDown := by
    rw [Nat.div_lt_iff_lt_mul hpos, Nat.mul_comm]
    exact htile
  have hrows : p.tilesDown * p.tileSide ≤ p.height + p.tileSide - 1 := Nat.div_mul_le_self _ _
  have hle : (tile / p.tilesAcross + 1) * p.tileSide ≤ p.tilesDown * p.tileSide :=
    Nat.mul_le_mul_right _ hdown
  rw [Nat.add_mul, Nat.one_mul] at hle
  have htop : p.tileTop tile < p.height := by unfold tileTop; omega
  unfold tileTop at htop ⊢
  rcases Nat.eq_zero_or_pos (tile / p.tilesAcross) with hzero | hrow
  · rw [hzero]
    omega
  · have hone : 1 * p.tileSide ≤ tile / p.tilesAcross * p.tileSide := Nat.mul_le_mul_right _ hrow
    unfold Size.bound
    unfold sideBound at height
    omega

theorem tileCount_lt (h : p.Planned) (width : p.width < sideBound) (height : p.height < sideBound) :
    p.tileCount < Size.bound := by
  have hcount : ∀ extent, 0 < extent → (extent + p.tileSide - 1) / p.tileSide ≤ extent := by
    intro extent hpos
    have hside := h.side_pos
    rw [Nat.div_le_iff_le_mul_add_pred hside]
    have hle : extent ≤ p.tileSide * extent := Nat.le_mul_of_pos_left _ hside
    omega
  have hacross := hcount p.width h.width_pos
  have hdown := hcount p.height h.height_pos
  calc p.tilesAcross * p.tilesDown ≤ p.width * p.height := Nat.mul_le_mul hacross hdown
    _ < sideBound * sideBound := Nat.mul_lt_mul'' width height
    _ = Size.bound := by decide

end Pipeline

end Scanline
