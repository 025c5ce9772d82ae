import Scanline.Proofs.Runs

/-!
# What the sink is left with

A list of moves reaches the sink as its deliveries (`Pipeline.map_enact`).  A sink with a buffer or
planes is then the one it was with the sink's own steps drawn on it (`Pipeline.each_deliver_draws`);
a sink with a consumer has offered the calls of these steps (`Pipeline.each_deliver_offers`).
Neither depends on the workers, apart from the worker that a call names.

The sink's steps cut the frame into pieces: two of them have no pixel in common
(`Pipeline.apart_of_mem_sinkSteps`), and every pixel is in one (`Pipeline.exists_step_of_pixel`).
-/

namespace Scanline.Pipeline

variable (p : Pipeline)

/-- The steps of all tiles in order. -/
def allSteps : List Step := (List.range p.tileCount).flatMap p.steps

/-- The steps at which the sink takes part. -/
def sinkSteps (steps : List Step) : List Step := steps.filter (·.stage = p.filters.length)

/-- The rows that the sink sees. -/
def rendered (input : List Plane) (y : Nat) : Strip := p.stripAt input y p.filters.length

/-- The calls that a move makes of a consumer. -/
def moveCalls (input : List Plane) (o : StreamOptions) (move : Move) : List Call :=
  if move.step.stage = p.filters.length then
    o.stepCalls move.worker (p.rendered input move.step.row) move.step
  else []

variable {p} {input : List Plane} {n : Nat}

theorem rendered_eq (input : List Plane) (y : Nat) :
    p.rendered input y = (Strip.ofPlanes input y).through p.filters := by
  rw [rendered, stripAt, List.take_length]

/-! ## Deliveries of moves -/

/-- Moves draw the sink's own steps, in a sink that has something to draw on. -/
theorem each_deliver_draws (h : p.Planned) (small : p.width < Size.bound) {moves : List Move}
    (hmoves : ∀ move ∈ moves, p.InFrame move.step) {s : Sink} (hs : s.Ready p n)
    (hkind : s.kind ≠ .stream) :
    Outcome.each (p.deliver input) moves s =
      .done (s.drawAll (p.rendered input) (p.sinkSteps (moves.map Move.step))) := by
  induction moves generalizing s with
  | nil => rfl
  | cons move rest ih =>
    have hrest : ∀ m ∈ rest, p.InFrame m.step := fun m hm ↦ hmoves m (List.mem_cons_of_mem _ hm)
    by_cases hstage : move.step.stage = p.filters.length
    · have hdeliver : p.deliver input move s =
          .done (s.draw (p.rendered input move.step.row) move.step) := by
        rw [deliver, if_pos hstage, Sink.receive_eq_draw h small hs hkind
          (hmoves move List.mem_cons_self) hstage, rendered, hstage]
      rw [Outcome.each_cons, hdeliver, Outcome.done_next, ih hrest (hs.draw _ _)
        (by rwa [Sink.kind_draw]), sinkSteps, sinkSteps, List.map_cons,
        List.filter_cons_of_pos (by simpa using hstage), Sink.drawAll_cons]
    · have hdeliver : p.deliver input move s = .done s := by rw [deliver, if_neg hstage]
      rw [Outcome.each_cons, hdeliver, Outcome.done_next, ih hrest hs hkind, sinkSteps, sinkSteps,
        List.map_cons, List.filter_cons_of_neg (by simpa using hstage)]

/-- Moves offer their calls, one move after another. -/
theorem each_deliver_offers (h : p.Planned) (small : p.width < Size.bound) {moves : List Move}
    (hmoves : ∀ move ∈ moves, move.worker < n ∧ p.InFrame move.step) {s : StreamSink}
    (hs : (Sink.stream s).Ready p n) :
    ∃ buffers, (Sink.stream { s with buffers }).Ready p n ∧
      Outcome.each (p.deliver input) moves (.stream s) =
        (Outcome.each StreamSink.offer (moves.flatMap (p.moveCalls input s.options))
          { s with buffers }).map .stream := by
  have hstep : ∀ move ∈ moves, ∀ t : StreamSink,
      (Sink.stream t).Ready p n ∧ t.options = s.options →
        ∃ buffers, ((Sink.stream { t with buffers }).Ready p n ∧ t.options = s.options) ∧
          (if move.step.stage = p.filters.length then
            t.receive (p.rowsOf (p.stripAt input move.step.row move.step.stage) move.step)
              (p.segment move.worker move.step)
          else .done t) =
            Outcome.each StreamSink.offer (p.moveCalls input s.options move)
              { t with buffers } := by
    rintro move hmove t ⟨hready, hoptions⟩
    obtain ⟨hworker, hframe⟩ := hmoves move hmove
    unfold moveCalls
    split_ifs with hstage
    · obtain ⟨buffers, hbuffers, hreceive⟩ := Sink.receive_eq_stepCalls h small hready hframe hstage
        (p.stripAt input move.step.row move.step.stage) hworker
      refine ⟨buffers, ⟨hbuffers, hoptions⟩, ?_⟩
      rw [← hoptions, rendered, ← hstage]
      exact hreceive
    · exact ⟨t.buffers, ⟨hready, hoptions⟩, rfl⟩
  obtain ⟨buffers, ⟨hbuffers, -⟩, hoffers⟩ :=
    StreamSink.each_eq_offers (fun t log ht ↦ ⟨ht.1.with_log log, ht.2⟩) hstep ⟨hs, rfl⟩
  refine ⟨buffers, hbuffers, ?_⟩
  rw [← hoffers]
  symm
  refine Outcome.map_each_of_step (R := fun _ _ ↦ True) (fun move rest t _ ↦ ⟨?_, fun _ ↦ trivial⟩)
    trivial
  unfold deliver
  split <;> rfl

/-! ## Steps cut the frame -/

theorem mem_sinkSteps {steps : List Step} {step : Step} :
    step ∈ p.sinkSteps steps ↔ step ∈ steps ∧ step.stage = p.filters.length := by
  simp [sinkSteps]

theorem mem_allSteps {step : Step} :
    step ∈ p.allSteps ↔ ∃ tile < p.tileCount, step ∈ p.steps tile := by
  simp [allSteps]

/-- Two steps of the sink in a frame are one step or have no pixel in common. -/
theorem apart_of_mem_sinkSteps (h : p.Planned) {a b : Step} (ha : a ∈ p.sinkSteps p.allSteps)
    (hb : b ∈ p.sinkSteps p.allSteps) (hne : a ≠ b) : a.Apart b := by
  have hside := h.side_pos
  obtain ⟨hmemA, hstageA⟩ := mem_sinkSteps.1 ha
  obtain ⟨hmemB, hstageB⟩ := mem_sinkSteps.1 hb
  obtain ⟨i, -, hi⟩ := mem_allSteps.1 hmemA
  obtain ⟨j, -, hj⟩ := mem_allSteps.1 hmemB
  obtain ⟨hcolumnA, hlengthA, htopA, hbottomA, -⟩ := mem_steps.1 hi
  obtain ⟨hcolumnB, hlengthB, htopB, hbottomB, -⟩ := mem_steps.1 hj
  by_cases hrow : a.row = b.row
  case neg => exact .inl hrow
  rcases Nat.lt_trichotomy (i % p.tilesAcross) (j % p.tilesAcross) with hlt | heq | hgt
  · have hle : (i % p.tilesAcross + 1) * p.tileSide ≤ j % p.tilesAcross * p.tileSide :=
      Nat.mul_le_mul_right _ hlt
    rw [Nat.add_mul, Nat.one_mul] at hle
    exact .inr (.inl (by omega))
  · -- Tiles in one column of tiles: the steps agree in all their parts.
    have hcolumn : a.column = b.column := by rw [hcolumnA, hcolumnB, heq]
    have hlength : a.length = b.length := by rw [hlengthA, hlengthB, hcolumn]
    refine absurd ?_ hne
    cases a
    cases b
    simp_all
  · have hle : (j % p.tilesAcross + 1) * p.tileSide ≤ i % p.tilesAcross * p.tileSide :=
      Nat.mul_le_mul_right _ hgt
    rw [Nat.add_mul, Nat.one_mul] at hle
    exact .inr (.inr (by omega))

/-- The tile that a pixel is in. -/
def tileOf (p : Pipeline) (x y : Nat) : Nat :=
  x / p.tileSide + p.tilesAcross * (y / p.tileSide)

theorem div_lt_pieces {a extent side : Nat} (hside : 0 < side) (ha : a < extent) :
    a / side < (extent + side - 1) / side := by
  rw [← Nat.succ_le_iff, Nat.succ_eq_add_one, ← Nat.add_div_right a hside]
  exact Nat.div_le_div_right (by omega)

theorem tileOf_mod (h : p.Planned) {x : Nat} (hx : x < p.width) (y : Nat) :
    p.tileOf x y % p.tilesAcross = x / p.tileSide := by
  have hacross : x / p.tileSide < p.tilesAcross := div_lt_pieces h.side_pos hx
  rw [tileOf, Nat.add_mul_mod_self_left, Nat.mod_eq_of_lt hacross]

theorem tileOf_div (h : p.Planned) {x : Nat} (hx : x < p.width) (y : Nat) :
    p.tileOf x y / p.tilesAcross = y / p.tileSide := by
  have hacross : x / p.tileSide < p.tilesAcross := div_lt_pieces h.side_pos hx
  rw [tileOf, Nat.add_mul_div_left _ _ (Nat.zero_lt_of_lt hacross), Nat.div_eq_of_lt hacross,
    Nat.zero_add]

theorem tileOf_lt (h : p.Planned) {x y : Nat} (hx : x < p.width) (hy : y < p.height) :
    p.tileOf x y < p.tileCount := by
  have hacross : x / p.tileSide < p.tilesAcross := div_lt_pieces h.side_pos hx
  rw [tileCount, Nat.mul_comm, ← Nat.div_lt_iff_lt_mul (Nat.zero_lt_of_lt hacross),
    tileOf_div h hx]
  exact div_lt_pieces h.side_pos hy

/-- Every pixel of a frame is one of some step of the sink. -/
theorem exists_step_of_pixel (h : p.Planned) {x y : Nat} (hx : x < p.width) (hy : y < p.height) :
    ∃ step ∈ p.sinkSteps p.allSteps,
      step.row = y ∧ step.column ≤ x ∧ x < step.column + step.length := by
  have hleft := Nat.div_mul_le_self x p.tileSide
  have htop := Nat.div_mul_le_self y p.tileSide
  have hright := Nat.lt_div_mul_add h.side_pos (a := x)
  have hbottom := Nat.lt_div_mul_add h.side_pos (a := y)
  have hfirst : p.tileTop (p.tileOf x y) = y / p.tileSide * p.tileSide := by
    rw [tileTop, tileOf_div h hx]
  have hmem : ⟨x / p.tileSide * p.tileSide,
      min p.tileSide (p.width - x / p.tileSide * p.tileSide), y, p.filters.length⟩ ∈
      p.steps (p.tileOf x y) := by
    refine mem_steps.2 ⟨by rw [tileOf_mod h hx], rfl, ?_, ?_, le_rfl⟩
    · rw [hfirst]
      exact htop
    · rw [tileRows, hfirst]
      dsimp only
      omega
  refine ⟨_, mem_sinkSteps.2 ⟨mem_allSteps.2 ⟨_, tileOf_lt h hx hy, hmem⟩, rfl⟩, rfl, hleft, ?_⟩
  dsimp only
  omega

end Scanline.Pipeline
