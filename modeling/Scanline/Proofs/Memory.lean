import Mathlib.Algebra.BigOperators.Ring.List
import Scanline.Proofs.Runs

/-!
# The memory of a run

`Pipeline.rowMemory` estimates what the rows of all workers take, before any of them is reserved.
Here the estimate is compared with the rows themselves: `rowsFor` counts the rows of a channel by
what the stages do with it, and `Workspace.bytes` the bytes that were reserved.

Main statement: the estimate is the number of bytes that is reserved, cut off at the largest size,
as long as the rows of one worker are sizes, so no run reserves more than it may
(`Blueprint.rowMemory_of_build`).  A single worker whose rows take more than any size makes the
estimate overflow instead of cutting it off (`Blueprint.rowMemory_of_wide_tile`).
-/

namespace Scanline

/-! ## Rows of a channel -/

/-- The rows that a worker keeps for a channel, by what the stages do with it: none unless one of
them uses it, and two if one of them changes it. -/
def rowsFor (modes : List Mode) : Nat :=
  if ∃ mode ∈ modes, mode.reads then if ∃ mode ∈ modes, mode.changes then 2 else 1 else 0

namespace Plan

/-- The rows that a worker keeps for a channel with the given plan. -/
def rows (plan : Plan) : Nat := if plan.inUse then if plan.changed then 2 else 1 else 0

namespace Describes

variable {plan : Plan} {padding : List Nat} {modes : List Mode}

theorem inUse_iff (h : plan.Describes padding modes) :
    plan.inUse ↔ ∃ mode ∈ modes, mode.reads := by
  constructor
  · intro huse
    obtain ⟨first, hfirst⟩ := Option.isSome_iff_exists.1 huse
    obtain ⟨mode, hmode, hreads⟩ := ((h.first_iff first).1 hfirst).1
    exact ⟨mode, List.mem_of_getElem? hmode, hreads⟩
  · rintro ⟨mode, hmem, hreads⟩
    obtain ⟨i, hi⟩ := List.mem_iff_getElem?.1 hmem
    obtain ⟨first, _, hfirst, -⟩ := h.exists_bounds ⟨mode, hi, hreads⟩
    rw [Plan.inUse, hfirst, Option.isSome_some]

theorem rows_eq (h : plan.Describes padding modes) : plan.rows = rowsFor modes := by
  simp only [rows, rowsFor, h.inUse_iff, h.changed_iff]

end Describes

end Plan

namespace Pipeline

variable {p : Pipeline}

theorem rowCount_eq_sum : p.rowCount = (p.plans.map Plan.rows).sum := by
  unfold rowCount
  induction p.plans with
  | nil => rfl
  | cons plan rest ih =>
    rw [List.map_cons, List.sum_cons, ← ih]
    by_cases huse : plan.inUse
    · rw [List.filter_cons_of_pos huse, List.map_cons, List.foldr_cons, Plan.rows, if_pos huse]
    · rw [List.filter_cons_of_neg huse, Plan.rows, if_neg huse, Nat.zero_add]

namespace Planned

variable (h : p.Planned)
include h

theorem modesOf_eq {c : Nat} (hc : c < p.channels) :
    modesOf p.modes c = p.stages.map fun stage ↦ stage.mode c := by
  rw [h.modes_eq, modesOf, List.map_map]
  refine List.map_congr_left fun stage _ ↦ ?_
  simp [hc]

/-- A worker keeps the rows that the stages ask for, channel by channel. -/
theorem rowCount_eq :
    p.rowCount = ((List.range p.channels).map fun c ↦
      rowsFor (p.stages.map fun stage ↦ stage.mode c)).sum := by
  rw [rowCount_eq_sum, h.plans_eq, planChannels, List.map_map]
  refine congrArg List.sum (List.map_congr_left fun c hmem ↦ ?_)
  have hdescribes : (Plan.ofModes p.padding (modesOf p.modes c)).Describes p.padding
      (modesOf p.modes c) :=
    Plan.describes_ofModes (by simp [modesOf, h.modes_eq, h.padding_eq])
  rw [Function.comp_apply, hdescribes.rows_eq, h.modesOf_eq (List.mem_range.1 hmem)]

/-- A worker's row takes a tile, and on both sides the borders of all stages. -/
theorem rowLength_eq :
    p.rowLength = min p.tileSide p.width + 2 * (p.stages.map Stage.border).sum := by
  rw [rowLength, paddingAt, h.padding_eq, paddingOf_getD, List.drop_zero]

end Planned

end Pipeline

/-! ## Bytes that are reserved -/

/-- The bytes of the rows of a channel. -/
def RowPair.bytes (ch : RowPair) : Nat := (ch.front.size + ch.back.size) * sampleBytes

namespace Workspace

/-- The bytes of a worker's rows. -/
def bytes (rows : Workspace) : Nat :=
  (rows.toList.map fun slot ↦ (slot.map RowPair.bytes).getD 0).sum

theorem bytes_of_reserveChannel {length : Nat} {plan : Plan} {slot : Option RowPair}
    (h : reserveChannel length plan = .ok slot) :
    (slot.map RowPair.bytes).getD 0 = plan.rows * (length * sampleBytes) := by
  rw [eq_of_reserveChannel h, Plan.rows]
  by_cases huse : plan.inUse
  · rw [if_pos huse, if_pos huse, Option.map_some, Option.getD_some, RowPair.bytes,
      Array.size_replicate, Array.size_replicate]
    split_ifs
    · rw [← two_mul, Nat.mul_assoc]
    · rw [Nat.add_zero, Nat.one_mul]
  · rw [if_neg huse, if_neg huse, Nat.zero_mul]
    rfl

theorem bytes_of_reserve {plans : List Plan} {length : Nat} {rows : Workspace}
    (h : reserve plans length = .ok rows) :
    rows.bytes = (plans.map Plan.rows).sum * (length * sampleBytes) := by
  obtain ⟨slots, hslots, hrows⟩ := bind_eq_ok_iff.1 h
  cases hrows
  rw [bytes, map_of_mapM_eq_ok (fun _ _ ↦ bytes_of_reserveChannel) hslots, List.sum_map_mul_right]

end Workspace

namespace Pipeline

variable {p : Pipeline} {n : Nat}

theorem eq_overflow_of_rowMemory {misuse : Misuse} (h : p.rowMemory n = .error misuse) :
    misuse = .overflow := by
  rcases bind_eq_error_iff.1 h with h | ⟨_, -, h⟩
  · exact Size.eq_overflow_of_ofNat h
  rcases bind_eq_error_iff.1 h with h | ⟨_, -, h⟩
  · exact Size.eq_overflow_of_ofNat h
  · cases h

/-- The estimate is that of sizes, or there is none. -/
theorem rowMemory_eq :
    p.rowMemory n =
      if p.rowLength < Size.bound ∧ p.rowCount * p.rowLength * sampleBytes < Size.bound then
        .ok (Size.satMul (p.rowCount * p.rowLength * sampleBytes) n)
      else .error .overflow := by
  split_ifs with hsizes
  · exact rowMemory_eq_ok_iff.2 ⟨hsizes.1, hsizes.2, rfl⟩
  · cases hmemory : p.rowMemory n with
    | ok bytes =>
      obtain ⟨hlength, hcount, -⟩ := rowMemory_eq_ok_iff.1 hmemory
      exact absurd ⟨hlength, hcount⟩ hsizes
    | error misuse =>
      rw [eq_overflow_of_rowMemory hmemory]

theorem sum_bytes_of_reserve {rows : Workspace}
    (h : Workspace.reserve p.plans p.rowLength = .ok rows) :
    ((Array.replicate n rows).map Workspace.bytes).sum =
      p.rowCount * p.rowLength * sampleBytes * n := by
  rw [rowCount_eq_sum, Nat.mul_assoc _ p.rowLength, ← Workspace.bytes_of_reserve h]
  simp [Nat.mul_comm]

end Pipeline

/-! ## Building -/

namespace Blueprint

variable {b : Blueprint} {p : Pipeline} {sink : Sink}

/-- The length of a worker's row: a tile, and on both sides the borders of all stages. -/
def rowLength (b : Blueprint) (width : Nat) : Nat :=
  min b.tileSide width + 2 * (b.stages.map Stage.border).sum

/-- The rows of a worker: those of all channels. -/
def rowCount (b : Blueprint) : Nat :=
  ((List.range b.sizes.length).map fun c ↦ rowsFor (b.stages.map fun stage ↦ stage.mode c)).sum

namespace Yields

theorem map_mode_eq (h : b.Yields p sink) : b.stages.map Stage.mode = p.stages.map Stage.mode := by
  rw [h.stages_eq, Pipeline.stages, ← h.state_bind]
  simp [Stage.mode]

theorem map_border_eq (h : b.Yields p sink) :
    b.stages.map Stage.border = p.stages.map Stage.border := by
  rw [h.stages_eq, Pipeline.stages]
  simp [Stage.border]

theorem rowLength_eq (h : b.Yields p sink) : p.rowLength = b.rowLength p.width := by
  rw [h.planned.rowLength_eq, rowLength, h.map_border_eq, h.side_eq]

theorem rowCount_eq (h : b.Yields p sink) : p.rowCount = b.rowCount := by
  rw [h.planned.rowCount_eq, rowCount, h.length_sizes]
  refine congrArg List.sum (List.map_congr_left fun c _ ↦ congrArg rowsFor ?_)
  have := congrArg (List.map fun mode : Nat → Mode ↦ mode c) h.map_mode_eq
  simpa [List.map_map, Function.comp_def] using this.symm

end Yields

/-- Built for a frame whose rows are sizes for one worker, a pipeline estimates the memory of all
workers' rows as what they take, cut off at the largest size; without such rows there is no
estimate.  What is reserved takes exactly that, so a run that passes its check reserves no more than
it may, unless the largest size is allowed and even that is exceeded. -/
theorem rowMemory_of_build (b : Blueprint) (p : Pipeline) (h : b.build.pipeline = .ok p)
    (workers : Nat) :
    let length := b.rowLength p.width
    let bytes := sampleBytes * workers * length * b.rowCount
    b.sizes = List.replicate b.sizes.length p.size ∧
      p.rowMemory workers =
        (if length < Size.bound ∧ sampleBytes * length * b.rowCount < Size.bound then
          .ok (min Size.largest bytes)
        else .error .overflow) ∧
      ∀ rows, Workspace.reserve p.plans p.rowLength = .ok rows →
        ((Array.replicate workers rows).map Workspace.bytes).sum = bytes ∧
        ∀ input most, p.checkRun input workers = .ok () → b.limits.memory = some most →
          most < Size.largest ∨ bytes ≤ Size.largest →
            ((Array.replicate workers rows).map Workspace.bytes).sum ≤ most := by
  intro length bytes
  obtain ⟨_, hyields⟩ := exists_yields h
  have hone : p.rowCount * p.rowLength * sampleBytes = sampleBytes * length * b.rowCount := by
    rw [hyields.rowLength_eq, hyields.rowCount_eq, Nat.mul_comm _ sampleBytes,
      Nat.mul_comm _ length, Nat.mul_assoc]
  have hall : p.rowCount * p.rowLength * sampleBytes * workers = bytes := by
    rw [hone, Nat.mul_right_comm _ _ workers, Nat.mul_right_comm _ _ workers]
  refine ⟨hyields.sizes_eq_replicate, ?_, fun rows hrows ↦ ?_⟩
  · rw [Pipeline.rowMemory_eq, hone, hyields.rowLength_eq, Size.satMul, ← hone, hall, Nat.min_comm]
  · have hsum := (Pipeline.sum_bytes_of_reserve hrows (n := workers)).trans hall
    refine ⟨hsum, fun input most hrun hmost hcut ↦ ?_⟩
    obtain ⟨-, -, -, estimate, hestimate, hreserved⟩ := Pipeline.checkRun_eq_ok_iff.1 hrun
    obtain ⟨-, -, rfl⟩ := Pipeline.rowMemory_eq_ok_iff.1 hestimate
    have hle := Limits.check_eq_ok_iff.1 hreserved most (hyields.limits_eq ▸ hmost)
    rw [Size.satMul, hall] at hle
    rw [hsum]
    omega

/-- Two workers smooth three of four channels, in tiles of two pixels, with seven rows each. -/
theorem rowMemory_of_build_smoothed :
    let filters : List Filter := [.premultiply ⟨3, le_rfl⟩, .smooth .standard]
    let s : PackedSink := ⟨Array.replicate 46 7, 17, 3, true, some 3, .standard⟩
    let b : Blueprint := ⟨List.replicate 4 (3, 2), filters.map .filter ++ [.sink (.packed s)], 2,
      { memory := some 224 }⟩
    let input : List Plane :=
      List.replicate 4 ⟨3, 2, 4, Array.replicate 7 .one, by decide, by decide⟩
    ∃ p, b.build.pipeline = .ok p ∧ p.rowMemory 2 = .ok 224 ∧ p.checkRun input 2 = .ok () ∧
      ∃ rows, Workspace.reserve p.plans p.rowLength = .ok rows ∧
        ((Array.replicate 2 rows).map Workspace.bytes).sum ≤ 224 := by
  intro filters s b input
  refine ⟨_, rfl, ?_⟩
  obtain ⟨-, hestimate, hreserved⟩ := rowMemory_of_build b _ rfl 2
  refine ⟨hestimate.trans (by decide +kernel), by decide +kernel, _, rfl, ?_⟩
  exact (hreserved _ rfl).2 input 224 (by decide +kernel) rfl (.inl (by decide))

/-- A row as wide as a quarter of all sizes takes one byte more than the largest size, which is no
estimate. -/
theorem rowMemory_of_wide_tile :
    let sink : Sink :=
      .stream ⟨{ width := 1, height := 1, format := .gray8 }, .willing, false, #[], #[]⟩
    ∃ p, (Blueprint.build ⟨[(4611686018427387904, 1)], [.sink sink], 4611686018427387904,
        {}⟩).pipeline = .ok p ∧
      p.rowMemory 1 = .error .overflow :=
  ⟨_, rfl, by decide +kernel⟩

end Blueprint

end Scanline
