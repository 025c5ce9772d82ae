import Scanline.Pipeline.Blueprint
import Scanline.Pipeline.Worker
import Scanline.Proofs.Outcome
import Scanline.Proofs.Usage

/-!
# What a built pipeline promises

`Blueprint.Yields` collects what a successful build establishes: the list of stages was filters and
one sink, the sink was bound to the sizes of the channels, which are all the same, and every stage
finds the channels it needs.  `Pipeline.Planned` is the part that speaks of the pipeline alone.  Its
schedule is one of modes and borders, whatever stages these are of: the lemmas of
`Pipeline.Scheduled` say how padding, modes and plans of a channel go together.
-/

namespace Scanline

/-! ## Binding a sink -/

section Bind

variable (s : Sink) (sizes : List (Nat × Nat))

@[simp] theorem Sink.kind_bind : (s.bind sizes).state.kind = s.kind := by cases s <;> rfl

theorem PackedSink.state_bind (s : PackedSink) : (s.bind sizes).state = s := by
  unfold PackedSink.bind
  split <;> rfl

@[simp] theorem Sink.mode_bind : (s.bind sizes).state.mode = s.mode := by
  cases s with
  | packed s => simp [Sink.bind, Sink.mode, PackedSink.state_bind]
  | stream s => rfl
  | frame s => rfl
  | planar s => rfl

@[simp] theorem Sink.channelsNeeded_bind :
    (s.bind sizes).state.channelsNeeded = s.channelsNeeded := by
  cases s with
  | packed s => simp [Sink.bind, Sink.channelsNeeded, PackedSink.state_bind]
  | stream s => rfl
  | frame s => rfl
  | planar s => rfl

end Bind

/-! ## Pipelines with their plans -/

/-- No stage reads further than its next neighbors. -/
theorem Stage.border_le_one (stage : Stage) : stage.border ≤ 1 := by
  cases stage with
  | sink s => exact Nat.zero_le 1
  | filter f =>
    cases f with
    | premultiply s => exact Nat.zero_le 1
    | smooth s => exact Nat.le_refl 1

theorem Stage.sum_border_le (stages : List Stage) :
    (stages.map Stage.border).sum ≤ stages.length := by
  induction stages with
  | nil => exact Nat.le_refl 0
  | cons stage rest ih =>
    have hborder := stage.border_le_one
    rw [List.map_cons, List.sum_cons, List.length_cons]
    omega

namespace Pipeline

/-- The stages in order, the sink last. -/
def stages (p : Pipeline) : List Stage := p.filters.map .filter ++ [.sink p.sink]

/-- A pipeline whose schedule is that of its stages. -/
structure Planned (p : Pipeline) : Prop where
  /-- Modes are those of the stages. -/
  modes_eq : p.modes = p.stages.map fun stage ↦ (List.range p.channels).map stage.mode
  /-- Padding is that of the borders of the stages. -/
  padding_eq : p.padding = paddingOf (p.stages.map Stage.border)
  /-- Plans are made from modes and padding. -/
  plans_eq : p.plans = planChannels p.modes p.padding p.channels
  /-- Every stage finds the channels it needs. -/
  needs_le : ∀ stage ∈ p.stages, stage.channelsNeeded ≤ p.channels
  /-- A frame has a channel. -/
  channels_pos : 0 < p.channels
  /-- A frame has a column. -/
  width_pos : 0 < p.width
  /-- A frame has a row. -/
  height_pos : 0 < p.height
  /-- A tile has an extent. -/
  side_pos : 0 < p.tileSide

/-- A pipeline whose schedule was made from modes and borders, whatever its stages are. -/
structure Scheduled (p : Pipeline) (borders : List Nat) : Prop where
  /-- There is a border for each row of modes. -/
  length_modes : p.modes.length = borders.length
  /-- Padding is that of the borders. -/
  padding_eq : p.padding = paddingOf borders
  /-- Plans are made from modes and padding. -/
  plans_eq : p.plans = planChannels p.modes p.padding p.channels

variable {p : Pipeline}

theorem stages_of_filter {i : Nat} {f : Filter} (h : p.filters[i]? = some f) :
    p.stages[i]? = some (.filter f) := by
  have hi : i < (p.filters.map Stage.filter).length := by
    simpa using (List.getElem?_eq_some_iff.1 h).1
  rw [stages, List.getElem?_append_left hi, List.getElem?_map, h]
  rfl

theorem stages_of_sink : p.stages[p.filters.length]? = some (.sink p.sink) := by
  simp [stages]

@[simp] theorem length_stages : p.stages.length = p.stageCount := by simp [stages, stageCount]

theorem usedAt_iff {i c : Nat} : UsedAt (modesOf p.modes c) i ↔ (p.modeAt i c).reads := by
  unfold UsedAt modesOf modeAt
  rw [List.getElem?_map]
  cases p.modes[i]? with
  | none => simp [Mode.reads]
  | some row => simp

namespace Scheduled

variable {borders : List Nat} (h : p.Scheduled borders)
include h

theorem paddingAt_antitone {i j : Nat} (hij : i ≤ j) : p.paddingAt j ≤ p.paddingAt i := by
  simp only [paddingAt, h.padding_eq]
  exact paddingOf_antitone _ hij

theorem describes {c : Nat} (hc : c < p.channels) :
    (p.planAt c).Describes p.padding (modesOf p.modes c) := by
  have hplan : p.planAt c = Plan.ofModes p.padding (modesOf p.modes c) := by
    rw [planAt, h.plans_eq]
    simp [planChannels, hc]
  rw [hplan]
  exact Plan.describes_ofModes (by simp [modesOf, h.length_modes, h.padding_eq])

theorem border_eq {c first : Nat} (hc : c < p.channels) (hfirst : (p.planAt c).first = some first) :
    (p.planAt c).border = p.paddingAt first := (h.describes hc).border_eq first hfirst

theorem changed_of_changes {c i : Nat} (hc : c < p.channels) (hi : (p.modeAt i c).changes) :
    (p.planAt c).changed := by
  refine (h.describes hc).changed_iff.2 ⟨p.modeAt i c, ?_, hi⟩
  have hsome : (modesOf p.modes c)[i]? = some (p.modeAt i c) := by
    simp only [modesOf, modeAt, List.getElem?_map] at hi ⊢
    cases hrow : p.modes[i]? with
    | none => simp [hrow, Mode.changes] at hi
    | some row => simp
  exact List.mem_of_getElem? hsome

theorem exists_first {c i : Nat} (hc : c < p.channels) (hi : (p.modeAt i c).reads) :
    ∃ first, (p.planAt c).first = some first ∧ first ≤ i := by
  obtain ⟨first, _, hfirst, _, hle, _⟩ := (h.describes hc).exists_bounds (usedAt_iff.2 hi)
  exact ⟨first, hfirst, hle⟩

theorem deliversAt_eq {i c : Nat} (hc : c < p.channels) :
    p.deliversAt i c = (p.modeAt i c).reads := by
  unfold deliversAt
  cases hreads : (p.modeAt i c).reads with
  | false => simp
  | true => simp [(h.describes hc).spans_of_usedAt (usedAt_iff.2 hreads)]

end Scheduled

namespace Planned

variable (h : p.Planned)
include h

theorem scheduled : p.Scheduled (p.stages.map Stage.border) where
  length_modes := by simp [h.modes_eq]
  padding_eq := h.padding_eq
  plans_eq := h.plans_eq

/-- The padding of a pipeline is one in sizes, unless it has as many stages as there are sizes. -/
theorem sizedPadding_eq (few : p.stages.length < Size.bound) :
    sizedPadding (p.stages.map Stage.border) = .ok p.padding := by
  have hsum := Stage.sum_border_le p.stages
  rw [h.padding_eq]
  exact sizedPadding_of_lt (Nat.lt_of_le_of_lt hsum few)

theorem modeAt_eq {i c : Nat} {stage : Stage} (hi : p.stages[i]? = some stage)
    (hc : c < p.channels) : p.modeAt i c = stage.mode c := by
  simp [modeAt, h.modes_eq, List.getElem?_map, hi, hc]

theorem modeAt_of_ge {i c : Nat} (hc : p.channels ≤ c) : p.modeAt i c = .skip := by
  have hnone : ((List.range p.channels).map fun _ : Nat ↦ Mode.skip)[c]? = none := by simp [hc]
  unfold modeAt
  rw [h.modes_eq, List.getElem?_map]
  cases p.stages[i]? with
  | none => rfl
  | some stage => simp [hc]

theorem paddingAt_eq {i : Nat} {stage : Stage} (hi : p.stages[i]? = some stage) :
    p.paddingAt i = stage.border + p.paddingAt (i + 1) := by
  simp only [paddingAt, h.padding_eq]
  exact paddingOf_eq_add (by simp [List.getElem?_map, hi])

theorem paddingAt_of_ge {i : Nat} (hi : p.filters.length ≤ i) : p.paddingAt i = 0 := by
  have hlen : (p.stages.map Stage.border).length = p.filters.length + 1 := by simp [stages]
  simp only [paddingAt, h.padding_eq, paddingOf_getD]
  rcases Nat.eq_or_lt_of_le hi with rfl | hlt
  · simp [stages, Stage.border]
  · rw [List.drop_eq_nil_of_le (by omega)]
    rfl

theorem deliversAt_eq {i c : Nat} : p.deliversAt i c = (p.modeAt i c).reads := by
  rcases Nat.lt_or_ge c p.channels with hc | hc
  · exact h.scheduled.deliversAt_eq hc
  · simp [deliversAt, h.modeAt_of_ge hc, Mode.reads]

end Planned

end Pipeline

/-! ## Building -/

namespace Blueprint

/-- What a successful build establishes about the blueprint, the pipeline and the sink. -/
structure Yields (b : Blueprint) (p : Pipeline) (sink : Sink) : Prop where
  /-- The stages are the filters and the sink. -/
  stages_eq : b.stages = p.filters.map .filter ++ [.sink sink]
  /-- The sink was bound to the sizes of the channels. -/
  bind_eq : sink.bind b.sizes = .done p.sink
  /-- All channels have the size of the frame. -/
  sizes_eq : b.sizes = List.replicate p.channels p.size
  /-- Tiles have the side that was asked for. -/
  side_eq : p.tileSide = b.tileSide
  /-- The caps are those that were asked for. -/
  limits_eq : p.limits = b.limits
  /-- The schedule is that of the stages. -/
  planned : p.Planned

namespace Yields

variable {b : Blueprint} {p : Pipeline} {sink : Sink}

theorem filters_eq {s : Sink} {filters : List Filter} (h : b.Yields p sink)
    (stages : b.stages = filters.map .filter ++ [.sink s]) :
    p.filters = filters ∧ sink = s := by
  have hstages : p.filters.map Stage.filter ++ [Stage.sink sink] =
      filters.map Stage.filter ++ [Stage.sink s] := h.stages_eq.symm.trans stages
  obtain ⟨hfilters, hsink⟩ := List.append_inj' hstages rfl
  exact ⟨(List.map_inj_right fun _ _ heq ↦ Stage.filter.inj heq).1 hfilters, by simpa using hsink⟩

theorem state_bind (h : b.Yields p sink) : (sink.bind b.sizes).state = p.sink :=
  congrArg Outcome.state h.bind_eq

theorem kind_sink (h : b.Yields p sink) : p.sink.kind = sink.kind := by
  rw [← h.state_bind, Sink.kind_bind]

theorem length_sizes (h : b.Yields p sink) : b.sizes.length = p.channels := by
  rw [h.sizes_eq, List.length_replicate]

theorem sizes_eq_replicate (h : b.Yields p sink) :
    b.sizes = List.replicate b.sizes.length p.size := by
  rw [h.length_sizes]
  exact h.sizes_eq

theorem channelsNeeded_le (h : b.Yields p sink) : sink.channelsNeeded ≤ p.channels := by
  have hneeds := h.planned.needs_le (.sink p.sink) (by simp [Pipeline.stages])
  rw [← h.state_bind] at hneeds
  simpa [Stage.channelsNeeded] using hneeds

end Yields

theorem map_filterMap_filter? {stages : List Stage} (h : stages.find? Stage.isSink = none) :
    (stages.filterMap Stage.filter?).map .filter = stages := by
  induction stages with
  | nil => rfl
  | cons stage rest ih =>
    rw [List.find?_cons] at h
    cases stage with
    | sink s => simp [Stage.isSink] at h
    | filter f =>
      simp only [Stage.isSink] at h
      simp [Stage.filter?, ih h]

theorem eq_of_split {stages : List Stage} {filters : List Filter} {sink : Sink}
    (h : split stages = .ok (filters, sink)) :
    stages = filters.map .filter ++ [.sink sink] := by
  unfold split at h
  split at h
  case h_1 => cases h
  case h_2 => cases h
  case h_3 last hlast =>
    split at h
    case h_1 => cases h
    case h_2 hnone =>
      cases h
      obtain ⟨front, rfl⟩ := List.getLast?_eq_some_iff.1 hlast
      rw [map_filterMap_filter? hnone, List.dropLast_concat]

/-- Channels that share a size have it one by one, and it has columns and rows. -/
theorem eq_of_frameSize {b : Blueprint} {size : Nat × Nat} (h : b.frameSize = .ok size) :
    b.sizes = List.replicate b.sizes.length size ∧ 0 < b.sizes.length ∧ 0 < size.1 ∧
      0 < size.2 := by
  unfold frameSize at h
  split at h
  case h_1 => cases h
  case h_2 first rest hsizes =>
    split_ifs at h with hzero
    split at h
    case h_1 => cases h
    case h_2 hall =>
      cases h
      rw [List.findIdx?_eq_none_iff] at hall
      have hrest : rest = List.replicate rest.length size :=
        List.eq_replicate_of_mem fun other hother ↦ by simpa using hall other hother
      rw [hsizes]
      refine ⟨?_, by simp, by omega, by omega⟩
      rw [List.length_cons, List.replicate_succ, ← hrest]

/-- The checks of stages and frame pass exactly when each of them does. -/
theorem checkFrame_eq_ok_iff {b : Blueprint} {filters : List Filter} {sink : Sink}
    {width height : Nat} :
    b.checkFrame = .ok (filters, sink, width, height) ↔
      split b.stages = .ok (filters, sink) ∧ b.tileSide ≠ 0 ∧ b.frameSize = .ok (width, height) ∧
        b.limits.checkFrame (Limits.side width) (Limits.side height) = .ok () := by
  unfold checkFrame
  rw [bind_eq_ok_iff]
  constructor
  · rintro ⟨⟨filters', sink'⟩, hsplit, hrest⟩
    rw [mapError_eq_ok_iff] at hsplit
    dsimp only at hrest
    split_ifs at hrest with hside
    · cases hrest
    · obtain ⟨⟨width', height'⟩, hsize, hrest⟩ := bind_eq_ok_iff.1 hrest
      obtain ⟨_, hlimits, hrest⟩ := bind_eq_ok_iff.1 hrest
      rw [mapError_eq_ok_iff] at hlimits
      cases hrest
      exact ⟨hsplit, hside, hsize, hlimits⟩
  · rintro ⟨hsplit, hside, hsize, hlimits⟩
    refine ⟨(filters, sink), mapError_eq_ok_iff.2 hsplit, ?_⟩
    dsimp only
    rw [if_neg hside]
    exact bind_eq_ok_iff.2 ⟨(width, height), hsize,
      bind_eq_ok_iff.2 ⟨(), mapError_eq_ok_iff.2 hlimits, rfl⟩⟩

theorem check_eq_ok_iff {b : Blueprint} {checked : List Filter × Sink × Nat × Nat} :
    b.check = .ok checked ↔
      b.checkFrame = .ok checked ∧ ∀ stage ∈ b.stages, b.checkChannels stage = .ok () := by
  unfold check
  simp only [bind_eq_ok_iff, mapError_eq_ok_iff]
  constructor
  · rintro ⟨_, hframe, _, hchannels, hchecked⟩
    cases hchecked
    exact ⟨hframe, forM_eq_ok_iff.1 hchannels⟩
  · rintro ⟨hframe, hchannels⟩
    exact ⟨checked, hframe, (), forM_eq_ok_iff.2 hchannels, rfl⟩

theorem of_check {b : Blueprint} {filters : List Filter} {sink : Sink} {width height : Nat}
    (h : b.check = .ok (filters, sink, width, height)) :
    b.stages = filters.map .filter ++ [.sink sink] ∧ b.tileSide ≠ 0 ∧
      b.frameSize = .ok (width, height) ∧ ∀ stage ∈ b.stages, b.checkChannels stage = .ok () := by
  obtain ⟨hframe, hchannels⟩ := check_eq_ok_iff.1 h
  obtain ⟨hsplit, hside, hsize, -⟩ := checkFrame_eq_ok_iff.1 hframe
  exact ⟨eq_of_split hsplit, hside, hsize, hchannels⟩

theorem channelsNeeded_le {b : Blueprint} {stage : Stage}
    (h : b.checkChannels stage = .ok ()) : stage.channelsNeeded ≤ b.sizes.length := by
  obtain ⟨needed, hneeded, hrest⟩ := bind_eq_ok_iff.1 h
  rw [mapError_eq_ok_iff, Size.ofNat_eq_ok_iff] at hneeded
  obtain ⟨-, rfl⟩ := hneeded
  by_contra hlt
  rw [if_pos (by omega)] at hrest
  cases hrest

/-- A build that succeeds has passed all checks, for a frame of the size of the pipeline. -/
theorem exists_check {b : Blueprint} {p : Pipeline} (h : b.build.pipeline = .ok p) :
    ∃ filters sink, b.check = .ok (filters, sink, p.width, p.height) := by
  unfold build at h
  split at h
  case h_1 => cases h
  case h_2 filters sink width height hcheck =>
    dsimp only at h
    split at h
    case h_1 => cases h
    case h_2 =>
      cases h
      exact ⟨filters, sink, hcheck⟩

/-- A build that succeeds yields a pipeline with its plans. -/
theorem exists_yields {b : Blueprint} {p : Pipeline} (h : b.build.pipeline = .ok p) :
    ∃ sink, b.Yields p sink := by
  unfold build at h
  split at h
  case h_1 => cases h
  case h_2 filters sink width height hcheck =>
    obtain ⟨hstages, hside, hsize, hchannels⟩ := of_check hcheck
    obtain ⟨hsizes, hpos, hwidth, hheight⟩ := eq_of_frameSize hsize
    have hlength : (planChannels b.modes b.padding b.sizes.length).length = b.sizes.length := by
      simp [planChannels]
    dsimp only at h
    split at h
    case h_1 => cases h
    case h_2 hbound =>
      cases h
      have hmodes : ∀ bound : Sink, bound.mode = sink.mode →
          b.stages.map Stage.mode =
            (filters.map Stage.filter ++ [Stage.sink bound]).map Stage.mode := by
        intro bound hbound
        rw [hstages]
        simp [Stage.mode, hbound]
      refine ⟨sink, hstages, Outcome.eq_done_of_failure hbound, ?_, rfl, rfl, ?_⟩
      · simpa [Pipeline.channels, Pipeline.size, hlength] using hsizes
      · refine ⟨?_, ?_, ?_, fun stage hstage ↦ ?_, ?_, hwidth, hheight, by
          simp only; omega⟩
        · have := congrArg (List.map fun mode : Nat → Mode ↦ (List.range b.sizes.length).map mode)
            (hmodes _ (Sink.mode_bind sink b.sizes))
          simp only [Pipeline.stages, Pipeline.channels, hlength]
          simpa [modes, List.map_map, Function.comp_def] using this
        · simp [padding, hstages, Pipeline.stages, Stage.border]
        · simp only [Pipeline.channels, hlength]
        · simp only [Pipeline.channels, hlength]
          simp only [Pipeline.stages, List.mem_append, List.mem_map, List.mem_singleton] at hstage
          rcases hstage with ⟨f, hf, rfl⟩ | rfl
          · exact channelsNeeded_le (hchannels _ (by rw [hstages]; simp [hf]))
          · have := channelsNeeded_le (hchannels (.sink sink) (by rw [hstages]; simp))
            simpa [Stage.channelsNeeded] using this
        · simpa [Pipeline.channels, hlength] using hpos

end Blueprint

end Scanline
