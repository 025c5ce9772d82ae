import Mathlib.Data.List.Induction
import Mathlib.Data.List.Pairwise

/-!
# Traces

A trace is a list of events, the earliest one first.  `InTurn` says that every event of a trace fits
what happened before it.  It is proved along the trace, one event at a time (`inTurn_concat_iff`),
and read off any two of its events (`InTurn.pairwise`).
-/

namespace Scanline

variable {α : Type} {fits : List α → α → Prop} {trace : List α} {event : α}

/-- Every event fits those before it. -/
def InTurn (fits : List α → α → Prop) (trace : List α) : Prop :=
  ∀ past event, past ++ [event] <+: trace → fits past event

theorem inTurn_nil : InTurn fits [] := by
  intro past event h
  simp at h

/-- One more event must fit all before it. -/
theorem inTurn_concat_iff :
    InTurn fits (trace ++ [event]) ↔ InTurn fits trace ∧ fits trace event := by
  constructor
  · intro h
    refine ⟨fun past other hpast ↦ h past other ?_, h trace event List.prefix_rfl⟩
    exact hpast.trans (List.prefix_append _ _)
  · rintro ⟨htrace, hevent⟩ past other hpast
    rcases List.prefix_concat_iff.1 hpast with heq | hpast
    · obtain ⟨rfl, hother⟩ := List.append_inj' heq rfl
      cases hother
      exact hevent
    · exact htrace past other hpast

namespace InTurn

variable (h : InTurn fits trace)
include h

theorem of_prefix {past : List α} (hpast : past <+: trace) : InTurn fits past :=
  fun before event hbefore ↦ h before event (hbefore.trans hpast)

theorem exists_past (hmem : event ∈ trace) : ∃ past ⊆ trace, fits past event := by
  obtain ⟨past, rest, rfl⟩ := List.append_of_mem hmem
  refine ⟨past, List.subset_append_left _ _, h past event ⟨rest, ?_⟩⟩
  rw [List.append_assoc]
  rfl

/-- How an event stands to each before it. -/
theorem pairwise {R : α → α → Prop}
    (hR : ∀ past event, fits past event → ∀ other ∈ past, R other event) : trace.Pairwise R := by
  induction trace using List.reverseRecOn with
  | nil => exact List.Pairwise.nil
  | append_singleton trace event ih =>
    obtain ⟨htrace, hevent⟩ := inTurn_concat_iff.1 h
    refine List.pairwise_append.2 ⟨ih htrace, List.pairwise_singleton _ _, ?_⟩
    intro other hother last hlast
    rw [List.mem_singleton.1 hlast]
    exact hR trace event hevent other hother

end InTurn

end Scanline
