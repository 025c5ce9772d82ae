import Scanline.Proofs.Traces
import Scanline.Runner

/-!
# Deeds of a pool

An order of steps leaves a trace of deeds: numbers taken from the counter, tasks carried out, and
the counter set to the end.  `Deed.Fits` says how a deed stands to those before it, and
`Pool.Ledger` what the counter and the phases of the workers have to do with the deeds so far.

Setting the counter to the end may lower it, because each worker raises it once more after the last
number.  What matters is that it never falls below a number that was taken and belongs to a task.

Main statement: every step keeps the ledger, whatever the order (`Pool.Ledger.steps`).
-/

namespace Scanline

/-- What a worker does in one atomic step. -/
inductive Deed where
  /-- It took a number from the counter. -/
  | took (v : Visit)
  /-- It carried out a task, with a failure or none. -/
  | attended (v : Visit) (failure : Option Failure)
  /-- It set the counter to the end. -/
  | cleared (worker : Nat)
deriving DecidableEq, Repr

namespace Deed

/-- How a deed stands to those before it.  A worker whose task failed takes no more numbers; the
number of a task is taken once, and never after the counter was set to the end.  A task is carried
out once, by the worker that took its number.  Only a worker whose task failed sets the counter to
the end. -/
def Fits (tasks : Nat) (past : List Deed) : Deed → Prop
  | took v =>
    (∀ index e, attended ⟨index, v.worker⟩ (some e) ∉ past) ∧
      (v.index < tasks →
        (∀ u, took u ∈ past → u.index ≠ v.index) ∧ ∀ worker, cleared worker ∉ past)
  | attended v _ =>
    v.index < tasks ∧ took v ∈ past ∧ ∀ u failure, attended u failure ∈ past → u.index ≠ v.index
  | cleared worker => ∃ index e, attended ⟨index, worker⟩ (some e) ∈ past

/-- Deeds that do not get in each other's way: they take or carry out different tasks. -/
def Apart (tasks : Nat) : Deed → Deed → Prop
  | took u, took v => u.index = v.index → tasks ≤ u.index
  | attended u _, attended v _ => u.index ≠ v.index
  | _, _ => True

instance (tasks : Nat) : Std.Symm (Apart tasks) where
  symm a b h := by
    cases a <;> cases b <;> simp only [Apart] at h ⊢ <;> omega

/-- A deed is apart from those that it fits. -/
theorem Fits.apart {tasks : Nat} {past : List Deed} {deed : Deed} (h : deed.Fits tasks past) :
    ∀ other ∈ past, other.Apart tasks deed := by
  intro other hother
  cases deed with
  | took v =>
    cases other with
    | took u =>
      intro heq
      by_contra hlt
      exact (h.2 (by omega)).1 u hother heq
    | _ => trivial
  | attended v failure =>
    cases other with
    | attended u f => exact h.2.2 u f hother
    | _ => trivial
  | cleared worker => cases other <;> trivial

/-- The worker whose deed it is. -/
def worker : Deed → Nat
  | took v => v.worker
  | attended v _ => v.worker
  | cleared worker => worker

section Replay

variable {σ : Type} (task : Nat → Nat → σ → Outcome σ) (s : σ)

/-- What the tasks that were carried out make of a state, one after another. -/
def replay (deeds : List Deed) : σ :=
  deeds.foldl (fun s deed ↦
    match deed with
    | attended v _ => (task v.index v.worker s).state
    | _ => s) s

/-- Whether a task failed as it does on what the tasks before it left. -/
def Follows (past : List Deed) : Deed → Prop
  | attended v failure => failure = (task v.index v.worker (replay task s past)).failure
  | _ => True

end Replay

section InTurn

variable {tasks : Nat} {past : List Deed} (h : InTurn (Fits tasks) past)
include h

theorem eq_of_took {u v : Visit} (hu : took u ∈ past) (hv : took v ∈ past)
    (heq : u.index = v.index) (hlt : v.index < tasks) : u = v := by
  by_contra hne
  have hapart : (took u).Apart tasks (took v) :=
    (h.pairwise fun _ _ hfits ↦ hfits.apart).forall hu hv (by simpa using hne)
  have hle := hapart heq
  omega

theorem eq_of_attended {u v : Visit} {f g : Option Failure} (hu : attended u f ∈ past)
    (hv : attended v g ∈ past) (heq : u.index = v.index) : f = g := by
  by_contra hne
  have hapart : (attended u f).Apart tasks (attended v g) :=
    (h.pairwise fun _ _ hfits ↦ hfits.apart).forall hu hv (by
      intro hsame
      cases hsame
      exact hne rfl)
  exact hapart heq

theorem took_of_attended {v : Visit} {f : Option Failure} (hv : attended v f ∈ past) :
    v.index < tasks ∧ took v ∈ past := by
  obtain ⟨before, hsubset, hlt, htook, -⟩ := h.exists_past hv
  exact ⟨hlt, hsubset htook⟩

end InTurn

end Deed

/-- What the deeds so far say about a worker in each phase, and about the counter. -/
def Phase.Vouched (tasks counter : Nat) (past : List Deed) (worker : Nat) : Phase → Prop
  | claiming => True
  | comparing index =>
    Deed.took ⟨index, worker⟩ ∈ past ∧ (∀ v f, Deed.attended v f ∈ past → v.index ≠ index) ∧
      (tasks ≤ index → tasks ≤ counter)
  | working index =>
    Deed.took ⟨index, worker⟩ ∈ past ∧ (∀ v f, Deed.attended v f ∈ past → v.index ≠ index) ∧
      index < tasks
  | clearing e => ∃ index, Deed.attended ⟨index, worker⟩ (some e) ∈ past
  | exited none => tasks ≤ counter
  | exited (some e) => ∃ index, Deed.attended ⟨index, worker⟩ (some e) ∈ past

/-- Deeds of others change nothing for a worker, unless they carry out the task it holds. -/
theorem Phase.Vouched.later {tasks counter counter' worker : Nat} {past deeds : List Deed}
    {phase : Phase} (h : phase.Vouched tasks counter past worker)
    (hcounter : tasks ≤ counter → tasks ≤ counter')
    (hdeeds : ∀ v f, Deed.attended v f ∈ deeds →
      ∀ index, Deed.took ⟨index, worker⟩ ∈ past → v.index ≠ index) :
    phase.Vouched tasks counter' (past ++ deeds) worker := by
  have hheld : ∀ index, Deed.took ⟨index, worker⟩ ∈ past →
      (∀ v f, Deed.attended v f ∈ past → v.index ≠ index) →
      ∀ v f, Deed.attended v f ∈ past ++ deeds → v.index ≠ index := by
    intro index htook hpast v f hv
    rcases List.mem_append.1 hv with hv | hv
    · exact hpast v f hv
    · exact hdeeds v f hv index htook
  cases phase with
  | claiming => trivial
  | comparing index =>
    obtain ⟨htook, hpast, hle⟩ := h
    exact ⟨List.mem_append_left _ htook, hheld index htook hpast, fun hi ↦ hcounter (hle hi)⟩
  | working index =>
    obtain ⟨htook, hpast, hlt⟩ := h
    exact ⟨List.mem_append_left _ htook, hheld index htook hpast, hlt⟩
  | clearing e =>
    obtain ⟨index, hindex⟩ := h
    exact ⟨index, List.mem_append_left _ hindex⟩
  | exited failure =>
    cases failure with
    | none => exact hcounter h
    | some e =>
      obtain ⟨index, hindex⟩ := h
      exact ⟨index, List.mem_append_left _ hindex⟩

namespace Pool

variable {σ : Type}

/-- What a worker is about to do. -/
def deed? (task : Nat → Nat → σ → Outcome σ) (worker : Nat) (p : Pool σ) : Option Deed :=
  match p.phases[worker]? with
  | some .claiming => some (.took ⟨p.counter, worker⟩)
  | some (.working index) => some (.attended ⟨index, worker⟩ (task index worker p.state).failure)
  | some (.clearing _) => some (.cleared worker)
  | _ => none

/-- What workers do that make their steps in the given order. -/
def deeds (tasks : Nat) (task : Nat → Nat → σ → Outcome σ) : List Nat → Pool σ → List Deed
  | [], _ => []
  | worker :: rest, p =>
    (deed? task worker p).toList ++ deeds tasks task rest (step tasks task worker p)

variable {tasks : Nat} {task : Nat → Nat → σ → Outcome σ} {p : Pool σ} {worker : Nat}

theorem getElem?_moved {phase : Phase} (h : p.phases[worker]? = some phase) (next : Phase)
    (other : Nat) : (p.phases.setIfInBounds worker next)[other]? =
      if other = worker then some next else p.phases[other]? := by
  have hlt : worker < p.phases.size := (Array.getElem?_eq_some_iff.1 h).1
  rw [Array.getElem?_setIfInBounds]
  by_cases heq : worker = other
  · subst heq
    rw [if_pos rfl, if_pos hlt, if_pos rfl]
  · rw [if_neg heq, if_neg (Ne.symm heq)]

/-! ## The ledger -/

/-- What the counter and the workers have to do with the deeds so far. -/
structure Ledger (tasks : Nat) (past : List Deed) (p : Pool σ) : Prop where
  /-- Every deed fits those before it. -/
  inTurn : InTurn (Deed.Fits tasks) past
  /-- The counter is past all tasks whose numbers were taken. -/
  taken_lt : ∀ v, .took v ∈ past → v.index < tasks → v.index < p.counter
  /-- Once the counter was set to the end, it is there or beyond. -/
  drained : ∀ worker, .cleared worker ∈ past → tasks ≤ p.counter
  /-- Every worker is where its deeds brought it. -/
  vouched : ∀ (worker : Nat) (phase : Phase), p.phases[worker]? = some phase →
    phase.Vouched tasks p.counter past worker
  /-- A worker whose task failed leaves its loop with the failure. -/
  stopped : ∀ (index worker : Nat) (e : Failure), .attended ⟨index, worker⟩ (some e) ∈ past →
    p.phases[worker]? = some (.clearing e) ∨ p.phases[worker]? = some (.exited (some e))
  /-- Unless a task failed, each number that was taken is that of a task that was carried out or
  will be. -/
  pending : (∀ v e, .attended v (some e) ∉ past) → ∀ index < tasks, index < p.counter →
    (∃ worker, .attended ⟨index, worker⟩ none ∈ past) ∨
      ∃ worker : Nat, p.phases[worker]? = some (.comparing index) ∨
        p.phases[worker]? = some (.working index)

namespace Ledger

/-- Before the first step there are no deeds. -/
theorem start (tasks workers : Nat) (s : σ) : (start workers s).Ledger tasks [] := by
  refine ⟨inTurn_nil, ?_, ?_, ?_, ?_, ?_⟩
  · intro v hv
    simp at hv
  · intro worker hworker
    simp at hworker
  · intro worker phase hphase
    rw [Array.eq_of_mem_replicate (Array.mem_of_getElem? hphase)]
    trivial
  · intro index worker e he
    simp at he
  · intro _ index _ hlt
    exact absurd hlt (Nat.not_lt_zero index)

variable {past : List Deed} (h : p.Ledger tasks past)
include h

theorem not_failed {phase : Phase} (hphase : p.phases[worker]? = some phase)
    (hgoing : ∀ e, phase ≠ .clearing e ∧ phase ≠ .exited (some e)) (index : Nat) (e : Failure) :
    .attended ⟨index, worker⟩ (some e) ∉ past := by
  intro hmem
  have hstopped := h.stopped index worker e hmem
  rw [hphase, Option.some.injEq, Option.some.injEq] at hstopped
  exact hstopped.elim (hgoing e).1 (hgoing e).2

/-- Every worker is where its deeds brought it, after one that moved on. -/
theorem vouched_moved {phase next : Phase} (hphase : p.phases[worker]? = some phase)
    {counter : Nat} {deeds : List Deed} (hnext : next.Vouched tasks counter (past ++ deeds) worker)
    (hcounter : tasks ≤ p.counter → tasks ≤ counter)
    (hdeeds : ∀ v f, .attended v f ∈ deeds →
      v.worker = worker ∧ v.index < tasks ∧ .took v ∈ past) :
    ∀ (other : Nat) (phase : Phase), (p.phases.setIfInBounds worker next)[other]? = some phase →
      phase.Vouched tasks counter (past ++ deeds) other := by
  intro other old hold
  rw [getElem?_moved hphase] at hold
  split_ifs at hold with heq
  · cases hold
    rwa [heq]
  · refine (h.vouched other old hold).later hcounter ?_
    rintro v f hv index htook rfl
    obtain ⟨hworker, hlt, hv⟩ := hdeeds v f hv
    have hsame := Deed.eq_of_took h.inTurn htook hv rfl hlt
    exact heq (by rw [← hworker, ← hsame])

/-- A worker whose task failed leaves its loop with the failure, after one that goes on moved. -/
theorem stopped_moved {phase : Phase} (hphase : p.phases[worker]? = some phase)
    (hgoing : ∀ e, phase ≠ .clearing e ∧ phase ≠ .exited (some e)) (next : Phase)
    {index other : Nat} {e : Failure} (he : .attended ⟨index, other⟩ (some e) ∈ past) :
    (p.phases.setIfInBounds worker next)[other]? = some (.clearing e) ∨
      (p.phases.setIfInBounds worker next)[other]? = some (.exited (some e)) := by
  have hne : other ≠ worker := by
    rintro rfl
    exact h.not_failed hphase hgoing index e he
  rw [getElem?_moved hphase, if_neg hne]
  exact h.stopped index other e he

/-- Numbers that were taken are still those of tasks that were carried out or will be, after a
worker moved that did not hold the task. -/
theorem pending_moved {phase : Phase} (hphase : p.phases[worker]? = some phase) (next : Phase)
    (hnone : ∀ v e, .attended v (some e) ∉ past) {index : Nat} (hindex : index < tasks)
    (hlt : index < p.counter) (hfree : phase ≠ .comparing index ∧ phase ≠ .working index) :
    (∃ worker, .attended ⟨index, worker⟩ none ∈ past) ∨
      ∃ other : Nat, (p.phases.setIfInBounds worker next)[other]? = some (.comparing index) ∨
        (p.phases.setIfInBounds worker next)[other]? = some (.working index) := by
  refine (h.pending hnone index hindex hlt).imp_right ?_
  rintro ⟨other, hother⟩
  have hne : other ≠ worker := by
    rintro rfl
    rw [hphase, Option.some.injEq, Option.some.injEq] at hother
    exact hother.elim hfree.1 hfree.2
  refine ⟨other, ?_⟩
  rwa [getElem?_moved hphase, if_neg hne]

/-- A worker takes a number. -/
theorem take (hphase : p.phases[worker]? = some .claiming) :
    (Pool.mk (p.counter + 1) (p.phases.setIfInBounds worker (.comparing p.counter))
      p.state).Ledger tasks (past ++ [.took ⟨p.counter, worker⟩]) := by
  have hattended : ∀ v f, .attended v f ∈ past ++ [Deed.took ⟨p.counter, worker⟩] →
      .attended v f ∈ past := by simp
  refine ⟨inTurn_concat_iff.2 ⟨h.inTurn, h.not_failed hphase (by simp), fun hlt ↦ ⟨?_, ?_⟩⟩,
    ?_, ?_, ?_, ?_, ?_⟩
  · intro u hu heq
    have hcounter := h.taken_lt u hu (by simpa [heq] using hlt)
    simp only at heq
    omega
  · intro other hcleared
    have hcounter := h.drained other hcleared
    simp only at hlt
    omega
  · intro v hv hlt
    rcases List.mem_append.1 hv with hv | hv
    · exact Nat.lt_succ_of_lt (h.taken_lt v hv hlt)
    · rw [List.mem_singleton, Deed.took.injEq] at hv
      rw [hv]
      exact Nat.lt_succ_self _
  · intro other hcleared
    have hcounter := h.drained other (by simpa using hcleared)
    exact Nat.le_succ_of_le hcounter
  · refine h.vouched_moved hphase ⟨by simp, ?_, Nat.le_succ_of_le⟩ Nat.le_succ_of_le (by simp)
    intro v f hv heq
    obtain ⟨hlt, htook⟩ := Deed.took_of_attended h.inTurn (hattended v f hv)
    have hcounter := h.taken_lt v htook hlt
    omega
  · intro index other e he
    exact h.stopped_moved hphase (by simp) _ (hattended _ _ he)
  · intro hnone index hindex hlt
    rcases Nat.lt_succ_iff_lt_or_eq.1 hlt with hlt | rfl
    · refine (h.pending_moved hphase _ (fun v e hv ↦ hnone v e (List.mem_append_left _ hv))
        hindex hlt (by simp)).imp_left ?_
      rintro ⟨other, hother⟩
      exact ⟨other, List.mem_append_left _ hother⟩
    · exact .inr ⟨worker, .inl (by rw [getElem?_moved hphase, if_pos rfl])⟩

/-- A worker compares the number that it took. -/
theorem compare {index : Nat} (hphase : p.phases[worker]? = some (.comparing index)) :
    (Pool.mk p.counter (p.phases.setIfInBounds worker
      (if index < tasks then .working index else .exited none)) p.state).Ledger tasks past := by
  obtain ⟨htook, hpast, hle⟩ := h.vouched worker _ hphase
  refine ⟨h.inTurn, h.taken_lt, h.drained, ?_, ?_, ?_⟩
  · have hnext : Phase.Vouched tasks p.counter (past ++ []) worker
        (if index < tasks then .working index else .exited none) := by
      rw [List.append_nil]
      split_ifs with hlt
      · exact ⟨htook, hpast, hlt⟩
      · exact hle (Nat.le_of_not_lt hlt)
    have hmoved := h.vouched_moved hphase hnext id (by simp)
    rwa [List.append_nil] at hmoved
  · intro other worker e he
    exact h.stopped_moved hphase (by simp) _ he
  · intro hnone other hother hlt
    by_cases heq : index = other
    · subst heq
      refine .inr ⟨worker, .inr ?_⟩
      rw [getElem?_moved hphase, if_pos rfl, if_pos hother]
    · exact h.pending_moved hphase _ hnone hother hlt (by simpa using heq)

/-- A worker carries out a task. -/
theorem attend {index : Nat} (hphase : p.phases[worker]? = some (.working index))
    (failure : Option Failure) (s : σ) :
    (Pool.mk p.counter (p.phases.setIfInBounds worker (afterTask failure)) s).Ledger tasks
      (past ++ [.attended ⟨index, worker⟩ failure]) := by
  obtain ⟨htook, hpast, hindex⟩ := h.vouched worker _ hphase
  refine ⟨inTurn_concat_iff.2 ⟨h.inTurn, hindex, htook, hpast⟩, ?_, ?_, ?_, ?_, ?_⟩
  · intro v hv hlt
    exact h.taken_lt v (by simpa using hv) hlt
  · intro other hcleared
    exact h.drained other (by simpa using hcleared)
  · refine h.vouched_moved hphase ?_ id ?_
    · cases failure with
      | none => trivial
      | some e => exact ⟨index, by simp⟩
    · intro v f hv
      rw [List.mem_singleton, Deed.attended.injEq] at hv
      rw [hv.1]
      exact ⟨rfl, hindex, htook⟩
  · intro other worker' e he
    rcases List.mem_append.1 he with he | he
    · exact h.stopped_moved hphase (by simp) _ he
    · rw [List.mem_singleton] at he
      cases he
      exact .inl (by rw [getElem?_moved hphase, if_pos rfl]; rfl)
  · intro hnone other hother hlt
    by_cases heq : index = other
    · subst heq
      cases failure with
      | none => exact .inl ⟨worker, by simp⟩
      | some e => exact absurd (by simp) (hnone ⟨index, worker⟩ e)
    · refine (h.pending_moved hphase _ (fun v e hv ↦ hnone v e (List.mem_append_left _ hv))
        hother hlt (by simpa using heq)).imp_left ?_
      rintro ⟨worker', hworker⟩
      exact ⟨worker', List.mem_append_left _ hworker⟩

/-- A worker sets the counter to the end. -/
theorem clear {e : Failure} (hphase : p.phases[worker]? = some (.clearing e)) :
    (Pool.mk tasks (p.phases.setIfInBounds worker (.exited (some e))) p.state).Ledger tasks
      (past ++ [.cleared worker]) := by
  obtain ⟨index, hindex⟩ := h.vouched worker _ hphase
  have hattended : ∀ v f, .attended v f ∈ past ++ [Deed.cleared worker] →
      .attended v f ∈ past := by simp
  refine ⟨inTurn_concat_iff.2 ⟨h.inTurn, index, e, hindex⟩, ?_, ?_, ?_, ?_, ?_⟩
  · intro v _ hlt
    exact hlt
  · intro other _
    exact Nat.le_refl _
  · exact h.vouched_moved hphase ⟨index, List.mem_append_left _ hindex⟩ (fun _ ↦ Nat.le_refl _)
      (by simp)
  · intro other worker' e' he
    have hstopped := h.stopped other worker' e' (hattended _ _ he)
    rw [getElem?_moved hphase]
    split_ifs with heq
    · subst heq
      rw [hphase] at hstopped
      simpa [eq_comm] using hstopped
    · exact hstopped
  · intro hnone
    exact absurd (List.mem_append_left _ hindex) (hnone ⟨index, worker⟩ e)

/-- One step of one worker. -/
theorem step (task : Nat → Nat → σ → Outcome σ) (worker : Nat) :
    (step tasks task worker p).Ledger tasks (past ++ (deed? task worker p).toList) := by
  cases hphase : p.phases[worker]? with
  | none => simpa [Pool.step, deed?, hphase] using h
  | some phase =>
    cases phase with
    | claiming => simpa [Pool.step, deed?, hphase] using h.take hphase
    | comparing index => simpa [Pool.step, deed?, hphase] using h.compare hphase
    | working index => simpa [Pool.step, deed?, hphase] using h.attend hphase _ _
    | clearing e => simpa [Pool.step, deed?, hphase] using h.clear hphase
    | exited failure => simpa [Pool.step, deed?, hphase] using h

theorem steps (task : Nat → Nat → σ → Outcome σ) (order : List Nat) :
    (steps tasks task order p).Ledger tasks (past ++ deeds tasks task order p) := by
  induction order generalizing p past with
  | nil => simpa [Pool.steps, deeds] using h
  | cons worker rest ih =>
    have hrest := ih (h.step task worker)
    rwa [List.append_assoc] at hrest

end Ledger

end Pool

end Scanline
