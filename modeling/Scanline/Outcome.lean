import Scanline.Fault

/-!
# Outcomes

An activity that changes a state and may stop early leaves two things behind: the state it
reached and, if it stopped, the reason.  Nothing is rolled back, so that a caller sees what was
written before a fault.  `Outcome.each` runs an activity over a list and stops at the first
failure.
-/

namespace Scanline

/-- The state an activity reached, and why it stopped there if it did. -/
structure Outcome (σ : Type) where
  /-- The state that was reached. -/
  state : σ
  /-- The reason for stopping early. -/
  failure : Option Failure := none

namespace Outcome

variable {σ τ ι κ : Type}

/-- An activity that ran to its end. -/
def done (s : σ) : Outcome σ := ⟨s, none⟩

/-- An activity that stopped early. -/
def failed (s : σ) (f : Failure) : Outcome σ := ⟨s, some f⟩

/-- An activity that met a fault. -/
def faulted (s : σ) (f : Fault) : Outcome σ := failed s (.fault f)

/-- An activity that was misused. -/
def misused (s : σ) (m : Misuse) : Outcome σ := failed s (.misuse m)

/-- Goes on from the state that was reached, unless the activity stopped. -/
def next (o : Outcome σ) (f : σ → Outcome σ) : Outcome σ :=
  match o with
  | ⟨s, none⟩ => f s
  | stopped => stopped

/-- The same outcome, seen as part of a larger state. -/
def map (f : σ → τ) (o : Outcome σ) : Outcome τ := ⟨f o.state, o.failure⟩

/-- Runs an activity on each element in turn, up to the first failure. -/
def each (f : ι → σ → Outcome σ) : List ι → σ → Outcome σ
  | [], s => done s
  | i :: rest, s =>
    match f i s with
    | ⟨s, none⟩ => each f rest s
    | stopped => stopped

/-- Runs an activity for `count` numbers from `first` on, up to the first failure. -/
def count (f : Nat → σ → Outcome σ) (first : Nat) : Nat → σ → Outcome σ
  | 0, s => done s
  | more + 1, s =>
    match f first s with
    | ⟨s, none⟩ => count f (first + 1) more s
    | stopped => stopped

@[simp] theorem done_next (s : σ) (f : σ → Outcome σ) : (done s).next f = f s := rfl

@[simp] theorem next_of_failure {s : σ} {e : Failure} (f : σ → Outcome σ) :
    next ⟨s, some e⟩ f = ⟨s, some e⟩ := rfl

@[simp] theorem each_nil (f : ι → σ → Outcome σ) (s : σ) : each f [] s = done s := rfl

@[simp] theorem each_cons (f : ι → σ → Outcome σ) (i : ι) (rest : List ι) (s : σ) :
    each f (i :: rest) s = (f i s).next (each f rest) := by
  rw [each, next.eq_def]

theorem next_next (o : Outcome σ) (f g : σ → Outcome σ) :
    (o.next f).next g = o.next fun s ↦ (f s).next g := by
  obtain ⟨s, _ | e⟩ := o <;> rfl

theorem each_append (f : ι → σ → Outcome σ) (as bs : List ι) (s : σ) :
    each f (as ++ bs) s = (each f as s).next (each f bs) := by
  induction as generalizing s with
  | nil => rfl
  | cons a as ih =>
    simp only [List.cons_append, each_cons, next_next]
    exact congrArg _ (funext ih)

theorem each_map (f : ι → σ → Outcome σ) (g : κ → ι) (ks : List κ) (s : σ) :
    each f (ks.map g) s = each (fun k ↦ f (g k)) ks s := by
  induction ks generalizing s with
  | nil => rfl
  | cons k ks ih =>
    simp only [List.map_cons, each_cons]
    exact congrArg _ (funext ih)

theorem each_flatMap (f : ι → σ → Outcome σ) (g : κ → List ι) (ks : List κ) (s : σ) :
    each f (ks.flatMap g) s = each (fun k ↦ each f (g k)) ks s := by
  induction ks generalizing s with
  | nil => rfl
  | cons k ks ih =>
    simp only [List.flatMap_cons, each_append, each_cons]
    exact congrArg _ (funext ih)

theorem count_eq_each (f : Nat → σ → Outcome σ) (first more : Nat) (s : σ) :
    count f first more s = each f (List.range' first more) s := by
  induction more generalizing first s with
  | zero => rfl
  | succ more ih =>
    rw [List.range'_succ, each_cons, count, next.eq_def]
    split <;> simp_all

end Outcome

end Scanline
