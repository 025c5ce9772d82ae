import Scanline.Outcome

/-!
# Checks and activities in a row

Two kinds of sequences make up the library.  Checks are a chain in `Except`: `bind_eq_ok_iff` and
`mapError_eq_ok_iff` take an accepted chain apart.  Activities are a chain of `Outcome`s: what each
of them keeps, the chain keeps (`Outcome.each_keeps`), and a chain that another one mirrors step by
step mirrors it as a whole (`Outcome.map_each_of_step`).  Two runs of a chain whose states are
related stay related, and fail alike, if every activity sees to it (`Outcome.each_matches`).
-/

namespace Scanline

/-! ## Checks -/

section Checks

variable {ε ε' α β : Type}

/-- A chain of checks is accepted when each part is. -/
theorem bind_eq_ok_iff {x : Except ε α} {f : α → Except ε β} {b : β} :
    x >>= f = .ok b ↔ ∃ a, x = .ok a ∧ f a = .ok b := by
  cases x <;> simp [bind, Except.bind]

theorem bind_eq_error_iff {x : Except ε α} {f : α → Except ε β} {e : ε} :
    x >>= f = .error e ↔ x = .error e ∨ ∃ a, x = .ok a ∧ f a = .error e := by
  cases x <;> simp [bind, Except.bind]

/-- Renaming failures accepts the same. -/
theorem mapError_eq_ok_iff {f : ε → ε'} {x : Except ε α} {a : α} :
    x.mapError f = .ok a ↔ x = .ok a := by
  cases x with
  | error e => constructor <;> (intro h; cases h)
  | ok b => constructor <;> (intro h; cases h; rfl)

theorem mapError_eq_error_iff {f : ε → ε'} {x : Except ε α} {e' : ε'} :
    x.mapError f = .error e' ↔ ∃ e, x = .error e ∧ f e = e' := by
  cases x with
  | error e =>
    constructor
    · intro h
      exact ⟨e, rfl, Except.error.inj h⟩
    · rintro ⟨_, h, rfl⟩
      cases h
      rfl
  | ok b =>
    constructor
    · intro h
      cases h
    · rintro ⟨_, h, _⟩
      cases h

theorem forM_eq_ok_iff {f : α → Except ε Unit} {l : List α} :
    l.forM f = .ok () ↔ ∀ a ∈ l, f a = .ok () := by
  induction l with
  | nil => exact ⟨fun _ ↦ by simp, fun _ ↦ rfl⟩
  | cons a rest ih =>
    have hcons : (a :: rest).forM f = f a >>= fun _ ↦ rest.forM f := rfl
    rw [hcons, bind_eq_ok_iff, List.forall_mem_cons, ← ih]
    exact ⟨fun ⟨_, ha, hrest⟩ ↦ ⟨ha, hrest⟩, fun ⟨ha, hrest⟩ ↦ ⟨(), ha, hrest⟩⟩

/-- A list of checks fails where the first of them does, all before it having passed. -/
theorem forM_eq_error_iff {f : α → Except ε Unit} {l : List α} {e : ε} :
    l.forM f = .error e ↔ ∃ front a back, l = front ++ a :: back ∧
      (∀ x ∈ front, f x = .ok ()) ∧ f a = .error e := by
  induction l with
  | nil =>
    constructor
    · intro h
      cases h
    · rintro ⟨front, a, back, h, -⟩
      simp at h
  | cons x rest ih =>
    have hcons : (x :: rest).forM f = f x >>= fun _ ↦ rest.forM f := rfl
    rw [hcons, bind_eq_error_iff, ih]
    constructor
    · rintro (h | ⟨_, hx, front, a, back, rfl, hfront, ha⟩)
      · exact ⟨[], x, rest, rfl, by simp, h⟩
      · exact ⟨x :: front, a, back, rfl, List.forall_mem_cons.2 ⟨hx, hfront⟩, ha⟩
    · rintro ⟨front, a, back, hl, hfront, ha⟩
      cases front with
      | nil =>
        cases hl
        exact .inl ha
      | cons y front =>
        cases hl
        obtain ⟨hx, hfront⟩ := List.forall_mem_cons.1 hfront
        exact .inr ⟨(), hx, front, a, back, rfl, hfront, ha⟩

theorem mapM_eq_ok {f : α → Except ε β} {g : α → β} {l : List α} (h : ∀ a ∈ l, f a = .ok (g a)) :
    l.mapM f = .ok (l.map g) := by
  induction l with
  | nil => rfl
  | cons a rest ih =>
    rw [List.mapM_cons, h a List.mem_cons_self,
      ih fun b hb ↦ h b (List.mem_cons_of_mem _ hb)]
    rfl

/-- The results of a list of computations, one by one. -/
theorem of_mapM_eq_ok {f : α → Except ε β} {l : List α} {r : List β} (h : l.mapM f = .ok r) :
    r.length = l.length ∧
      ∀ (i : Nat) (a : α), l[i]? = some a → ∃ b, r[i]? = some b ∧ f a = .ok b := by
  induction l generalizing r with
  | nil =>
    cases h
    simp
  | cons a rest ih =>
    rw [List.mapM_cons] at h
    obtain ⟨b, hb, h⟩ := bind_eq_ok_iff.1 h
    obtain ⟨bs, hbs, h⟩ := bind_eq_ok_iff.1 h
    cases h
    obtain ⟨hlength, hget⟩ := ih hbs
    refine ⟨by simp [hlength], fun i x hx ↦ ?_⟩
    cases i with
    | zero =>
      simp only [List.getElem?_cons_zero, Option.some.injEq] at hx
      exact ⟨b, rfl, by rw [← hx, hb]⟩
    | succ i => exact hget i x (by simpa using hx)

theorem map_of_mapM_eq_ok {γ : Type} {f : α → Except ε β} {g : β → γ} {h : α → γ} {l : List α}
    {r : List β} (hf : ∀ a b, f a = .ok b → g b = h a) (hr : l.mapM f = .ok r) :
    r.map g = l.map h := by
  obtain ⟨hlength, hget⟩ := of_mapM_eq_ok hr
  refine List.ext_getElem (by simp [hlength]) fun i hi _ ↦ ?_
  have hlt : i < l.length := by simpa [hlength] using hi
  obtain ⟨b, hb, hfb⟩ := hget i l[i] (List.getElem?_eq_getElem hlt)
  obtain ⟨_, rfl⟩ := List.getElem?_eq_some_iff.1 hb
  simpa using hf _ _ hfb

theorem of_mapM_eq_error {f : α → Except ε β} {l : List α} {e : ε} (h : l.mapM f = .error e) :
    ∃ a ∈ l, f a = .error e := by
  induction l with
  | nil => cases h
  | cons a rest ih =>
    rw [List.mapM_cons] at h
    rcases bind_eq_error_iff.1 h with h | ⟨b, -, h⟩
    · exact ⟨a, List.mem_cons_self, h⟩
    · rcases bind_eq_error_iff.1 h with h | ⟨bs, -, h⟩
      · obtain ⟨x, hmem, hx⟩ := ih h
        exact ⟨x, List.mem_cons_of_mem _ hmem, hx⟩
      · cases h

end Checks

/-! ## Activities -/

namespace Outcome

variable {σ τ ι : Type}

@[simp] theorem state_done (s : σ) : (done s).state = s := rfl
@[simp] theorem failure_done (s : σ) : (done s).failure = none := rfl
@[simp] theorem map_done (g : σ → τ) (s : σ) : (done s).map g = done (g s) := rfl
@[simp] theorem state_map (g : σ → τ) (o : Outcome σ) : (o.map g).state = g o.state := rfl
@[simp] theorem failure_map (g : σ → τ) (o : Outcome σ) : (o.map g).failure = o.failure := rfl

@[simp] theorem failed_ne_done (s t : σ) (e : Failure) : failed s e ≠ done t := by
  simp [failed, done]

@[simp] theorem faulted_ne_done (s t : σ) (e : Fault) : faulted s e ≠ done t := failed_ne_done s t _

@[simp] theorem misused_ne_done (s t : σ) (e : Misuse) : misused s e ≠ done t :=
  failed_ne_done s t _

/-- Nothing follows an activity that failed. -/
theorem next_eq_self {o : Outcome σ} {e : Failure} (h : o.failure = some e)
    (f : σ → Outcome σ) : o.next f = o := by
  obtain ⟨s, _ | e⟩ := o
  · simp at h
  · rfl

theorem next_eq_done_iff {o : Outcome σ} {f : σ → Outcome σ} {t : σ} :
    o.next f = done t ↔ ∃ s, o = done s ∧ f s = done t := by
  obtain ⟨s, _ | e⟩ := o
  · exact ⟨fun h ↦ ⟨s, rfl, h⟩, by rintro ⟨s', hs, h⟩; cases hs; exact h⟩
  · simp [done]

theorem map_eq_done_iff {o : Outcome σ} {g : σ → τ} {t : τ} :
    o.map g = done t ↔ ∃ s, o = done s ∧ g s = t := by
  obtain ⟨s, _ | e⟩ := o
  · simp [map, done]
  · simp [map, done]

theorem eq_done_of_failure {o : Outcome σ} (h : o.failure = none) : o = done o.state := by
  obtain ⟨s, _ | e⟩ := o
  · rfl
  · simp at h

theorem failure_next {o : Outcome σ} {f : σ → Outcome σ} :
    (o.next f).failure = none ↔ o.failure = none ∧ (f o.state).failure = none := by
  obtain ⟨s, _ | e⟩ := o <;> simp [next]

/-- An outcome whose state has a property, and whose failure, if there is one, has another. -/
def Keeps (I : σ → Prop) (F : Failure → Prop) (o : Outcome σ) : Prop :=
  I o.state ∧ ∀ e, o.failure = some e → F e

variable {I : σ → Prop} {F : Failure → Prop}

theorem keeps_done {s : σ} (h : I s) : (done s).Keeps I F := ⟨h, by simp⟩

theorem keeps_failed {s : σ} {e : Failure} (h : I s) (he : F e) : (failed s e).Keeps I F :=
  ⟨h, fun e' h' ↦ by simp only [failed, Option.some.injEq] at h'; exact h' ▸ he⟩

theorem Keeps.map {J : τ → Prop} {g : σ → τ} {o : Outcome σ} (h : o.Keeps I F)
    (hJ : ∀ s, I s → J (g s)) : (o.map g).Keeps J F := ⟨hJ _ h.1, h.2⟩

theorem Keeps.mono {G : Failure → Prop} {o : Outcome σ} (h : o.Keeps I F) (hF : ∀ e, F e → G e) :
    o.Keeps I G := ⟨h.1, fun e he ↦ hF e (h.2 e he)⟩

theorem Keeps.next {o : Outcome σ} {f : σ → Outcome σ} (h : o.Keeps I F)
    (hf : ∀ s, I s → (f s).Keeps I F) : (o.next f).Keeps I F := by
  obtain ⟨s, _ | e⟩ := o
  · exact hf s h.1
  · exact h

/-- What every activity of a list keeps, the list keeps. -/
theorem each_keeps {f : ι → σ → Outcome σ} {l : List ι}
    (hf : ∀ i ∈ l, ∀ s, I s → (f i s).Keeps I F) {s : σ} (hs : I s) :
    (each f l s).Keeps I F := by
  induction l generalizing s with
  | nil => exact keeps_done hs
  | cons i rest ih =>
    rw [each_cons]
    exact (hf i List.mem_cons_self s hs).next fun t ht ↦
      ih (fun j hj ↦ hf j (List.mem_cons_of_mem _ hj)) ht

theorem each_congr {f g : ι → σ → Outcome σ} {l : List ι}
    (h : ∀ i ∈ l, ∀ s, I s → f i s = g i s ∧ I (f i s).state) {s : σ} (hs : I s) :
    each f l s = each g l s := by
  induction l generalizing s with
  | nil => rfl
  | cons i rest ih =>
    obtain ⟨heq, hkept⟩ := h i List.mem_cons_self s hs
    rw [each_cons, each_cons, ← heq]
    cases hf : f i s with
    | mk t failure =>
      rw [hf] at hkept
      cases failure with
      | none => exact ih (fun j hj ↦ h j (List.mem_cons_of_mem _ hj)) hkept
      | some e => rfl

/-- A list of activities whose steps are mirrored on part of the state is mirrored as a whole.
The relation between the state and what is still to be done holds at the start and after every
step that did not fail. -/
theorem map_each_of_step {f : ι → σ → Outcome σ} {f' : ι → τ → Outcome τ} {g : σ → τ}
    {R : σ → List ι → Prop}
    (step : ∀ i rest s, R s (i :: rest) → (f i s).map g = f' i (g s) ∧
      ((f i s).failure = none → R (f i s).state rest))
    {l : List ι} {s : σ} (h : R s l) : (each f l s).map g = each f' l (g s) := by
  induction l generalizing s with
  | nil => rfl
  | cons i rest ih =>
    obtain ⟨hmap, hrest⟩ := step i rest s h
    rw [each_cons, each_cons, ← hmap]
    cases hf : f i s with
    | mk t failure =>
      cases failure with
      | none =>
        rw [hf] at hrest
        exact ih (hrest rfl)
      | some e => rfl

/-! ### Two runs -/

/-- Two outcomes that failed alike, or not at all, in states that are related. -/
structure Matches (R : σ → τ → Prop) (o : Outcome σ) (o' : Outcome τ) : Prop where
  /-- Both failed for the same reason, or both ran to their ends. -/
  failure_eq : o.failure = o'.failure
  /-- The states are related. -/
  state : R o.state o'.state

variable {R : σ → τ → Prop}

theorem matches_done {s : σ} {t : τ} (h : R s t) : (done s).Matches R (done t) := ⟨rfl, h⟩

theorem matches_failed {s : σ} {t : τ} (h : R s t) (e : Failure) :
    (failed s e).Matches R (failed t e) := ⟨rfl, h⟩

theorem Matches.map {σ' τ' : Type} {S : σ' → τ' → Prop} {g : σ → σ'} {g' : τ → τ'}
    {o : Outcome σ} {o' : Outcome τ} (h : o.Matches R o') (hS : ∀ s t, R s t → S (g s) (g' t)) :
    (o.map g).Matches S (o'.map g') := ⟨h.failure_eq, hS _ _ h.state⟩

/-- Two runs of a list of activities match if they do activity by activity.  What is still to be
done may be known of both states, as long as nothing has failed. -/
theorem each_matches {f : ι → σ → Outcome σ} {f' : ι → τ → Outcome τ} {I : σ → τ → List ι → Prop}
    (step : ∀ i rest s t, R s t → I s t (i :: rest) → (f i s).Matches R (f' i t) ∧
      ((f i s).failure = none → I (f i s).state (f' i t).state rest))
    {l : List ι} {s : σ} {t : τ} (h : R s t) (hI : I s t l) :
    (each f l s).Matches R (each f' l t) := by
  induction l generalizing s t with
  | nil => exact matches_done h
  | cons i rest ih =>
    obtain ⟨⟨hfailure, hstate⟩, hrest⟩ := step i rest s t h hI
    rw [each_cons, each_cons]
    cases hf : f i s with
    | mk s' failure =>
      cases hf' : f' i t with
      | mk t' failure' =>
        rw [hf, hf'] at hfailure hstate hrest
        cases hfailure
        cases failure with
        | none => exact ih hstate (hrest rfl)
        | some e => exact matches_failed hstate e

end Outcome

end Scanline
