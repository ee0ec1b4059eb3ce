import Mathlib.Data.List.Basic
import Mathlib.Order.Basic

/-!
# Runs of a transition function

A system is a total function `step : σ → α → σ`.  An action that is not
enabled leaves the state unchanged.  `run` folds a list of actions, and
`Along` says that a property of the state before a step and of its action
holds of every step of a run.

These rules carry the invariant arguments of the rest of the development.

* `run_invariant`: an invariant that every admissible step preserves holds
  at the end of every run whose steps are admissible.
* `along_of_invariant`: a step property that the invariant gives for admissible
  actions holds along every run of them.
* `along_of_keeps`: the same for a condition on the steps.
* `along_iff`: two step properties that agree in every state of the
  invariant agree along every run.
* `along_iff_of_keeps`: the same for an invariant that only the steps with the
  second property keep.
* `run_simulates`: a view of the state that every step changes as an abstract
  step does is, after a run, the state of the abstract run.
* `forall_reached_succ`: one turn of a condition on the elements of a stream that
  a loop reaches.
* `answer_refines`: a system whose calls return replies refines a specification
  if each of its calls does.
* `answer_simulates`: the same for two systems whose calls have the same replies.
* `allowed_invariant`: an invariant of the specification holds along every run.
-/

namespace Hc32Board.CodeLib

variable {σ α : Type}

/-- The state after a list of actions. -/
def run (step : σ → α → σ) (s : σ) (acts : List α) : σ :=
  acts.foldl step s

/-- `P` holds of every step of the run: of the state before the step and of
its action. -/
def Along (step : σ → α → σ) (P : σ → α → Prop) : σ → List α → Prop
  | _, [] => True
  | s, a :: acts => P s a ∧ Along step P (step s a) acts

@[simp] theorem along_cons (step : σ → α → σ) (P : σ → α → Prop) (s : σ) (a : α)
    (acts : List α) :
    Along step P s (a :: acts) ↔ P s a ∧ Along step P (step s a) acts := Iff.rfl

theorem along_of_forall {step : σ → α → σ} {P : σ → α → Prop} (h : ∀ s a, P s a) :
    ∀ (acts : List α) (s : σ), Along step P s acts := by
  intro acts
  induction acts with
  | nil => intro s; trivial
  | cons a acts ih => intro s; exact ⟨h s a, ih (step s a)⟩

theorem Along.and {step : σ → α → σ} {P Q : σ → α → Prop} :
    ∀ {acts : List α} {s : σ}, Along step P s acts → Along step Q s acts →
      Along step (fun s a => P s a ∧ Q s a) s acts := by
  intro acts
  induction acts with
  | nil => intro s _ _; trivial
  | cons a acts ih => intro s hP hQ; exact ⟨⟨hP.1, hQ.1⟩, ih hP.2 hQ.2⟩

instance Along.decidable (step : σ → α → σ) (P : σ → α → Prop) [∀ s a, Decidable (P s a)] :
    ∀ (s : σ) (acts : List α), Decidable (Along step P s acts)
  | _, [] => .isTrue trivial
  | s, a :: acts =>
    have : Decidable (Along step P (step s a) acts) := Along.decidable step P (step s a) acts
    inferInstanceAs (Decidable (P s a ∧ Along step P (step s a) acts))

/-- An invariant that the admissible steps preserve holds at the end of
every run of admissible steps. -/
theorem run_invariant {step : σ → α → σ} {P : σ → α → Prop} {I : σ → Prop}
    (hstep : ∀ s a, I s → P s a → I (step s a)) :
    ∀ (acts : List α) (s : σ), I s → Along step P s acts → I (run step s acts) := by
  intro acts
  induction acts with
  | nil => intro s hs _; exact hs
  | cons a acts ih =>
    intro s hs hP
    exact ih (step s a) (hstep s a hs hP.1) hP.2

/-- An invariant that every step preserves holds at the end of every run. -/
theorem run_invariant' {step : σ → α → σ} {I : σ → Prop}
    (hstep : ∀ s a, I s → I (step s a)) (acts : List α) (s : σ) (hs : I s) :
    I (run step s acts) := by
  induction acts generalizing s with
  | nil => exact hs
  | cons a acts ih => exact ih (step s a) (hstep s a hs)

/-- What holds of the admissible actions in every state of the invariant holds
along every run of them. -/
theorem along_of_invariant {step : σ → α → σ} {P : σ → α → Prop} {A : α → Prop} {I : σ → Prop}
    (hstep : ∀ s a, I s → A a → P s a ∧ I (step s a)) :
    ∀ (acts : List α) (s : σ), I s → (∀ a ∈ acts, A a) → Along step P s acts := by
  intro acts
  induction acts with
  | nil => intro s _ _; trivial
  | cons a acts ih =>
    intro s hs hacts
    obtain ⟨hP, hnext⟩ := hstep s a hs (hacts a List.mem_cons_self)
    exact ⟨hP, ih (step s a) hnext fun b hb => hacts b (List.mem_cons_of_mem a hb)⟩

/-- What holds of the admissible steps in every state of the invariant holds along
every run of them. -/
theorem along_of_keeps {step : σ → α → σ} {H P : σ → α → Prop} {I : σ → Prop}
    (hstep : ∀ s a, I s → H s a → P s a ∧ I (step s a)) :
    ∀ (acts : List α) (s : σ), I s → Along step H s acts → Along step P s acts := by
  intro acts
  induction acts with
  | nil => intro s _ _; trivial
  | cons a acts ih =>
    intro s hs hH
    obtain ⟨hP, hnext⟩ := hstep s a hs hH.1
    exact ⟨hP, ih (step s a) hnext hH.2⟩

/-- Two step properties that agree wherever the invariant holds agree along
every run. -/
theorem along_iff {step : σ → α → σ} {P Q : σ → α → Prop} {I : σ → Prop}
    (hstep : ∀ s a, I s → I (step s a)) (hPQ : ∀ s a, I s → (P s a ↔ Q s a)) :
    ∀ (acts : List α) (s : σ), I s → (Along step P s acts ↔ Along step Q s acts) := by
  intro acts
  induction acts with
  | nil => intro s _; exact Iff.rfl
  | cons a acts ih =>
    intro s hs
    rw [along_cons, along_cons, hPQ s a hs, ih (step s a) (hstep s a hs)]

/-- Two step properties agree along a run if they agree wherever the invariant
holds, and the second one keeps the invariant. -/
theorem along_iff_of_keeps {step : σ → α → σ} {H P Q : σ → α → Prop} {I : σ → Prop}
    (hPQ : ∀ s a, I s → H s a → (P s a ↔ Q s a))
    (hstep : ∀ s a, I s → H s a → Q s a → I (step s a)) :
    ∀ (acts : List α) (s : σ), I s → Along step H s acts →
      (Along step P s acts ↔ Along step Q s acts) := by
  intro acts
  induction acts with
  | nil => intro s _ _; exact Iff.rfl
  | cons a acts ih =>
    intro s hs hH
    rw [along_cons, along_cons, hPQ s a hs hH.1]
    exact and_congr_right fun hQ => ih (step s a) (hstep s a hs hH.1 hQ) hH.2

/-- A step by step simulation is a simulation of runs. -/
theorem run_simulates {τ : Type} {step : σ → α → σ} {astep : τ → α → τ} {view : σ → τ}
    {I : σ → Prop} (hstep : ∀ s a, I s → I (step s a))
    (hview : ∀ s a, I s → view (step s a) = astep (view s) a) :
    ∀ (acts : List α) (s : σ), I s → view (run step s acts) = run astep (view s) acts := by
  intro acts
  induction acts with
  | nil => intro s _; rfl
  | cons a acts ih =>
    intro s hs
    have htail := ih (step s a) (hstep s a hs)
    rw [hview s a hs] at htail
    exact htail

/-! ## Loops over a stream -/

/-- A condition on the elements that a loop reaches: on the first one, and if the
loop goes on behind it, on the others. -/
theorem forall_reached_succ {f : Nat → α} {P Q : α → Prop} (n i : Nat) :
    (∀ k < n + 1, (∀ j < k, P (f (i + j))) → Q (f (i + k))) ↔
      Q (f i) ∧ (P (f i) → ∀ k < n, (∀ j < k, P (f (i + 1 + j))) → Q (f (i + 1 + k))) := by
  constructor
  · refine fun h => ⟨h 0 (by omega) fun j hj => absurd hj (Nat.not_lt_zero j), ?_⟩
    intro hgo k hk hall
    rw [show i + 1 + k = i + (k + 1) by omega]
    refine h (k + 1) (by omega) fun j hj => ?_
    cases j with
    | zero => exact hgo
    | succ j =>
      rw [show i + (j + 1) = i + 1 + j by omega]
      exact hall j (by omega)
  · rintro ⟨hfirst, hrest⟩ k hk hall
    cases k with
    | zero => exact hfirst
    | succ k =>
      rw [show i + (k + 1) = i + 1 + k by omega]
      refine hrest (hall 0 (by omega)) k (by omega) fun j hj => ?_
      rw [show i + 1 + j = i + (j + 1) by omega]
      exact hall (j + 1) (by omega)

/-! ## Runs with replies -/

section Replies

variable {τ ρ : Type}

/-- The state after a list of calls, with the reply of each.  It is `none` when a call
does not return. -/
def answer (step : σ → α → Option (σ × ρ)) : σ → List α → Option (σ × List ρ)
  | s, [] => some (s, [])
  | s, a :: acts =>
    (step s a).bind fun r => (answer step r.1 acts).map fun rest => (rest.1, r.2 :: rest.2)

/-- The runs that a specification allows.  `spec t a r t'` says that in state `t` the
call `a` may reply `r` and leave `t'`. -/
inductive Allowed (spec : τ → α → ρ → τ → Prop) : τ → List α → List ρ → τ → Prop
  | nil (t : τ) : Allowed spec t [] [] t
  | cons {t t1 t2 : τ} {a : α} {r : ρ} {acts : List α} {rs : List ρ} (first : spec t a r t1)
      (rest : Allowed spec t1 acts rs t2) : Allowed spec t (a :: acts) (r :: rs) t2

/-- Calls that refine the specification one by one refine it in every run. -/
theorem answer_refines {step : σ → α → Option (σ × ρ)} {spec : τ → α → ρ → τ → Prop}
    {R : σ → τ → Prop} {A : α → Prop}
    (hstep : ∀ s t a, R s t → A a → ∃ s' r t', step s a = some (s', r) ∧ spec t a r t' ∧ R s' t') :
    ∀ (acts : List α) (s : σ) (t : τ), R s t → (∀ a ∈ acts, A a) →
      ∃ s' rs t', answer step s acts = some (s', rs) ∧ Allowed spec t acts rs t' ∧ R s' t' := by
  intro acts
  induction acts with
  | nil => exact fun s t hR _ => ⟨s, [], t, rfl, .nil t, hR⟩
  | cons a acts ih =>
    intro s t hR hacts
    obtain ⟨s1, r, t1, hrun, hspec, hR1⟩ := hstep s t a hR (hacts a List.mem_cons_self)
    obtain ⟨s2, rs, t2, hrest, hallowed, hR2⟩ := ih s1 t1 hR1
      fun b hb => hacts b (List.mem_cons_of_mem a hb)
    refine ⟨s2, r :: rs, t2, ?_, .cons hspec hallowed, hR2⟩
    rw [answer, hrun, Option.bind_some, hrest]
    rfl

/-- Calls with the same replies in two systems, one by one, have the same replies in every
run. -/
theorem answer_simulates {β : Type} {step : σ → α → Option (σ × ρ)}
    {astep : τ → β → Option (τ × ρ)} {view : α → β} {R : σ → τ → Prop} {A : α → Prop}
    (hstep : ∀ s t a, R s t → A a →
      ∃ s' t' r, step s a = some (s', r) ∧ astep t (view a) = some (t', r) ∧ R s' t') :
    ∀ (acts : List α) (s : σ) (t : τ), R s t → (∀ a ∈ acts, A a) →
      ∃ s' t' rs, answer step s acts = some (s', rs) ∧
        answer astep t (acts.map view) = some (t', rs) ∧ R s' t' := by
  intro acts
  induction acts with
  | nil => exact fun s t hR _ => ⟨s, t, [], rfl, rfl, hR⟩
  | cons a acts ih =>
    intro s t hR hacts
    obtain ⟨s1, t1, r, hrun, hrun', hR1⟩ := hstep s t a hR (hacts a List.mem_cons_self)
    obtain ⟨s2, t2, rs, hrest, hrest', hR2⟩ := ih s1 t1 hR1
      fun b hb => hacts b (List.mem_cons_of_mem a hb)
    refine ⟨s2, t2, r :: rs, ?_, ?_, hR2⟩
    · rw [answer, hrun, Option.bind_some, hrest]
      rfl
    · rw [List.map_cons, answer, hrun', Option.bind_some, hrest']
      rfl

/-- An invariant that every admissible call of the specification keeps, with what it
says about the reply. -/
theorem allowed_invariant {spec : τ → α → ρ → τ → Prop} {I : τ → Prop} {A : α → Prop}
    {P : ρ → Prop} (hstep : ∀ t a r t', I t → A a → spec t a r t' → P r ∧ I t')
    {acts : List α} {rs : List ρ} {t t' : τ} (h : Allowed spec t acts rs t') (ht : I t)
    (hacts : ∀ a ∈ acts, A a) : (∀ r ∈ rs, P r) ∧ I t' := by
  induction h with
  | nil t => exact ⟨fun r hr => absurd hr List.not_mem_nil, ht⟩
  | cons first rest ih =>
    obtain ⟨hP, hI⟩ := hstep _ _ _ _ ht (hacts _ List.mem_cons_self) first
    obtain ⟨hrs, hend⟩ := ih hI fun b hb => hacts b (List.mem_cons_of_mem _ hb)
    exact ⟨List.forall_mem_cons.mpr ⟨hP, hrs⟩, hend⟩

end Replies

end Hc32Board.CodeLib
