import Mathlib.Data.Option.Basic
import Mathlib.Data.List.Induction

/-!
# Runs of a partial step function

A system is given by `step : σ → α → Option σ`: the state after an action, or
`none` when the action is not enabled. `run` folds it over a list of actions.

* `run_inv`: an invariant of every step is an invariant of every run.
* `run_inv_of_meets`: the same for runs whose steps all meet a condition on
  the state before the step and the action.
* `run_inv_of_history`: an invariant that sees the actions taken so far.
* `run_length_add_le`: a run is no longer than a measure that every step lowers.
* `run_map`: the run of a system with bookkeeping, seen without it.
* `run_exists`, `run_exists_of_meets`: the run exists when the invariant enables
  every step.
* `run_forall_iff`: a property holds all along a run exactly if the run meets a condition,
  when the steps that meet it keep an invariant and the others break the property.
* `runMeets_congr`: two conditions that agree under an invariant.
-/

namespace OxidizedSystemd.Lib

variable {σ α : Type*}

/-- The state after the actions of a list, `none` if one of them is not enabled. -/
def run (step : σ → α → Option σ) : σ → List α → Option σ
  | s, [] => some s
  | s, a :: as => (step s a).bind fun s' => run step s' as

/-- Every action of the run is taken in a state that meets `ok`. -/
def RunMeets (step : σ → α → Option σ) (ok : σ → α → Prop) : σ → List α → Prop
  | _, [] => True
  | s, a :: as => ok s a ∧ ∀ s', step s a = some s' → RunMeets step ok s' as

variable {step : σ → α → Option σ} {ok : σ → α → Prop}

theorem run_cons (s : σ) (a : α) (as : List α) :
    run step s (a :: as) = (step s a).bind fun s' => run step s' as := rfl

theorem run_cons_eq_some {s t : σ} {a : α} {as : List α} :
    run step s (a :: as) = some t ↔ ∃ s', step s a = some s' ∧ run step s' as = some t := by
  rw [run_cons, Option.bind_eq_some_iff]

theorem run_append (s : σ) (as bs : List α) :
    run step s (as ++ bs) = (run step s as).bind fun s' => run step s' bs := by
  induction as generalizing s with
  | nil => rfl
  | cons a as ih =>
    rw [List.cons_append, run_cons, run_cons]
    cases step s a with
    | none => rfl
    | some s' => exact ih s'

theorem run_append_eq_some {s t : σ} {as bs : List α} :
    run step s (as ++ bs) = some t ↔ ∃ s', run step s as = some s' ∧ run step s' bs = some t := by
  rw [run_append, Option.bind_eq_some_iff]

/-- A run of a system with more state is a run of the system it projects to. -/
theorem run_map {τ : Type*} {step' : τ → α → Option τ} (f : σ → τ)
    (h : ∀ s a, (step s a).map f = step' (f s) a) (as : List α) (s : σ) :
    (run step s as).map f = run step' (f s) as := by
  induction as generalizing s with
  | nil => rfl
  | cons a as ih =>
    rw [run_cons, run_cons, ← h, Option.map_bind, Option.bind_map]
    exact congrArg (Option.bind (step s a)) (funext ih)

/-- The invariant rule for runs whose steps all meet `ok`. -/
theorem run_inv_of_meets {P : σ → Prop}
    (hstep : ∀ s a s', P s → ok s a → step s a = some s' → P s') :
    ∀ (as : List α) {s t : σ}, P s → RunMeets step ok s as → run step s as = some t → P t := by
  intro as
  induction as with
  | nil => intro s t hs _ ht; cases ht; exact hs
  | cons a as ih =>
    intro s t hs hok ht
    obtain ⟨s', hs', ht⟩ := run_cons_eq_some.mp ht
    exact ih (hstep s a s' hs hok.1 hs') (hok.2 s' hs') ht

/-- A property that the steps that meet `ok` keep, with an invariant, and that the others break. -/
theorem run_forall_iff {P Q : σ → Prop} (hPQ : ∀ s, P s → Q s)
    (hok : ∀ s a s', P s → ok s a → step s a = some s' → P s')
    (hbreak : ∀ s a s', P s → ¬ ok s a → step s a = some s' → ¬ Q s') :
    ∀ (as : List α) {s₀ t : σ}, P s₀ → run step s₀ as = some t →
      ((∀ before after s, as = before ++ after → run step s₀ before = some s → Q s) ↔
        RunMeets step ok s₀ as) := by
  intro as
  induction as with
  | nil =>
    intro s₀ t h₀ _
    refine ⟨fun _ => trivial, ?_⟩
    intro _ before after s has hs
    obtain ⟨rfl, -⟩ := List.append_eq_nil_iff.mp has.symm
    cases hs
    exact hPQ s₀ h₀
  | cons a as ih =>
    intro s₀ t h₀ ht
    obtain ⟨s₁, hs₁, ht⟩ := run_cons_eq_some.mp ht
    constructor
    · intro hall
      have ha : ok s₀ a := by
        by_contra hnot
        refine hbreak s₀ a s₁ h₀ hnot hs₁ (hall [a] as s₁ rfl ?_)
        rw [run_cons, hs₁]
        rfl
      refine ⟨ha, fun s' hs' => ?_⟩
      cases hs₁.symm.trans hs'
      refine (ih (hok s₀ a s₁ h₀ ha hs₁) ht).mp ?_
      intro before after s has hs
      exact hall (a :: before) after s (by rw [has]; rfl) (run_cons_eq_some.mpr ⟨s₁, hs₁, hs⟩)
    · intro hmeets before after s has hs
      cases before with
      | nil =>
        cases hs
        exact hPQ s₀ h₀
      | cons b before =>
        rw [List.cons_append, List.cons.injEq] at has
        obtain ⟨rfl, has⟩ := has
        obtain ⟨s', hs', hs⟩ := run_cons_eq_some.mp hs
        cases hs₁.symm.trans hs'
        exact (ih (hok s₀ a s₁ h₀ hmeets.1 hs₁) ht).mpr (hmeets.2 s₁ hs₁) before after s has hs

/-- The invariant rule for all runs. -/
theorem run_inv {P : σ → Prop} (hstep : ∀ s a s', P s → step s a = some s' → P s') :
    ∀ (as : List α) {s t : σ}, P s → run step s as = some t → P t := by
  intro as
  induction as with
  | nil => intro s t hs ht; cases ht; exact hs
  | cons a as ih =>
    intro s t hs ht
    obtain ⟨s', hs', ht⟩ := run_cons_eq_some.mp ht
    exact ih (hstep s a s' hs hs') ht

/-- The invariant rule with an invariant that sees the actions taken so far. -/
theorem run_inv_of_history {P : List α → σ → Prop} {s₀ : σ} (h₀ : P [] s₀)
    (hstep : ∀ as a s s', run step s₀ as = some s → P as s → step s a = some s' →
      P (as ++ [a]) s') (as : List α) : ∀ {t : σ}, run step s₀ as = some t → P as t := by
  induction as using List.reverseRecOn with
  | nil => intro t ht; cases ht; exact h₀
  | append_singleton as a ih =>
    intro t ht
    obtain ⟨s, hs, ht⟩ := run_append_eq_some.mp ht
    obtain ⟨s', hs', ht⟩ := run_cons_eq_some.mp ht
    cases ht
    exact hstep as a s _ hs (ih hs) hs'

/-- A run whose steps are all enabled, with an invariant that sees the actions taken so far. -/
theorem run_exists {P : List α → σ → Prop} {s₀ : σ} (h₀ : P [] s₀) {bs : List α}
    (hstep : ∀ as a cs s, bs = as ++ a :: cs → P as s →
      ∃ s', step s a = some s' ∧ P (as ++ [a]) s') :
    ∃ t, run step s₀ bs = some t ∧ P bs t := by
  induction bs using List.reverseRecOn with
  | nil => exact ⟨s₀, rfl, h₀⟩
  | append_singleton as a ih =>
    obtain ⟨s, hs, hP⟩ := ih fun as' b cs s hsplit =>
      hstep as' b (cs ++ [a]) s (by rw [hsplit, List.append_assoc, List.cons_append])
    obtain ⟨s', hs', hP'⟩ := hstep as a [] s rfl hP
    exact ⟨s', run_append_eq_some.mpr ⟨s, hs, run_cons_eq_some.mpr ⟨s', hs', rfl⟩⟩, hP'⟩

/-- A run whose steps meet a condition that enables them. -/
theorem run_exists_of_meets {P : σ → Prop}
    (hstep : ∀ s a, P s → ok s a → ∃ s', step s a = some s' ∧ P s') :
    ∀ (as : List α) {s : σ}, P s → RunMeets step ok s as → ∃ t, run step s as = some t ∧ P t := by
  intro as
  induction as with
  | nil => intro s hs _; exact ⟨s, rfl, hs⟩
  | cons a as ih =>
    intro s hs hok
    obtain ⟨s', hs', hP⟩ := hstep s a hs hok.1
    obtain ⟨t, ht, hPt⟩ := ih hP (hok.2 s' hs')
    exact ⟨t, run_cons_eq_some.mpr ⟨s', hs', ht⟩, hPt⟩

/-- A measure that every step lowers bounds the length of a run. -/
theorem run_length_add_le {P : σ → Prop} {μ : σ → ℕ}
    (hstep : ∀ s a s', P s → step s a = some s' → P s' ∧ μ s' + 1 ≤ μ s) :
    ∀ (as : List α) {s t : σ}, P s → run step s as = some t → as.length + μ t ≤ μ s := by
  intro as
  induction as with
  | nil => intro s t _ ht; cases ht; simp
  | cons a as ih =>
    intro s t hs ht
    obtain ⟨s', hs', ht⟩ := run_cons_eq_some.mp ht
    obtain ⟨hP, hμ⟩ := hstep s a s' hs hs'
    have := ih hP ht
    rw [List.length_cons]
    omega

/-- Two conditions that agree wherever an invariant of the runs that meet one of them holds. -/
theorem runMeets_congr {P : σ → Prop} {ok' : σ → α → Prop}
    (hok : ∀ s a, P s → (ok s a ↔ ok' s a))
    (hstep : ∀ s a s', P s → ok' s a → step s a = some s' → P s') :
    ∀ (as : List α) {s : σ}, P s → (RunMeets step ok s as ↔ RunMeets step ok' s as) := by
  intro as
  induction as with
  | nil => intro s _; exact Iff.rfl
  | cons a as ih =>
    intro s hs
    have h := hok s a hs
    constructor
    · exact fun hm => ⟨h.mp hm.1, fun s' hs' =>
        (ih (hstep s a s' hs (h.mp hm.1) hs')).mp (hm.2 s' hs')⟩
    · exact fun hm => ⟨h.mpr hm.1, fun s' hs' =>
        (ih (hstep s a s' hs hm.1 hs')).mpr (hm.2 s' hs')⟩

instance RunMeets.decidable [∀ s a, Decidable (ok s a)] :
    ∀ (as : List α) (s : σ), Decidable (RunMeets step ok s as)
  | [], _ => .isTrue trivial
  | a :: as, s =>
    match h : step s a with
    | none =>
      decidable_of_iff (ok s a)
        ⟨fun ha => ⟨ha, fun _ hs => by rw [h] at hs; cases hs⟩, And.left⟩
    | some s' =>
      have := RunMeets.decidable as s'
      decidable_of_iff (ok s a ∧ RunMeets step ok s' as)
        (and_congr_right fun _ =>
          ⟨fun hm _ hs => Option.some.inj (h.symm.trans hs) ▸ hm, fun hm => hm s' h⟩)

theorem RunMeets.cons {s s' : σ} {a : α} {as : List α} (ha : ok s a) (hs : step s a = some s')
    (has : RunMeets step ok s' as) : RunMeets step ok s (a :: as) :=
  ⟨ha, fun _ ht => Option.some.inj (hs.symm.trans ht) ▸ has⟩

theorem RunMeets.of_forall (h : ∀ s a, ok s a) (as : List α) : ∀ s : σ, RunMeets step ok s as := by
  induction as with
  | nil => exact fun _ => trivial
  | cons a as ih => exact fun s => ⟨h s a, fun s' _ => ih s'⟩

theorem RunMeets.append_left {s : σ} {as bs : List α} (h : RunMeets step ok s (as ++ bs)) :
    RunMeets step ok s as := by
  induction as generalizing s with
  | nil => trivial
  | cons a as ih => exact ⟨h.1, fun s' hs' => ih (h.2 s' hs')⟩

theorem RunMeets.append {s : σ} {as bs : List α} (has : RunMeets step ok s as)
    (hbs : ∀ t, run step s as = some t → RunMeets step ok t bs) :
    RunMeets step ok s (as ++ bs) := by
  induction as generalizing s with
  | nil => exact hbs s rfl
  | cons a as ih =>
    refine ⟨has.1, fun s' hs' => ih (has.2 s' hs') fun t ht => hbs t ?_⟩
    exact run_cons_eq_some.mpr ⟨s', hs', ht⟩

/-- A run that meets `ok` meets it at every step. -/
theorem RunMeets.at_step {s t : σ} {as bs : List α} {a : α}
    (h : RunMeets step ok s (as ++ a :: bs)) (ht : run step s as = some t) : ok t a := by
  induction as generalizing s with
  | nil => cases ht; exact h.1
  | cons b as ih =>
    obtain ⟨s', hs', ht⟩ := run_cons_eq_some.mp ht
    exact ih (h.2 s' hs') ht

end OxidizedSystemd.Lib
