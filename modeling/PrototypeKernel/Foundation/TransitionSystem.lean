import Mathlib.Data.Nat.Notation
import Mathlib.Tactic.TypeStar

/-! # Guarded runs of an executable step function

A system is given by an executable `step : σ → α → Option σ` (`none` when the action is not enabled)
and a guard `ok : σ → α → Prop` restricting which enabled actions a run may take: an assumption on
the environment, a scheduling restriction, or `fun _ _ => True`. `Reachable` collects the states of
all guarded runs of every length, `Reachable.invariant` is the induction over a run, and `runOk`
replays a concrete action list while checking the guard. -/

namespace TransitionSystem

variable {σ α : Type*} {step : σ → α → Option σ} {ok : σ → α → Prop} {s₀ s s' : σ}

/-- The states reached from `s₀` by steps that each meet the guard `ok`. -/
inductive Reachable (step : σ → α → Option σ) (ok : σ → α → Prop) (s₀ : σ) : σ → Prop
  | refl : Reachable step ok s₀ s₀
  | tail {s s' : σ} {a : α} :
      Reachable step ok s₀ s → ok s a → step s a = some s' → Reachable step ok s₀ s'

/-- **The invariant rule.** What holds initially and is kept by every guarded step holds in every
reachable state. -/
theorem Reachable.invariant {P : σ → Prop} (hreach : Reachable step ok s₀ s) (hinit : P s₀)
    (hstep : ∀ s a s', P s → ok s a → step s a = some s' → P s') : P s := by
  induction hreach with
  | refl => exact hinit
  | tail _ hok hs ih => exact hstep _ _ _ ih hok hs

/-- The invariant rule with the reachability of the pre-state at hand in the step case. -/
theorem Reachable.invariant' {P : σ → Prop} (hreach : Reachable step ok s₀ s) (hinit : P s₀)
    (hstep : ∀ s a s', Reachable step ok s₀ s → P s → ok s a → step s a = some s' → P s') :
    P s := by
  induction hreach with
  | refl => exact hinit
  | tail hr hok hs ih => exact hstep _ _ _ hr ih hok hs

/-- A run under a guard is a run under a weaker one. -/
theorem Reachable.mono {ok' : σ → α → Prop} (hreach : Reachable step ok s₀ s)
    (hok : ∀ s a, ok s a → ok' s a) : Reachable step ok' s₀ s := by
  induction hreach with
  | refl => exact .refl
  | tail _ ha hs ih => exact ih.tail (hok _ _ ha) hs

/-- Runs compose. -/
theorem Reachable.trans (h₁ : Reachable step ok s₀ s) (h₂ : Reachable step ok s s') :
    Reachable step ok s₀ s' := by
  induction h₂ with
  | refl => exact h₁
  | tail _ hok hs ih => exact .tail ih hok hs

/-- **Simulation.** When every guarded step from related states is matched by the other system,
every run is matched by a run of the other system. -/
theorem Reachable.simulation {τ : Type*} {step' : τ → α → Option τ} {ok' : τ → α → Prop} {t₀ : τ}
    {R : σ → τ → Prop} (hreach : Reachable step ok s₀ s) (hinit : R s₀ t₀)
    (hstep : ∀ s t a s', R s t → ok s a → step s a = some s' →
      ∃ t', step' t a = some t' ∧ ok' t a ∧ R s' t') :
    ∃ t, Reachable step' ok' t₀ t ∧ R s t := by
  induction hreach with
  | refl => exact ⟨t₀, .refl, hinit⟩
  | tail _ hok hs ih =>
    obtain ⟨t, hr, hrel⟩ := ih
    obtain ⟨t', hs', hok', hrel'⟩ := hstep _ _ _ _ hrel hok hs
    exact ⟨t', hr.tail hok' hs', hrel'⟩

/-- One guarded step is a run. -/
theorem Reachable.single {a : α} (hok : ok s a) (hs : step s a = some s') :
    Reachable step ok s s' :=
  .tail .refl hok hs

/-- **A run in stages.** A run that can go from each stage to the next one reaches the last
stage. -/
theorem exists_staged {P : ℕ → σ → Prop} {n : ℕ} (h : P 0 s)
    (hnext : ∀ k s, k < n → P k s → ∃ s', Reachable step ok s s' ∧ P (k + 1) s') :
    ∃ s', Reachable step ok s s' ∧ P n s' := by
  induction n with
  | zero => exact ⟨s, .refl, h⟩
  | succ n ih =>
    -- the run up to stage `n`, and from there the last stage
    obtain ⟨s₁, hrun₁, h₁⟩ := ih fun k s hk => hnext k s (Nat.lt_succ_of_lt hk)
    obtain ⟨s₂, hrun₂, h₂⟩ := hnext n s₁ (Nat.lt_succ_self n) h₁
    exact ⟨s₂, hrun₁.trans hrun₂, h₂⟩

/-- **A run that lowers a measure.** When some step lowers the measure as long as the goal is not
reached, a run reaches the goal. -/
theorem exists_reachable_of_measure {P goal : σ → Prop} (μ : σ → ℕ)
    (hstep : ∀ s, P s → ¬goal s → ∃ a s', ok s a ∧ step s a = some s' ∧ P s' ∧ μ s' < μ s)
    (h : P s) : ∃ s', Reachable step ok s s' ∧ goal s' := by
  induction hn : μ s using Nat.strongRecOn generalizing s with
  | ind n ih =>
    by_cases hgoal : goal s
    · exact ⟨s, .refl, hgoal⟩
    · obtain ⟨a, s₁, hok, hs, h₁, hlt⟩ := hstep s h hgoal
      obtain ⟨s', hrun, hgoal'⟩ := ih (μ s₁) (hn ▸ hlt) h₁ rfl
      exact ⟨s', (Reachable.single hok hs).trans hrun, hgoal'⟩

/-- Replay the action list `as` from `s`, refusing an action that breaks the guard. -/
def runOk (step : σ → α → Option σ) (ok : σ → α → Prop) [∀ s a, Decidable (ok s a)] :
    σ → List α → Option σ
  | s, [] => some s
  | s, a :: as => if ok s a then (step s a).bind fun s' => runOk step ok s' as else none

/-- A replayed action list is a run. -/
theorem reachable_of_runOk [∀ s a, Decidable (ok s a)] {as : List α}
    (h : runOk step ok s₀ as = some s) : Reachable step ok s₀ s := by
  induction as generalizing s₀ with
  | nil => cases h; exact .refl
  | cons a as ih =>
    simp only [runOk] at h
    split at h
    · rename_i hok
      obtain ⟨s', hs', hrest⟩ := Option.bind_eq_some_iff.mp h
      exact (Reachable.single hok hs').trans (ih hrest)
    · cases h

end TransitionSystem
