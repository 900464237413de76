import Mathlib.Data.Nat.Notation
import Mathlib.Tactic.TypeStar

/-! # Counted loops that may be left

`for (i = 0; i < n; i++)` with a body that goes on to the next iteration or leaves the loop. -/

namespace CountedLoop

universe u

variable {σ ρ : Type u} {body : ℕ → σ → Except ρ σ} {s : σ} {n : ℕ}

/-- The first `n` iterations, up to the one that leaves the loop. -/
def run (body : ℕ → σ → Except ρ σ) : ℕ → σ → Except ρ σ
  | 0, s => .ok s
  | n + 1, s => run body n s >>= body n

/-- No round is run. -/
@[simp] theorem run_zero : run body 0 s = .ok s := rfl

/-- A loop goes on after a round that does not stop it. -/
theorem run_succ_of_ok {s' : σ} (h : run body n s = .ok s') : run body (n + 1) s = body n s' := by
  rw [run, h]
  rfl

/-- A loop stops in the round after the others. -/
theorem run_succ_of_error {e : ρ} (h : run body n s = .error e) :
    run body (n + 1) s = .error e := by
  rw [run, h]
  rfl

/-- **The loop rule.** With what holds before each iteration: all iterations are run, or one of them
leaves the loop. -/
theorem run_cases {P : ℕ → σ → Prop} (h : P 0 s)
    (hnext : ∀ k s s', k < n → P k s → body k s = .ok s' → P (k + 1) s') :
    (∃ s', run body n s = .ok s' ∧ P n s') ∨
      ∃ k < n, ∃ s₁ e, P k s₁ ∧ body k s₁ = .error e ∧ run body n s = .error e := by
  induction n with
  | zero => exact .inl ⟨s, rfl, h⟩
  | succ n ih =>
    obtain ⟨s₁, hrun, h₁⟩ | ⟨k, hk, s₁, e, h₁, hbody, hrun⟩ :=
      ih fun k s s' hk => hnext k s s' (Nat.lt_succ_of_lt hk)
    · cases hlast : body n s₁ with
      | ok s' =>
        exact .inl ⟨s', (run_succ_of_ok hrun).trans hlast,
          hnext n s₁ s' (Nat.lt_succ_self n) h₁ hlast⟩
      | error e =>
        exact .inr ⟨n, Nat.lt_succ_self n, s₁, e, h₁, hlast, (run_succ_of_ok hrun).trans hlast⟩
    · exact .inr ⟨k, Nat.lt_succ_of_lt hk, s₁, e, h₁, hbody, run_succ_of_error hrun⟩

/-- **The rule of a loop that is not left**: every iteration goes on. -/
theorem exists_run_eq_ok {P : ℕ → σ → Prop} (h : P 0 s)
    (hnext : ∀ k s, k < n → P k s → ∃ s', body k s = .ok s' ∧ P (k + 1) s') :
    ∃ s', run body n s = .ok s' ∧ P n s' := by
  have hkeep : ∀ k s s', k < n → P k s → body k s = .ok s' → P (k + 1) s' := by
    intro k s s' hk hs hbody
    obtain ⟨s₂, hs₂, h₂⟩ := hnext k s hk hs
    cases hs₂.symm.trans hbody
    exact h₂
  rcases run_cases h hkeep with hok | ⟨k, hk, s₁, e, h₁, hbody, -⟩
  · exact hok
  · obtain ⟨s', hs', -⟩ := hnext k s₁ hk h₁
    cases hs'.symm.trans hbody

/-- The state in which a loop ends, when a body that leaves gives one too. -/
def final (x : Except σ σ) : σ :=
  match x with
  | .ok s => s
  | .error s => s

/-- **The invariant rule**: what every iteration keeps, also the one that leaves. -/
theorem final_run_of_forall {body : ℕ → σ → Except σ σ} {P : σ → Prop} (h : P s)
    (hstep : ∀ k s, P s → P (final (body k s))) (n : ℕ) : P (final (run body n s)) := by
  have hok : ∀ k s s', k < n → P s → body k s = .ok s' → P s' := by
    intro k s s' _ hs hbody
    have := hstep k s hs
    rwa [hbody] at this
  obtain ⟨s', hrun, hs'⟩ | ⟨k, -, s₁, e, h₁, hbody, hrun⟩ := run_cases (P := fun _ => P) h hok
  · rwa [hrun]
  · have := hstep k s₁ h₁
    rw [hbody] at this
    rwa [hrun]

end CountedLoop
