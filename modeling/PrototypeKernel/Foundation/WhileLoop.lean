import Mathlib.Data.Nat.Notation
import Mathlib.Tactic.TypeStar

/-! # Loops with a condition

`while (cond) body`, for at most as many rounds as there is fuel. A body goes on with a state or
leaves the loop. The rules number the rounds, so that an invariant can say how far the loop is. -/

namespace WhileLoop

universe u

variable {σ ρ : Type u} {cond : σ → Bool} {body : σ → Except ρ σ} {s s' : σ} {fuel : ℕ}

/-- The loop, unless it needs more rounds. -/
def run (cond : σ → Bool) (body : σ → Except ρ σ) : ℕ → σ → Option (Except ρ σ)
  | 0, _ => none
  | fuel + 1, s =>
    if cond s then
      match body s with
      | .ok s' => run cond body fuel s'
      | .error e => some (.error e)
    else some (.ok s)

/-- A loop ends when its condition fails. -/
theorem run_of_not_cond (h : cond s = false) : run cond body (fuel + 1) s = some (.ok s) := by
  simp [run, h]

/-- A loop goes on after a round. -/
theorem run_of_ok (h : cond s = true) (hbody : body s = .ok s') :
    run cond body (fuel + 1) s = run cond body fuel s' := by
  simp [run, h, hbody]

/-- A round can end the loop. -/
theorem run_of_error {e : ρ} (h : cond s = true) (hbody : body s = .error e) :
    run cond body (fuel + 1) s = some (.error e) := by
  simp [run, h, hbody]

/-- **The loop rule.** A loop that ends is in a numbered round, with the invariant: its condition is
false there, or the body leaves it. -/
theorem exists_of_run_eq_some {P : ℕ → σ → Prop} {k : ℕ} {r : Except ρ σ} (h : P k s)
    (hstep : ∀ k s s', P k s → cond s = true → body s = .ok s' → P (k + 1) s')
    (hrun : run cond body fuel s = some r) :
    ∃ k s₁, P k s₁ ∧ (cond s₁ = false ∧ r = .ok s₁ ∨
      cond s₁ = true ∧ ∃ e, body s₁ = .error e ∧ r = .error e) := by
  induction fuel generalizing k s with
  | zero => cases hrun
  | succ fuel ih =>
    cases hcond : cond s with
    | false =>
      rw [run_of_not_cond hcond, Option.some_inj] at hrun
      exact ⟨k, s, h, .inl ⟨hcond, hrun.symm⟩⟩
    | true =>
      cases hbody : body s with
      | ok s' =>
        rw [run_of_ok hcond hbody] at hrun
        exact ih (hstep k s s' h hcond hbody) hrun
      | error e =>
        rw [run_of_error hcond hbody, Option.some_inj] at hrun
        exact ⟨k, s, h, .inr ⟨hcond, e, hbody, hrun.symm⟩⟩

/-- **The rule of termination.** A loop whose next `n` rounds go on, and that is done then. -/
theorem exists_run_eq_ok {P : ℕ → σ → Prop} {n k : ℕ} (h : P k s)
    (hstep : ∀ j s, j < k + n → P j s → cond s = true ∧ ∃ s', body s = .ok s' ∧ P (j + 1) s')
    (hdone : ∀ s, P (k + n) s → cond s = false) :
    ∃ s', run cond body (n + 1) s = some (.ok s') ∧ P (k + n) s' := by
  induction n generalizing k s with
  | zero => exact ⟨s, run_of_not_cond (hdone s h), h⟩
  | succ n ih =>
    obtain ⟨hcond, s₁, hbody, h₁⟩ := hstep k s (Nat.lt_add_of_pos_right (Nat.succ_pos n)) h
    have hassoc : k + 1 + n = k + (n + 1) := Nat.add_right_comm k 1 n
    obtain ⟨s', hrun, hs'⟩ := ih h₁ (fun j s hj => hstep j s (by omega))
      (fun s hs => hdone s (hassoc ▸ hs))
    exact ⟨s', (run_of_ok hcond hbody).trans hrun, hassoc ▸ hs'⟩

/-- **The rule of a loop that is left**: its next `n` rounds go on, and then the body leaves it. -/
theorem exists_run_eq_error {P : ℕ → σ → Prop} {Q : ρ → Prop} {n k : ℕ} (h : P k s)
    (hstep : ∀ j s, j < k + n → P j s → cond s = true ∧ ∃ s', body s = .ok s' ∧ P (j + 1) s')
    (hleave : ∀ s, P (k + n) s → cond s = true ∧ ∃ e, body s = .error e ∧ Q e) :
    ∃ e, run cond body (n + 1) s = some (.error e) ∧ Q e := by
  induction n generalizing k s with
  | zero =>
    obtain ⟨hcond, e, hbody, he⟩ := hleave s h
    exact ⟨e, run_of_error hcond hbody, he⟩
  | succ n ih =>
    obtain ⟨hcond, s₁, hbody, h₁⟩ := hstep k s (Nat.lt_add_of_pos_right (Nat.succ_pos n)) h
    have hassoc : k + 1 + n = k + (n + 1) := Nat.add_right_comm k 1 n
    obtain ⟨e, hrun, he⟩ := ih h₁ (fun j s hj => hstep j s (by omega))
      (fun s hs => hleave s (hassoc ▸ hs))
    exact ⟨e, (run_of_ok hcond hbody).trans hrun, he⟩

/-- More rounds do not change how a loop ends. -/
theorem run_mono {r : Except ρ σ} {fuel' : ℕ} (h : run cond body fuel s = some r)
    (hle : fuel ≤ fuel') : run cond body fuel' s = some r := by
  induction fuel generalizing s fuel' with
  | zero => cases h
  | succ fuel ih =>
    obtain ⟨fuel', rfl⟩ := Nat.exists_eq_add_of_lt (Nat.lt_of_succ_le hle)
    rw [run] at h ⊢
    split
    · rename_i hcond
      rw [if_pos hcond] at h
      split
      · rename_i s₁ hbody
        rw [hbody] at h
        exact ih h (by omega)
      · rename_i e hbody
        rw [hbody] at h
        exact h
    · rename_i hcond
      rwa [if_neg hcond] at h

/-- How a loop ends does not depend on the fuel. -/
theorem run_unique {r r' : Except ρ σ} {fuel' : ℕ} (h : run cond body fuel s = some r)
    (h' : run cond body fuel' s = some r') : r = r' := by
  have hmax := run_mono h (Nat.le_max_left fuel fuel')
  rw [run_mono h' (Nat.le_max_right fuel fuel'), Option.some_inj] at hmax
  exact hmax.symm

/-- **The rule of termination by a measure** that each round makes smaller. -/
theorem exists_run_eq_some {P : σ → Prop} (m : σ → ℕ) (h : P s)
    (hstep : ∀ s s', P s → cond s = true → body s = .ok s' → P s' ∧ m s' < m s) :
    ∃ r, run cond body (m s + 1) s = some r := by
  -- any fuel above the measure will do
  suffices hrun : ∀ fuel, m s < fuel → ∃ r, run cond body fuel s = some r from
    hrun _ (Nat.lt_succ_self _)
  intro fuel hm
  induction fuel generalizing s with
  | zero => exact absurd hm (Nat.not_lt_zero _)
  | succ fuel ih =>
    cases hcond : cond s with
    | false => exact ⟨_, run_of_not_cond hcond⟩
    | true =>
      cases hbody : body s with
      | error e => exact ⟨_, run_of_error hcond hbody⟩
      | ok s' =>
        obtain ⟨hs', hlt⟩ := hstep s s' h hcond hbody
        rw [run_of_ok hcond hbody]
        exact ih hs' (by omega)

end WhileLoop
