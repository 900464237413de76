import Mathlib.Data.List.Basic
import Mathlib.Tactic.TypeStar

/-! # Fair schedules

A schedule in rounds, each of which gives every thread some steps. What no step raises and every
round lowers is used up after as many rounds. -/

namespace FairRounds

variable {σ τ : Type*} [DecidableEq τ] {pass : σ → τ → σ} {P : σ → Prop} {μ : σ → ℕ} {s : σ}

/-- Every thread has `k` steps in the round. -/
def Fair (k : ℕ) (round : List τ) : Prop := ∀ t, k ≤ round.count t

omit [DecidableEq τ] in
/-- What each turn keeps, a schedule keeps. -/
theorem foldl_keeps (hkeep : ∀ s t, P s → P (pass s t)) (h : P s) (schedule : List τ) :
    P (schedule.foldl pass s) := by
  induction schedule generalizing s with
  | nil => exact h
  | cons t schedule ih => exact ih (hkeep s t h)

omit [DecidableEq τ] in
/-- A measure that no turn increases is not increased by a schedule. -/
theorem foldl_le (hkeep : ∀ s t, P s → P (pass s t)) (hle : ∀ s t, P s → μ (pass s t) ≤ μ s)
    (h : P s) (schedule : List τ) : μ (schedule.foldl pass s) ≤ μ s := by
  induction schedule generalizing s with
  | nil => exact Nat.le_refl _
  | cons t schedule ih => exact Nat.le_trans (ih (hkeep s t h)) (hle s t h)

/-- **One thread that is not kept waiting lowers the measure.** `W j` holds after `j` steps of the
thread that have led nowhere, and there are fewer than `k` of them. -/
theorem foldl_lt {W : ℕ → σ → Prop} {k m : ℕ} (t : τ) (hkeep : ∀ s t, P s → P (pass s t))
    (hle : ∀ s t, P s → μ (pass s t) ≤ μ s)
    (hother : ∀ j s t', P s → W j s → t' ≠ t → μ (pass s t') < m ∨ W j (pass s t'))
    (hown : ∀ j s, P s → W j s → μ (pass s t) < m ∨ W (j + 1) (pass s t))
    (hend : ∀ j s, W j s → j < k) {schedule : List τ} {j : ℕ} (h : P s) (hW : W j s)
    (hcount : k ≤ j + schedule.count t) : μ (schedule.foldl pass s) < m := by
  induction schedule generalizing s j with
  | nil => exact absurd (hend j s hW) (Nat.not_lt.mpr hcount)
  | cons t' schedule ih =>
    have hdone : μ (pass s t') < m → μ ((t' :: schedule).foldl pass s) < m := fun hlt =>
      Nat.lt_of_le_of_lt (foldl_le hkeep hle (hkeep s t' h) schedule) hlt
    by_cases ht : t' = t
    · subst ht
      rw [List.count_cons_self] at hcount
      rcases hown j s h hW with hlt | hW
      · exact hdone hlt
      · exact ih (hkeep s t' h) hW (by omega)
    · rw [List.count_cons_of_ne ht] at hcount
      rcases hother j s t' h hW ht with hlt | hW
      · exact hdone hlt
      · exact ih (hkeep s t' h) hW hcount

/-- **After as many fair rounds as the measure counts, the goal is reached**, when each fair round
lowers the measure until then. -/
theorem goal_of_rounds {goal : σ → Prop} {k : ℕ} (hkeep : ∀ s t, P s → P (pass s t))
    (hgoal : ∀ s t, goal s → goal (pass s t)) (hzero : ∀ s, P s → μ s = 0 → goal s)
    (hround : ∀ s round, P s → ¬goal s → Fair k round → μ (round.foldl pass s) < μ s)
    (h : P s) {rounds : List (List τ)} (hfair : ∀ round ∈ rounds, Fair k round)
    (hlength : μ s ≤ rounds.length) : goal (rounds.flatten.foldl pass s) := by
  induction rounds generalizing s with
  | nil => exact hzero s h (Nat.le_zero.mp hlength)
  | cons round rounds ih =>
    rw [List.flatten_cons, List.foldl_append]
    by_cases hreached : goal s
    · exact foldl_keeps hgoal (foldl_keeps hgoal hreached round) rounds.flatten
    · have hlt := hround s round h hreached (hfair round List.mem_cons_self)
      rw [List.length_cons] at hlength
      exact ih (foldl_keeps hkeep h round) (fun r hr => hfair r (List.mem_cons_of_mem _ hr))
        (by omega)

end FairRounds
