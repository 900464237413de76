import Mathlib.Data.Nat.Notation
import Mathlib.Tactic.TypeStar

/-! # Sequences of calls and their refinement

An object is used through non-overlapping calls. `runAll` runs a list of calls on a concrete object
whose calls may fail to return, `specAll` on an abstract object that always returns, and
`runAll_refines` lifts a simulation of single calls to sequences of every length. -/

namespace CallSequence

variable {σ τ C R : Type*}

/-- Run the calls one after the other, collecting what they return; `none` when one of them does not
return. -/
def runAll (call : σ → C → Option (σ × R)) : σ → List C → Option (σ × List R)
  | s, [] => some (s, [])
  | s, c :: cs => do
      let (s, r) ← call s c
      let (s, rs) ← runAll call s cs
      return (s, r :: rs)

/-- Run the calls of an abstract object. -/
def specAll (spec : τ → C → τ × R) : τ → List C → τ × List R
  | t, [] => (t, [])
  | t, c :: cs =>
      let (t, r) := spec t c
      let (t, rs) := specAll spec t cs
      (t, r :: rs)

/-- Each call of the concrete object returns what the abstract call returns, and keeps the two
related. -/
def Simulates (call : σ → C → Option (σ × R)) (spec : τ → C → τ × R) (rel : σ → τ → Prop) : Prop :=
  ∀ s t c, rel s t → ∃ s', call s c = some (s', (spec t c).2) ∧ rel s' (spec t c).1

/-- **A simulation of single calls is a simulation of call sequences.** -/
theorem Simulates.runAll {call : σ → C → Option (σ × R)} {spec : τ → C → τ × R} {rel : σ → τ → Prop}
    (h : Simulates call spec rel) (cs : List C) {s : σ} {t : τ} (hrel : rel s t) :
    ∃ s', runAll call s cs = some (s', (specAll spec t cs).2) ∧ rel s' (specAll spec t cs).1 := by
  -- the related pair changes with each call
  induction cs generalizing s t with
  | nil => exact ⟨s, rfl, hrel⟩
  | cons c cs ih =>
    obtain ⟨s₁, hcall, hrel₁⟩ := h s t c hrel
    obtain ⟨s₂, hcalls, hrel₂⟩ := ih hrel₁
    refine ⟨s₂, ?_, hrel₂⟩
    simp [CallSequence.runAll, specAll, hcall, hcalls]

end CallSequence
