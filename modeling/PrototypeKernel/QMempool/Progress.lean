import PrototypeKernel.QMempool.LocalQueue

/-! # Calls come to an end

No call waits for another one. From every place in its code a call has a bounded number of steps
left, however the other CPUs interleave and whatever the slab answers: its loops run over the
batches of one refill, or over the elements that it frees. -/

namespace QMempool

open TransitionSystem

variable {N : ℕ} {E Q : Type*} {localqSz sharedqSz : ℕ} {wait : UInt32}

/-! ## What is left of a call -/

/-- A bound on the steps of a loop that makes room, from round `i` on. -/
def drainLeft (i : ℕ) : ℕ := (bulk + 2) * (refillMultiplier - i) + 1

/-- A bound on the steps that are left of a call. -/
def Pc.left : Pc E → ℕ
  | .idle | .bug .. => 0
  | .allocRet _ => 1
  | .slabPartial .. | .refillLocal .. => 2
  | .slabEnq _ _ i => (bulk + 1) * (refillMultiplier - 1 - i) + 2
  | .slabElem _ _ i j => (bulk - j) + (bulk + 1) * (refillMultiplier - 1 - i) + 2
  | .slabFirst .. => (bulk + 1) * refillMultiplier + 2
  | .allocShared .. => (bulk + 1) * refillMultiplier + 3
  | .allocLocal .. => (bulk + 1) * refillMultiplier + 4
  | .drain _ i => drainLeft i
  | .drainFree _ i num j => (num.toNat - j) + 1 + drainLeft (i + 1)
  | .freeSlab _ n i => (n.toNat - i) + 1 + drainLeft 0
  | .freeShared .. => bulk + 2 + drainLeft 0
  | .freeSpill .. => bulk + 3 + drainLeft 0
  | .freeLocal .. => bulk + 4 + drainLeft 0

/-- The steps of the longest call, a free that gives elements back to the slab. -/
def callSteps : ℕ := bulk + 4 + drainLeft 0

/-- A call has at most `callSteps` steps left. -/
theorem Pc.left_le {own : List (Option E)} {pc : Pc E} (h : pc.Ok localqSz own) :
    pc.left ≤ callSteps := by
  have h16 : bulk = 16 := rfl
  have h2 : refillMultiplier = 2 := rfl
  cases pc <;> simp [Pc.left, Pc.Ok, callSteps, drainLeft, h16, h2] at h ⊢
  case slabElem => omega
  case slabEnq => omega
  case freeSlab => obtain ⟨k, rfl, -, hle⟩ := h; omega
  case drain => omega
  case drainFree => obtain ⟨k, rfl, hle⟩ := h; omega

section Steps

variable [DecidableEq E]

/-- **A move brings the call on.** -/
theorem Move.left_lt {slab : Option E} {v v' : View E}
    (hm : Move localqSz sharedqSz wait slab v v') (hok : v.pc.Ok localqSz v.own)
    (hdrain : ∀ elems i, v.pc = .drain elems i → v'.pc = .idle ∨ i < refillMultiplier) :
    v'.pc.left < v.pc.left := by
  have h16 : bulk = 16 := rfl
  have h2 : refillMultiplier = 2 := rfl
  cases hm <;> simp [Pc.left, Pc.Ok, drainLeft, h16, h2] at hok hdrain ⊢
  all_goals omega

/-- The rounds that make room are counted. -/
theorem drain_lt {t t' : State N E (BoundedList E)} {c : Fin N} {slab : Option E}
    {elems : ℕ → Option E} {i : ℕ} (hpc : t.pc c = .drain elems i)
    (hs : step listOps wait t (.run c slab) = some t') :
    t'.pc c = .idle ∨ i < refillMultiplier := by
  simp only [step, State.advance, hpc] at hs
  split at hs
  · exact .inr ‹_›
  · cases hs
    exact .inl (State.goto_pc_self ..)

/-- A step of a running call over lists brings it on and leaves the other calls alone. -/
theorem BaseInv.left_lt {t t' : State N E (BoundedList E)} {c : Fin N} {slab : Option E}
    (h : BaseInv localqSz sharedqSz t) (hlocal : bulk ≤ localqSz) (hsize : sharedqSz < 2 ^ 32 - 1)
    (hs : QMempool.step listOps wait t (.run c slab) = some t') :
    (t'.pc c).left < (t.pc c).left ∧ ∀ c', c' ≠ c → t'.pc c' = t.pc c' := by
  obtain ⟨hmove, hframe⟩ := h.move hlocal hsize hs
  exact ⟨hmove.left_lt (h.calls c) fun _ _ hpc => drain_lt hpc hs, hframe.pc⟩

end Steps

/-! ## Every run -/

section Runs

variable [DecidableEq E]

end Runs

end QMempool
