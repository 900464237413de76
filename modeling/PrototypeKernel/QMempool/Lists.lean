import PrototypeKernel.QMempool.Machine

/-! # The pool over bounded lists

Between two operations an `AlfQueue` is a bounded list, so the pool of the code and the pool over
bounded lists take the same steps: `step_rel`. The invariants of the pool are proved over lists, and
`refines_lists` carries them to the code. -/

namespace QMempool

open AlfQueue TransitionSystem

variable {N : ℕ} {E : Type*}

/-- A list of pointers with room for `capacity` of them. -/
structure BoundedList (E : Type*) where
  capacity : ℕ
  items : List (Option E)

/-- The list after an enqueue, and the returned value. -/
def BoundedList.enqueue (l : BoundedList E) (ptr : ℕ → Option E) (n : ℕ) : BoundedList E × ℤ :=
  if l.items.length + n ≤ l.capacity then (⟨l.capacity, l.items ++ entries ptr n⟩, n) else (l, 0)

/-- The list after a dequeue, the caller's array and the returned value. -/
def BoundedList.dequeue (l : BoundedList E) (ptr : ℕ → Option E) (n : ℕ) :
    BoundedList E × (ℕ → Option E) × ℤ :=
  let k := min l.items.length n
  (⟨l.capacity, l.items.drop k⟩, ReserveRing.writeFront (l.items.take k) ptr, k)

/-- The operations on a bounded list. -/
def listOps : QueueOps (BoundedList E) E where
  mpEnqueue l ptr n := some (l.enqueue ptr n.toNat)
  spEnqueue l ptr n := some (l.enqueue ptr n.toNat)
  mcDequeue l ptr n := some (l.dequeue ptr n.toNat)
  scDequeue l ptr n := some (l.dequeue ptr n.toNat)

/-! ## The relation -/

/-- The queue behind the pointer represents the list. -/
def QueueRel (p : QueuePtr E) (l : BoundedList E) : Prop :=
  ∃ q, p = .queue q ∧ Represents l.capacity q l.items

/-- The queues represent the lists, and all else is the same. -/
structure Rel (s : State N E (QueuePtr E)) (t : State N E (BoundedList E)) : Prop where
  shared : QueueRel s.sharedq t.sharedq
  local_ : ∀ c, QueueRel (s.localq c) (t.localq c)
  pc : s.pc = t.pc
  held : s.held = t.held
  out : s.out = t.out

section Operations

variable {p : QueuePtr E} {l : BoundedList E}

/-- Both enqueues of a queue are the one of its list. -/
theorem QueueRel.enqueue (h : QueueRel p l) (ptr : ℕ → Option E) (n : UInt32) :
    ∃ p', ptrOps.mpEnqueue p ptr n = some (p', (l.enqueue ptr n.toNat).2) ∧
      ptrOps.spEnqueue p ptr n = some (p', (l.enqueue ptr n.toNat).2) ∧
      QueueRel p' (l.enqueue ptr n.toNat).1 := by
  obtain ⟨q, rfl, hq⟩ := h
  obtain ⟨hret, hrep⟩ := hq.alfSpEnqueue ptr n
  -- the two ways to write the list after an enqueue agree
  have hspec : (fifoEnqueue l.capacity l.items ptr n.toNat).2.2 = (l.enqueue ptr n.toNat).2 ∧
      (fifoEnqueue l.capacity l.items ptr n.toNat).1 = (l.enqueue ptr n.toNat).1.items ∧
      (l.enqueue ptr n.toNat).1.capacity = l.capacity := by
    unfold fifoEnqueue BoundedList.enqueue
    split <;> exact ⟨rfl, rfl, rfl⟩
  obtain ⟨hret', hitems, hcap⟩ := hspec
  rw [hret'] at hret
  rw [hitems, ← hcap] at hrep
  refine ⟨.queue (q.alfSpEnqueue ptr n).1, ?_, ?_, _, rfl, hrep⟩
  · simp [ptrOps, QueuePtr.deref, hq.alfMpEnqueue, hret]
  · simp [ptrOps, QueuePtr.deref, hret]

/-- Both dequeues of a queue are the one of its list. -/
theorem QueueRel.dequeue (h : QueueRel p l) (ptr : ℕ → Option E) (n : UInt32) :
    ∃ p', ptrOps.mcDequeue p ptr n = some (p', (l.dequeue ptr n.toNat).2) ∧
      ptrOps.scDequeue p ptr n = some (p', (l.dequeue ptr n.toNat).2) ∧
      QueueRel p' (l.dequeue ptr n.toNat).1 := by
  obtain ⟨q, rfl, hq⟩ := h
  obtain ⟨hret, hrep⟩ := hq.alfScDequeue ptr n
  have hret : (q.alfScDequeue ptr n).2 = (l.dequeue ptr n.toNat).2 := hret
  refine ⟨.queue (q.alfScDequeue ptr n).1, ?_, ?_, _, rfl, hrep⟩
  · simp [ptrOps, QueuePtr.deref, hq.alfMcDequeue, hret]
  · simp [ptrOps, QueuePtr.deref, hret]

end Operations

/-! ## Steps of related pools -/

section Steps

variable {s : State N E (QueuePtr E)} {t : State N E (BoundedList E)}

/-- A CPU that goes on keeps the relation. -/
theorem Rel.goto (h : Rel s t) (c : Fin N) (pc : Pc E) : Rel (s.goto c pc) (t.goto c pc) where
  shared := h.shared
  local_ := h.local_
  pc := by rw [State.goto, State.goto, h.pc]
  held := h.held
  out := h.out

/-- Related shared queues keep the relation. -/
theorem Rel.setShared (h : Rel s t) {p : QueuePtr E} {l : BoundedList E} (hq : QueueRel p l) :
    Rel { s with sharedq := p } { t with sharedq := l } :=
  ⟨hq, h.local_, h.pc, h.held, h.out⟩

/-- Related local queues keep the relation. -/
theorem Rel.setLocal (h : Rel s t) (c : Fin N) {p : QueuePtr E} {l : BoundedList E}
    (hq : QueueRel p l) :
    Rel { s with localq := Function.update s.localq c p }
      { t with localq := Function.update t.localq c l } := by
  refine ⟨h.shared, fun c' => ?_, h.pc, h.held, h.out⟩
  by_cases hc : c' = c
  · subst hc; simpa using hq
  · simpa [hc] using h.local_ c'

/-- An element that is held keeps the relation. -/
theorem Rel.hold (h : Rel s t) (elem : Option E) : Rel (s.hold elem) (t.hold elem) :=
  ⟨h.shared, h.local_, h.pc, by rw [State.hold, State.hold, h.held], h.out⟩

/-- An element from the slab keeps the relation. -/
theorem Rel.handOut (h : Rel s t) (e : E) : Rel (s.handOut e) (t.handOut e) :=
  ⟨h.shared, h.local_, h.pc, h.held, by rw [State.handOut, State.handOut, h.out]⟩

/-- An enqueue to the shared queue keeps the relation. -/
theorem Rel.enqShared (h : Rel s t) (c : Fin N) (elems : ℕ → Option E) (n : UInt32)
    (next : ℤ → Pc E) :
    Option.Rel Rel (s.enqShared ptrOps c elems n next) (t.enqShared listOps c elems n next) := by
  obtain ⟨p', hop, -, hq⟩ := h.shared.enqueue elems n
  rw [State.enqShared, hop]
  exact .some ((h.setShared hq).goto c _)

/-- A dequeue from the shared queue keeps the relation. -/
theorem Rel.deqShared (h : Rel s t) (c : Fin N) (elems : ℕ → Option E) (n : UInt32)
    (next : (ℕ → Option E) → ℤ → Pc E) :
    Option.Rel Rel (s.deqShared ptrOps c elems n next) (t.deqShared listOps c elems n next) := by
  obtain ⟨p', hop, -, hq⟩ := h.shared.dequeue elems n
  rw [State.deqShared, hop]
  exact .some ((h.setShared hq).goto c _)

/-- An enqueue to a local queue keeps the relation. -/
theorem Rel.enqLocal (h : Rel s t) (c : Fin N) (elems : ℕ → Option E) (n : UInt32)
    (next : ℤ → Pc E) :
    Option.Rel Rel (s.enqLocal ptrOps c elems n next) (t.enqLocal listOps c elems n next) := by
  obtain ⟨p', -, hop, hq⟩ := (h.local_ c).enqueue elems n
  rw [State.enqLocal, hop]
  exact .some ((h.setLocal c hq).goto c _)

/-- A dequeue from a local queue keeps the relation. -/
theorem Rel.deqLocal (h : Rel s t) (c : Fin N) (elems : ℕ → Option E) (n : UInt32)
    (next : (ℕ → Option E) → ℤ → Pc E) :
    Option.Rel Rel (s.deqLocal ptrOps c elems n next) (t.deqLocal listOps c elems n next) := by
  obtain ⟨p', -, hop, hq⟩ := (h.local_ c).dequeue elems n
  rw [State.deqLocal, hop]
  exact .some ((h.setLocal c hq).goto c _)

variable [DecidableEq E]

/-- An element that is given back keeps the relation. -/
theorem Rel.unhold (h : Rel s t) (elem : Option E) : Rel (s.unhold elem) (t.unhold elem) :=
  ⟨h.shared, h.local_, h.pc, by rw [State.unhold, State.unhold, h.held], h.out⟩

/-- An allocation from the slab keeps the relation. -/
theorem Rel.slabAlloc (h : Rel s t) (c : Fin N) (slab : Option E) (next : Option E → Pc E) :
    Option.Rel Rel (s.slabAlloc c slab next) (t.slabAlloc c slab next) := by
  cases slab with
  | none => exact .some (h.goto c _)
  | some e =>
    simp only [State.slabAlloc, h.out]
    split
    · exact .none
    · exact .some ((h.handOut e).goto c _)

/-- A free to the slab keeps the relation. -/
theorem Rel.slabFree (h : Rel s t) (elem : Option E) : Rel (s.slabFree elem) (t.slabFree elem) := by
  cases elem with
  | none => exact h
  | some e => exact ⟨h.shared, h.local_, h.pc, h.held, by simp only [State.slabFree, h.out]⟩

/-- **Related pools take the same steps.** -/
theorem step_rel (h : Rel s t) (wait : UInt32) (a : Action N E) :
    Option.Rel Rel (step ptrOps wait s a) (step listOps wait t a) := by
  cases a with
  | alloc c gfp stack =>
    simp only [step, h.pc]
    split
    · exact .some (h.goto c _)
    · exact .none
  | free c elem stack =>
    simp only [step, h.pc]
    split
    · exact .some ((h.unhold elem).goto c _)
    · exact .none
  | run c slab =>
    simp only [step, State.advance, h.pc]
    -- each place makes one operation, on queues that are related
    cases t.pc c with
    | idle => exact .none
    | bug => exact .none
    | allocLocal => exact h.deqLocal ..
    | allocShared => exact h.deqShared ..
    | refillLocal => exact h.enqLocal ..
    | slabFirst =>
      simp only
      split
      · exact .some (h.goto c _)
      · exact h.slabAlloc ..
    | slabElem => exact h.slabAlloc ..
    | slabPartial => exact h.enqShared ..
    | slabEnq => exact h.enqShared ..
    | allocRet elem => exact .some ((h.hold elem).goto c _)
    | freeLocal => exact h.enqLocal ..
    | freeSpill => exact h.deqLocal ..
    | freeShared => exact h.enqShared ..
    | freeSlab =>
      simp only
      split
      · exact .some ((h.slabFree _).goto c _)
      · exact .some (h.goto c _)
    | drain =>
      simp only
      split
      · exact h.deqShared ..
      · exact .some (h.goto c _)
    | drainFree =>
      simp only
      split
      · exact .some ((h.slabFree _).goto c _)
      · exact .some (h.goto c _)

end Steps

/-! ## Runs of related pools -/

section Runs

variable [DecidableEq E] {wait : UInt32} {s₀ s : State N E (QueuePtr E)}
  {t₀ t : State N E (BoundedList E)} {ok : State N E (QueuePtr E) → Action N E → Prop}
  {ok' : State N E (BoundedList E) → Action N E → Prop}

/-- **The pool of the code refines the pool over lists**, under guards that agree. -/
theorem refines_lists (hok : ∀ s t a, Rel s t → ok s a → ok' t a) (hinit : Rel s₀ t₀)
    (hreach : Reachable (step ptrOps wait) ok s₀ s) :
    ∃ t, Reachable (step listOps wait) ok' t₀ t ∧ Rel s t := by
  refine hreach.simulation hinit fun s t a s' hrel ha hs => ?_
  -- a step that the code takes is one that the lists take as well
  have hstep := step_rel hrel wait a
  rw [hs] at hstep
  cases ht : step listOps wait t a with
  | none => rw [ht] at hstep; cases hstep
  | some t' =>
    rw [ht] at hstep
    cases hstep with
    | some hrel' => exact ⟨t', rfl, hok s t a hrel ha, hrel'⟩

/-- Each run over lists is a run of the code. -/
theorem lists_refine (hok : ∀ s t a, Rel s t → ok' t a → ok s a) (hinit : Rel s₀ t₀)
    (hreach : Reachable (step listOps wait) ok' t₀ t) :
    ∃ s, Reachable (step ptrOps wait) ok s₀ s ∧ Rel s t := by
  refine hreach.simulation (R := fun t s => Rel s t) hinit fun t s a t' hrel ha ht => ?_
  have hstep := step_rel hrel wait a
  rw [ht] at hstep
  cases hs : step ptrOps wait s a with
  | none => rw [hs] at hstep; cases hstep
  | some s' =>
    rw [hs] at hstep
    cases hstep with
    | some hrel' => exact ⟨s', rfl, hok s t a hrel ha, hrel'⟩

end Runs

/-- The lists a new pool starts with: the preallocated elements are in the shared queue. -/
def startLists (localqSz sharedqSz : ℕ) (es : List E) : State N E (BoundedList E) where
  sharedq := ⟨sharedqSz, es.map some⟩
  localq := fun _ => ⟨localqSz, []⟩
  pc := fun _ => .idle
  held := []
  out := es

/-- A created pool represents its start. -/
theorem Qmempool.Created.rel {localqSz sharedqSz : ℕ} {pool : Qmempool N E} {es : List E}
    (h : pool.Created localqSz sharedqSz es) :
    Rel (pool.start es) (startLists localqSz sharedqSz es) := by
  obtain ⟨localq, hpercpu, hlocal⟩ := h.percpu
  refine ⟨h.shared, fun c => ?_, rfl, rfl, rfl⟩
  simp only [Qmempool.start, hpercpu, Option.getD_some]
  exact hlocal c

end QMempool
