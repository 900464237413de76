import PrototypeKernel.PtrRing.Fifo

/-! # One producer and one consumer

One thread runs `__ptr_ring_produce()` and another one runs `__ptr_ring_consume()`, without locks.
Each load and each store is a step. In `r->queue[r->producer++] = ptr` the two stores may come in
either order, and so may those of `__ptr_ring_discard_one()`. The ring is never resized, so `queue`
does not change; it is not a step to read it. -/

namespace PtrRing

open KernelInt TransitionSystem

variable {E : Type*}

/-! ## The two ends -/

/-- The two ends of a ring. -/
inductive End where
  | producer
  | consumer
  deriving DecidableEq, Repr

/-- The index of an end. -/
def index (r : PtrRing E) : End → ℕ
  | .producer => r.producer
  | .consumer => r.consumer

/-- `r->producer = i` or `r->consumer = i`. -/
def setIndex (r : PtrRing E) (i : ℕ) : End → PtrRing E
  | .producer => { r with producer := i }
  | .consumer => { r with consumer := i }

/-- The pointer a call goes on with, after it has loaded `entry` from its slot: a produce its
argument if the slot is empty, a consume the one in the slot. -/
def End.test : End → Option E → Option E → Option E
  | .producer, arg, entry => if entry.isSome then none else arg
  | .consumer, _, entry => entry

/-- What a call stores in its slot. -/
def End.stored : End → E → Option E
  | .producer, ptr => some ptr
  | .consumer, _ => none

/-! ## Calls in progress -/

/-- Where a call stands. `i` is the index as it was loaded last. -/
inductive Pc (E : Type*) where
  | idle
  /-- About to load the index, for the test of the slot. A produce has its argument. -/
  | loadIndex (arg : Option E)
  | loadSlot (arg : Option E) (i : ℕ)
  /-- About to return `-ENOSPC`, or `NULL`. -/
  | refuse
  /-- About to load the index, for the store to the slot. -/
  | loadIndexAgain (ptr : E)
  /-- About to store the slot and the incremented index. -/
  | access (ptr : E) (i : ℕ)
  /-- The slot is stored and the index is not. -/
  | storeIndex (ptr : E) (i : ℕ)
  /-- The index is stored and the slot is not. -/
  | storeSlot (ptr : E) (i : ℕ)
  /-- About to load the index, for the comparison with `size`. -/
  | loadIndexWrap (ptr : E)
  | loadSize (ptr : E) (i : ℕ)
  /-- About to store 0 as the index. -/
  | wrap (ptr : E)
  /-- About to return 0, or `ptr`. -/
  | finish (ptr : E)

/-- The ring, the calls in progress, and (ghost) for each end the pointers whose slots it has stored
and those of the calls that have returned 0, or the pointer. -/
structure State (E : Type*) where
  ring : PtrRing E
  pc : End → Pc E
  moved : End → List E
  returned : End → List E

/-- The pointers in the ring: stored by the producer and not cleared by the consumer. -/
def State.live (s : State E) : List E := (s.moved .producer).drop (s.moved .consumer).length

/-- What happens next: the start of a call, or a step of the running call. `slotFirst` chooses
between the two stores. -/
inductive Action (E : Type*) where
  | produce (ptr : E)
  | consume
  | run (e : End) (slotFirst : Bool)
  deriving DecidableEq, Repr

/-- The thread at end `e` goes on at `pc`. -/
def State.goto (s : State E) (e : End) (pc : Pc E) : State E :=
  { s with pc := Function.update s.pc e pc }

/-- Store the index. -/
def State.putIndex (s : State E) (e : End) (i : ℕ) : State E :=
  { s with ring := s.ring.setIndex i e }

/-- Store the slot. -/
def State.putSlot (s : State E) (e : End) (ptr : E) (i : ℕ) : Option (State E) :=
  (s.ring.store i (e.stored ptr)).map fun r =>
    { s with ring := r, moved := Function.update s.moved e (s.moved e ++ [ptr]) }

/-- Return from a call that was not refused. -/
def State.ret (s : State E) (e : End) (ptr : E) : State E :=
  { s with returned := Function.update s.returned e (s.returned e ++ [ptr]) }

/-- The next step of the call at end `e`. -/
def State.advance (s : State E) (e : End) (slotFirst : Bool) : Option (State E) :=
  match s.pc e with
  | .idle => none
  | .loadIndex arg => some (s.goto e (.loadSlot arg (s.ring.index e)))
  | .loadSlot arg i =>
      (s.ring.load i).map fun entry =>
        -- a produce needs an empty slot, a consume an occupied one
        match e.test arg entry with
        | none => s.goto e .refuse
        | some ptr => s.goto e (.loadIndexAgain ptr)
  | .refuse => some (s.goto e .idle)
  | .loadIndexAgain ptr => some (s.goto e (.access ptr (s.ring.index e)))
  | .access ptr i =>
      -- the two stores of one statement, in either order
      if slotFirst then (s.putSlot e ptr i).map (·.goto e (.storeIndex ptr i))
      else some ((s.putIndex e (i + 1)).goto e (.storeSlot ptr i))
  | .storeIndex ptr i => some ((s.putIndex e (i + 1)).goto e (.loadIndexWrap ptr))
  | .storeSlot ptr i => (s.putSlot e ptr i).map (·.goto e (.loadIndexWrap ptr))
  | .loadIndexWrap ptr => some (s.goto e (.loadSize ptr (s.ring.index e)))
  | .loadSize ptr i =>
      -- `if (unlikely(r->producer >= r->size))`, and the same for the consumer
      some (s.goto e (if i ≥ s.ring.size then .wrap ptr else .finish ptr))
  | .wrap ptr => some ((s.putIndex e 0).goto e (.finish ptr))
  | .finish ptr => some ((s.ret e ptr).goto e .idle)

/-- The end runs no call. -/
def Pc.ready : Pc E → Bool
  | .idle => true
  | _ => false

/-- The step function of the two threads. -/
def spscStep (s : State E) : Action E → Option (State E)
  | .produce ptr =>
      if (s.pc .producer).ready then some (s.goto .producer (.loadIndex (some ptr))) else none
  | .consume => if (s.pc .consumer).ready then some (s.goto .consumer (.loadIndex none)) else none
  | .run e slotFirst => s.advance e slotFirst

/-- A new ring that nobody uses yet. -/
def spscStart (r : PtrRing E) : State E := ⟨r, fun _ => .idle, fun _ => [], fun _ => []⟩

/-! ## What a step can do -/

/-- The state after the store of a slot of the ring. -/
def State.slotDone (s : State E) (e : End) (ptr : E) (i : ℕ) : State E :=
  { s with
    ring := { s.ring with queue := Function.update s.ring.queue i (e.stored ptr) }
    moved := Function.update s.moved e (s.moved e ++ [ptr]) }

/-- **The outcomes of a step** of the call at end `e`: the place it leaves, the test it passed
there, and the state it makes. -/
inductive Move (s : State E) (e : End) : State E → Prop
  | loadIndex {arg} (hpc : s.pc e = .loadIndex arg) :
      Move s e (s.goto e (.loadSlot arg (s.ring.index e)))
  | refused {arg i} (hpc : s.pc e = .loadSlot arg i)
      (htest : e.test arg (s.ring.queue i) = none) : Move s e (s.goto e .refuse)
  | passed {arg i ptr} (hpc : s.pc e = .loadSlot arg i)
      (htest : e.test arg (s.ring.queue i) = some ptr) : Move s e (s.goto e (.loadIndexAgain ptr))
  | refuse (hpc : s.pc e = .refuse) : Move s e (s.goto e .idle)
  | loadIndexAgain {ptr} (hpc : s.pc e = .loadIndexAgain ptr) :
      Move s e (s.goto e (.access ptr (s.ring.index e)))
  | slotFirst {ptr i} (hpc : s.pc e = .access ptr i) :
      Move s e ((s.slotDone e ptr i).goto e (.storeIndex ptr i))
  | indexFirst {ptr i} (hpc : s.pc e = .access ptr i) :
      Move s e ((s.putIndex e (i + 1)).goto e (.storeSlot ptr i))
  | storeIndex {ptr i} (hpc : s.pc e = .storeIndex ptr i) :
      Move s e ((s.putIndex e (i + 1)).goto e (.loadIndexWrap ptr))
  | storeSlot {ptr i} (hpc : s.pc e = .storeSlot ptr i) :
      Move s e ((s.slotDone e ptr i).goto e (.loadIndexWrap ptr))
  | loadIndexWrap {ptr} (hpc : s.pc e = .loadIndexWrap ptr) :
      Move s e (s.goto e (.loadSize ptr (s.ring.index e)))
  | past {ptr i} (hpc : s.pc e = .loadSize ptr i) (hge : s.ring.size ≤ i) :
      Move s e (s.goto e (.wrap ptr))
  | inside {ptr i} (hpc : s.pc e = .loadSize ptr i) (hlt : i < s.ring.size) :
      Move s e (s.goto e (.finish ptr))
  | wrap {ptr} (hpc : s.pc e = .wrap ptr) : Move s e ((s.putIndex e 0).goto e (.finish ptr))
  | finish {ptr} (hpc : s.pc e = .finish ptr) : Move s e ((s.ret e ptr).goto e .idle)

section Moves

variable {s s' : State E} {e : End} {ptr : E} {i : ℕ}

/-- A slot that could be stored is one of the ring. -/
theorem State.of_putSlot {pc : Pc E} (h : (s.putSlot e ptr i).map (·.goto e pc) = some s') :
    s' = (s.slotDone e ptr i).goto e pc := by
  obtain ⟨s₁, hput, rfl⟩ := Option.map_eq_some_iff.mp h
  obtain ⟨r, hstore, rfl⟩ := Option.map_eq_some_iff.mp hput
  obtain ⟨-, hr⟩ := Option.ite_none_right_eq_some.mp hstore
  cases hr
  rfl

/-- **Every step of a running call is a move.** -/
theorem move_of_advance {slotFirst : Bool} (hs : s.advance e slotFirst = some s') :
    Move s e s' := by
  unfold State.advance at hs
  -- one case per place, split by the outcome of the test made there
  cases hpc : s.pc e with
  | idle =>
    rw [hpc] at hs
    cases hs
  | loadIndex arg =>
    rw [hpc] at hs
    cases hs
    exact .loadIndex hpc
  | loadSlot arg i =>
    rw [hpc] at hs
    obtain ⟨entry, hload, rfl⟩ := Option.map_eq_some_iff.mp hs
    obtain ⟨-, rfl⟩ := load_eq_some.mp hload
    cases htest : e.test arg (s.ring.queue i) with
    | none => exact .refused hpc htest
    | some ptr => exact .passed hpc htest
  | refuse =>
    rw [hpc] at hs
    cases hs
    exact .refuse hpc
  | loadIndexAgain ptr =>
    rw [hpc] at hs
    cases hs
    exact .loadIndexAgain hpc
  | access ptr i =>
    rw [hpc] at hs
    cases slotFirst with
    | true =>
      rw [State.of_putSlot hs]
      exact .slotFirst hpc
    | false =>
      cases hs
      exact .indexFirst hpc
  | storeIndex ptr i =>
    rw [hpc] at hs
    cases hs
    exact .storeIndex hpc
  | storeSlot ptr i =>
    rw [hpc] at hs
    rw [State.of_putSlot hs]
    exact .storeSlot hpc
  | loadIndexWrap ptr =>
    rw [hpc] at hs
    cases hs
    exact .loadIndexWrap hpc
  | loadSize ptr i =>
    rw [hpc] at hs
    cases hs
    split
    · exact .past hpc ‹_›
    · exact .inside hpc (Nat.lt_of_not_ge ‹_›)
  | wrap ptr =>
    rw [hpc] at hs
    cases hs
    exact .wrap hpc
  | finish ptr =>
    rw [hpc] at hs
    cases hs
    exact .finish hpc

end Moves

/-! ## The invariant -/

/-- What is known of the index `idx` of an end that has stored `pos` slots. Between the store of a
slot and the wrap it is one behind, or one past its residue. -/
def Pc.Ok (n idx pos : ℕ) : Pc E → Prop
  | .loadSlot _ i | .access _ i => idx = i ∧ i = pos % n
  | .storeIndex _ i => idx = i ∧ ∃ p, pos = p + 1 ∧ i = p % n
  | .storeSlot _ i => idx = i + 1 ∧ i = pos % n
  | .loadIndexWrap _ => ∃ p, pos = p + 1 ∧ idx = p % n + 1
  | .loadSize _ i => idx = i ∧ ∃ p, pos = p + 1 ∧ i = p % n + 1
  | .wrap _ => idx = n ∧ pos % n = 0
  | _ => idx = pos % n

/-- The pointer a call has moved and not returned. -/
def Pc.inflight : Pc E → List E
  | .storeIndex ptr _ | .loadIndexWrap ptr | .loadSize ptr _ | .wrap ptr | .finish ptr => [ptr]
  | _ => []

/-- The pointer a call is going to move, after a test that let it pass. -/
def Pc.pending : Pc E → Option E
  | .loadIndexAgain ptr | .access ptr _ | .storeSlot ptr _ => some ptr
  | _ => none

/-- The test still holds: there is room for a produce, and `ptr` is the first for a consume. -/
def State.CanMove (n : ℕ) (s : State E) : End → E → Prop
  | .producer, _ => s.live.length < n
  | .consumer, ptr => ∃ rest, s.live = ptr :: rest

/-- **The invariant** of a ring of `n` slots: the pointers stored and not cleared lie in the arc
that starts behind the cleared ones. -/
structure Inv (n : ℕ) (s : State E) : Prop where
  size_eq : s.ring.size = n
  size_le : n ≤ s.ring.slots
  order : s.moved .producer = s.moved .consumer ++ s.live
  ring : SlotRing.Holds n s.ring.queue (s.moved .consumer).length s.live
  index : ∀ e, (s.pc e).Ok n (s.ring.index e) (s.moved e).length
  canMove : ∀ e ptr, (s.pc e).pending = some ptr → s.CanMove n e ptr
  returned : ∀ e, s.returned e ++ (s.pc e).inflight = s.moved e

/-- The invariant of a new ring. -/
theorem Inv.start {n cacheBytes : ℕ} {r : PtrRing E} (hn : 0 < n)
    (hinit : ptrRingInit cacheBytes n true = .ok r) : Inv n (spscStart r) := by
  cases hinit
  refine ⟨rfl, le_queueSlots cacheBytes n, rfl, .init hn, fun e => ?_, (fun _ _ h => by cases h),
    fun _ => rfl⟩
  cases e <;> exact (Nat.zero_mod n).symm

/-! ## Steps -/

section Steps

variable {n : ℕ} {s s' : State E} {e : End} {ptr : E} {i : ℕ}

/-- What a step of end `e` leaves alone when it stores no slot. -/
structure State.Quiet (e : End) (s s' : State E) : Prop where
  size : s'.ring.size = s.ring.size
  slots : s'.ring.slots = s.ring.slots
  queue : s'.ring.queue = s.ring.queue
  moved : s'.moved = s.moved
  pc : ∀ e', e' ≠ e → s'.pc e' = s.pc e'
  index : ∀ e', e' ≠ e → s'.ring.index e' = s.ring.index e'
  returned : ∀ e', e' ≠ e → s'.returned e' = s.returned e'

/-- A thread goes on where it is sent. -/
theorem State.goto_pc_self (pc : Pc E) : (s.goto e pc).pc e = pc := Function.update_self ..

/-- A thread that goes on changes nothing of the other end. -/
theorem State.quiet_goto (pc : Pc E) : State.Quiet e s (s.goto e pc) :=
  ⟨rfl, rfl, rfl, rfl, fun _ h => Function.update_of_ne h .., fun _ _ => rfl, fun _ _ => rfl⟩

/-- An index that is stored is read back. -/
theorem index_setIndex_self (r : PtrRing E) (i : ℕ) (e : End) : (r.setIndex i e).index e = i := by
  cases e <;> rfl

/-- A thread that stores its index changes nothing of the other end. -/
theorem State.quiet_putIndex (i : ℕ) (pc : Pc E) :
    State.Quiet e s ((s.putIndex e i).goto e pc) := by
  refine ⟨?_, ?_, ?_, rfl, fun _ h => Function.update_of_ne h .., ?_, fun _ _ => rfl⟩
  · cases e <;> rfl
  · cases e <;> rfl
  · cases e <;> rfl
  · intro e' h
    cases e <;> cases e' <;> first | rfl | exact absurd rfl h

/-- A call that returns changes nothing of the other end. -/
theorem State.quiet_ret (pc : Pc E) : State.Quiet e s ((s.ret e ptr).goto e pc) :=
  ⟨rfl, rfl, rfl, rfl, fun _ h => Function.update_of_ne h .., fun _ _ => rfl,
    fun _ h => Function.update_of_ne h ..⟩

/-- A step that stores no slot keeps the invariant when it keeps what concerns its own end. -/
theorem Inv.quiet (h : Inv n s) (hquiet : State.Quiet e s s')
    (hindex : (s'.pc e).Ok n (s'.ring.index e) (s.moved e).length)
    (hcan : ∀ ptr, (s'.pc e).pending = some ptr → s.CanMove n e ptr)
    (hreturned : s'.returned e ++ (s'.pc e).inflight = s.moved e) : Inv n s' := by
  -- slots and pointers moved are those of before, so only the calls have to be looked at
  have hlive : s'.live = s.live := by rw [State.live, State.live, hquiet.moved]
  have hcanMove : ∀ e' ptr, s.CanMove n e' ptr → s'.CanMove n e' ptr := by
    intro e' ptr hmove
    cases e' <;> simpa only [State.CanMove, hlive] using hmove
  refine ⟨hquiet.size.trans h.size_eq, hquiet.slots ▸ h.size_le, ?_, ?_, fun e' => ?_,
    fun e' ptr hpending => hcanMove e' ptr ?_, fun e' => ?_⟩
  · rw [hquiet.moved, hlive]
    exact h.order
  · rw [hquiet.queue, hquiet.moved, hlive]
    exact h.ring
  · rw [hquiet.moved]
    by_cases he : e' = e
    · rwa [he]
    · rw [hquiet.pc e' he, hquiet.index e' he]
      exact h.index e'
  · by_cases he : e' = e
    · rw [he] at hpending ⊢
      exact hcan ptr hpending
    · rw [hquiet.pc e' he] at hpending
      exact h.canMove e' ptr hpending
  · rw [hquiet.moved]
    by_cases he : e' = e
    · rwa [he]
    · rw [hquiet.returned e' he, hquiet.pc e' he]
      exact h.returned e'

/-- A step that only moves the call on. -/
theorem Inv.goto (h : Inv n s) (pc : Pc E) (hindex : pc.Ok n (s.ring.index e) (s.moved e).length)
    (hcan : ∀ ptr, pc.pending = some ptr → s.CanMove n e ptr)
    (hinflight : pc.inflight = (s.pc e).inflight) : Inv n (s.goto e pc) := by
  apply h.quiet (State.quiet_goto pc) <;> rw [State.goto_pc_self]
  · exact hindex
  · exact hcan
  · rw [hinflight]
    exact h.returned e

/-- A step that stores the index. -/
theorem Inv.putIndex (h : Inv n s) (pc : Pc E) {j : ℕ} (hindex : pc.Ok n j (s.moved e).length)
    (hcan : ∀ ptr, pc.pending = some ptr → s.CanMove n e ptr)
    (hinflight : pc.inflight = (s.pc e).inflight) : Inv n ((s.putIndex e j).goto e pc) := by
  apply h.quiet (State.quiet_putIndex j pc) <;> rw [State.goto_pc_self]
  · show pc.Ok n ((s.ring.setIndex j e).index e) (s.moved e).length
    rwa [index_setIndex_self]
  · exact hcan
  · rw [hinflight]
    exact h.returned e

/-- A produce adds its pointer behind the others. -/
theorem Inv.live_produced (h : Inv n s) :
    (s.slotDone .producer ptr i).live = s.live ++ [ptr] := by
  show (s.moved .producer ++ [ptr]).drop (s.moved .consumer).length = _
  rw [h.order, List.append_assoc, List.drop_left]

/-- A consume removes the first pointer. -/
theorem Inv.live_consumed {rest : List E} (h : Inv n s) (hlive : s.live = ptr :: rest) :
    (s.slotDone .consumer ptr i).live = rest := by
  have horder : s.moved .producer = (s.moved .consumer ++ [ptr]) ++ rest := by
    rw [h.order, hlive, List.append_assoc, List.singleton_append]
  show (s.moved .producer).drop (s.moved .consumer ++ [ptr]).length = _
  rw [horder, List.drop_left]

/-- **The store of a slot** keeps the arc, by a call that may move its pointer. -/
theorem Inv.ring_slotDone (h : Inv n s) (hcan : s.CanMove n e ptr)
    (hi : i = (s.moved e).length % n) :
    (s.slotDone e ptr i).moved .producer
        = (s.slotDone e ptr i).moved .consumer ++ (s.slotDone e ptr i).live ∧
      SlotRing.Holds n (s.slotDone e ptr i).ring.queue
        ((s.slotDone e ptr i).moved .consumer).length (s.slotDone e ptr i).live := by
  cases e with
  | producer =>
    have hlen : (s.moved .producer).length = (s.moved .consumer).length + s.live.length := by
      rw [h.order, List.length_append]
    have hpush := h.ring.push hcan ptr
    rw [← hlen, ← hi] at hpush
    rw [h.live_produced]
    refine ⟨?_, hpush⟩
    show s.moved .producer ++ [ptr] = s.moved .consumer ++ (s.live ++ [ptr])
    rw [← List.append_assoc, ← h.order]
  | consumer =>
    obtain ⟨rest, hrest⟩ := hcan
    have hring := h.ring
    rw [hrest] at hring
    have hpop := hring.pop
    rw [← hi] at hpop
    rw [h.live_consumed hrest]
    refine ⟨?_, ?_⟩
    · show s.moved .producer = s.moved .consumer ++ [ptr] ++ rest
      rw [h.order, hrest, List.append_assoc, List.singleton_append]
    · show SlotRing.Holds n _ (s.moved .consumer ++ [ptr]).length rest
      rw [List.length_append]
      exact hpop

/-- The other end may still move its pointer: a produce adds behind the first pointer, and a consume
makes room. -/
theorem Inv.canMove_slotDone (h : Inv n s) (hcan : s.CanMove n e ptr) {e' : End} (he : e' ≠ e)
    {ptr' : E} (hother : s.CanMove n e' ptr') : (s.slotDone e ptr i).CanMove n e' ptr' := by
  cases e with
  | producer =>
    cases e' with
    | producer => exact absurd rfl he
    | consumer =>
      obtain ⟨rest, hrest⟩ := hother
      exact ⟨rest ++ [ptr], by rw [h.live_produced, hrest, List.cons_append]⟩
  | consumer =>
    cases e' with
    | consumer => exact absurd rfl he
    | producer =>
      obtain ⟨rest, hrest⟩ := hcan
      have hother : s.live.length < n := hother
      rw [hrest, List.length_cons] at hother
      show (s.slotDone .consumer ptr i).live.length < n
      rw [h.live_consumed hrest]
      omega

/-- A step that stores a slot keeps the invariant. -/
theorem Inv.slotStore (h : Inv n s) (hcan : s.CanMove n e ptr) (hi : i = (s.moved e).length % n)
    (hbefore : (s.pc e).inflight = []) (pc : Pc E)
    (hindex : pc.Ok n (s.ring.index e) ((s.moved e).length + 1)) (hpending : pc.pending = none)
    (hinflight : pc.inflight = [ptr]) : Inv n ((s.slotDone e ptr i).goto e pc) := by
  obtain ⟨horder, hring⟩ := h.ring_slotDone hcan hi
  refine ⟨h.size_eq, h.size_le, horder, hring, fun e' => ?_, fun e' ptr' hpending' => ?_,
    fun e' => ?_⟩
  · have hsame : (s.slotDone e ptr i).ring.index e' = s.ring.index e' := by cases e' <;> rfl
    show (Function.update s.pc e pc e').Ok n ((s.slotDone e ptr i).ring.index e')
      (Function.update s.moved e (s.moved e ++ [ptr]) e').length
    rw [hsame]
    by_cases he : e' = e
    · rw [he, Function.update_self, Function.update_self, List.length_append]
      exact hindex
    · rw [Function.update_of_ne he, Function.update_of_ne he]
      exact h.index e'
  · have hpending' : (Function.update s.pc e pc e').pending = some ptr' := hpending'
    by_cases he : e' = e
    · rw [he, Function.update_self, hpending] at hpending'
      cases hpending'
    · rw [Function.update_of_ne he] at hpending'
      exact h.canMove_slotDone (i := i) hcan he (h.canMove e' ptr' hpending')
  · show s.returned e' ++ (Function.update s.pc e pc e').inflight
      = Function.update s.moved e (s.moved e ++ [ptr]) e'
    have hreturned := h.returned e'
    by_cases he : e' = e
    · rw [he] at hreturned
      rw [he, Function.update_self, Function.update_self, hinflight, ← hreturned, hbefore,
        List.append_nil]
    · rwa [Function.update_of_ne he, Function.update_of_ne he]

/-- The test of the slot tells whether the call may move its pointer. -/
theorem Inv.canMove_of_test (h : Inv n s) {arg : Option E} (hi : i = (s.moved e).length % n)
    (htest : e.test arg (s.ring.queue i) = some ptr) : s.CanMove n e ptr := by
  cases e with
  | producer =>
    have hlen : (s.moved .producer).length = (s.moved .consumer).length + s.live.length := by
      rw [h.order, List.length_append]
    rw [hlen] at hi
    -- the slot behind the arc is empty, so the arc does not fill the ring
    have hempty : s.ring.queue i = none := by
      by_contra hsome
      rw [End.test, if_pos (Option.isSome_iff_ne_none.mpr hsome)] at htest
      cases htest
    rw [hi] at hempty
    exact h.ring.back_eq_none.mp hempty
  | consumer =>
    have hfront : s.ring.queue i = some ptr := htest
    rw [hi, h.ring.front] at hfront
    -- the first slot of the arc is occupied, so the arc is not empty
    obtain hlive | ⟨x, rest, hlive⟩ : s.live = [] ∨ ∃ x rest, s.live = x :: rest := by
      cases s.live <;> simp
    · rw [hlive] at hfront
      cases hfront
    · rw [hlive] at hfront
      cases hfront
      exact ⟨rest, hlive⟩

/-- **Every step of a running call keeps the invariant.** The cases are the places of the call. -/
theorem Inv.move (h : Inv n s) (hmove : Move s e s') : Inv n s' := by
  have hindex := h.index e
  have hcan := h.canMove e
  cases hmove with
  | loadIndex hpc =>
    rw [hpc] at hindex
    exact h.goto _ ⟨rfl, hindex⟩ (fun _ h => by cases h) (by rw [hpc]; rfl)
  | refused hpc =>
    rw [hpc] at hindex
    obtain ⟨hidx, hi⟩ := hindex
    exact h.goto _ (hidx.trans hi) (fun _ h => by cases h) (by rw [hpc]; rfl)
  | passed hpc htest =>
    rw [hpc] at hindex
    obtain ⟨hidx, hi⟩ := hindex
    -- what the test of the slot says stays so until the call moves its pointer
    refine h.goto _ (hidx.trans hi) (fun ptr' hpending => ?_) (by rw [hpc]; rfl)
    cases hpending
    exact h.canMove_of_test hi htest
  | refuse hpc =>
    rw [hpc] at hindex
    exact h.goto _ hindex (fun _ h => by cases h) (by rw [hpc]; rfl)
  | loadIndexAgain hpc =>
    rw [hpc] at hindex hcan
    exact h.goto _ ⟨rfl, hindex⟩ hcan (by rw [hpc]; rfl)
  | slotFirst hpc =>
    rw [hpc] at hindex hcan
    obtain ⟨hidx, hi⟩ := hindex
    exact h.slotStore (hcan _ rfl) hi (by rw [hpc]; rfl) _ ⟨hidx, _, rfl, hi⟩ rfl rfl
  | indexFirst hpc =>
    rw [hpc] at hindex hcan
    obtain ⟨-, hi⟩ := hindex
    exact h.putIndex _ ⟨rfl, hi⟩ hcan (by rw [hpc]; rfl)
  | storeIndex hpc =>
    rw [hpc] at hindex
    obtain ⟨-, p, hp, hi⟩ := hindex
    exact h.putIndex _ ⟨p, hp, congrArg (· + 1) hi⟩ (fun _ h => by cases h) (by rw [hpc]; rfl)
  | storeSlot hpc =>
    rw [hpc] at hindex hcan
    obtain ⟨hidx, hi⟩ := hindex
    exact h.slotStore (hcan _ rfl) hi (by rw [hpc]; rfl) _
      ⟨_, rfl, hidx.trans (congrArg (· + 1) hi)⟩ rfl rfl
  | loadIndexWrap hpc =>
    rw [hpc] at hindex
    obtain ⟨p, hp, hidx⟩ := hindex
    exact h.goto _ ⟨rfl, p, hp, hidx⟩ (fun _ h => by cases h) (by rw [hpc]; rfl)
  | past hpc hge =>
    rw [hpc] at hindex
    obtain ⟨hidx, p, hp, hi⟩ := hindex
    have hlt := Nat.mod_lt p h.ring.pos
    rw [h.size_eq] at hge
    -- the last slot was accessed, so the index is `size` and the next position has residue 0
    refine h.goto _ ⟨by omega, ?_⟩ (fun _ h => by cases h) (by rw [hpc]; rfl)
    rw [hp, succ_mod h.ring.pos, next, if_pos (by omega)]
  | inside hpc hlt =>
    rw [hpc] at hindex
    obtain ⟨hidx, p, hp, hi⟩ := hindex
    rw [h.size_eq] at hlt
    refine h.goto _ ?_ (fun _ h => by cases h) (by rw [hpc]; rfl)
    show s.ring.index e = (s.moved e).length % n
    rw [hp, succ_mod h.ring.pos, next, if_neg (by omega), hidx, hi]
  | wrap hpc =>
    rw [hpc] at hindex
    obtain ⟨-, hzero⟩ := hindex
    exact h.putIndex _ hzero.symm (fun _ h => by cases h) (by rw [hpc]; rfl)
  | @finish ptr hpc =>
    have hreturned := h.returned e
    rw [hpc] at hindex hreturned
    have hquiet : State.Quiet e s ((s.ret e ptr).goto e .idle) := State.quiet_ret _
    apply h.quiet hquiet <;> rw [State.goto_pc_self]
    · exact hindex
    · exact fun _ h => by cases h
    · show Function.update s.returned e (s.returned e ++ [ptr]) e ++ [] = s.moved e
      rw [Function.update_self, List.append_nil]
      exact hreturned

/-- A thread is ready when it is idle. -/
theorem Pc.ready_iff {pc : Pc E} : pc.ready ↔ pc = .idle := by
  cases pc <;> simp [Pc.ready]

/-- **Every step keeps the invariant.** -/
theorem Inv.step {a : Action E} (h : Inv n s) (hs : spscStep s a = some s') : Inv n s' := by
  -- the start of a call stores nothing
  have hcall : ∀ e arg, (s.pc e).ready → Inv n (s.goto e (.loadIndex arg)) := by
    intro e arg hready
    have hindex := h.index e
    rw [Pc.ready_iff.mp hready] at hindex
    exact h.goto _ hindex (fun _ h => by cases h) (by rw [Pc.ready_iff.mp hready]; rfl)
  cases a with
  | produce ptr =>
    obtain ⟨hready, hs⟩ := Option.ite_none_right_eq_some.mp hs
    cases hs
    exact hcall .producer _ hready
  | consume =>
    obtain ⟨hready, hs⟩ := Option.ite_none_right_eq_some.mp hs
    cases hs
    exact hcall .consumer _ hready
  | run e slotFirst => exact h.move (move_of_advance hs)

/-- The argument of a call that has not passed its test. -/
def Pc.arg? : Pc E → Option (Option E)
  | .loadIndex arg | .loadSlot arg _ => some arg
  | _ => none

end Steps

/-! ## A call alone -/

section Solo

variable {s : State E} {e : End} {arg : Option E} {ptr : E}

/-- Storing an index leaves the size. -/
@[simp] theorem setIndex_size (r : PtrRing E) (i : ℕ) (e : End) :
    (r.setIndex i e).size = r.size := by
  cases e <;> rfl

/-- Of two stores to an index the second one counts. -/
@[simp] theorem setIndex_setIndex (r : PtrRing E) (i j : ℕ) (e : End) :
    (r.setIndex i e).setIndex j e = r.setIndex j e := by
  cases e <;> rfl

/-- A call alone that passes its test. -/
theorem run_moved (hpc : s.pc e = .loadIndex arg) (hi : s.ring.index e < s.ring.slots)
    (htest : e.test arg (s.ring.queue (s.ring.index e)) = some ptr) :
    Reachable spscStep (fun _ _ => True) s
      ((((s.slotDone e ptr (s.ring.index e)).putIndex e (next s.ring.size (s.ring.index e))).ret e
        ptr).goto e .idle) := by
  -- up to the comparison with `size`, which decides whether the index is wrapped
  have hstored : runOk spscStep (fun _ _ => True) s (List.replicate 6 (.run e true))
      = some (((s.slotDone e ptr (s.ring.index e)).putIndex e (s.ring.index e + 1)).goto e
        (.loadSize ptr (s.ring.index e + 1))) := by
    simp [List.replicate, runOk, spscStep, State.advance, hpc, State.goto, load, hi, htest,
      State.putSlot, store, State.putIndex, index_setIndex_self, State.slotDone]
  refine (reachable_of_runOk hstored).trans ?_
  by_cases hwrap : s.ring.size ≤ s.ring.index e + 1
  · have hwrapped : runOk spscStep (fun _ _ => True)
        (((s.slotDone e ptr (s.ring.index e)).putIndex e (s.ring.index e + 1)).goto e
          (.loadSize ptr (s.ring.index e + 1))) (List.replicate 3 (.run e true))
        = some ((((s.slotDone e ptr (s.ring.index e)).putIndex e
          (next s.ring.size (s.ring.index e))).ret e ptr).goto e .idle) := by
      simp [List.replicate, runOk, spscStep, State.advance, State.goto, State.putIndex,
        State.slotDone, hwrap, State.ret, next]
    exact reachable_of_runOk hwrapped
  · have hreturned : runOk spscStep (fun _ _ => True)
        (((s.slotDone e ptr (s.ring.index e)).putIndex e (s.ring.index e + 1)).goto e
          (.loadSize ptr (s.ring.index e + 1))) (List.replicate 2 (.run e true))
        = some ((((s.slotDone e ptr (s.ring.index e)).putIndex e
          (next s.ring.size (s.ring.index e))).ret e ptr).goto e .idle) := by
      simp [List.replicate, runOk, spscStep, State.advance, State.goto, State.putIndex,
        State.slotDone, hwrap, State.ret, next]
    exact reachable_of_runOk hreturned

/-- A call alone that is refused. -/
theorem run_refused (hpc : s.pc e = .loadIndex arg) (hi : s.ring.index e < s.ring.slots)
    (htest : e.test arg (s.ring.queue (s.ring.index e)) = none) :
    Reachable spscStep (fun _ _ => True) s (s.goto e .idle) := by
  have hrun : runOk spscStep (fun _ _ => True) s (List.replicate 3 (.run e true))
      = some (s.goto e .idle) := by
    simp [List.replicate, runOk, spscStep, State.advance, hpc, State.goto, load, hi, htest]
  exact reachable_of_runOk hrun

/-- **A produce alone does what `__ptr_ring_produce()` does.** -/
theorem run_produce {r' : PtrRing E} {ret : ℤ} (hidle : s.pc .producer = .idle)
    (hcall : s.ring.ptrRingProduce (some ptr) = some (r', ret)) :
    ∃ s', Reachable spscStep (fun _ _ => True) s s' ∧ s'.ring = r' ∧ s'.pc .producer = .idle ∧
      s'.pc .consumer = s.pc .consumer := by
  have hstart : Reachable spscStep (fun _ _ => True) s
      (s.goto .producer (.loadIndex (some ptr))) :=
    .single (a := .produce ptr) trivial (by simp [spscStep, hidle, Pc.ready])
  by_cases hi : s.ring.producer < s.ring.slots
  · by_cases hfull : (s.ring.queue s.ring.producer).isSome
    · rw [ptrRingProduce_full hi hfull] at hcall
      cases hcall
      refine ⟨_, hstart.trans (run_refused (State.goto_pc_self _) hi ?_), rfl, rfl, rfl⟩
      exact if_pos hfull
    · have hfree := Option.not_isSome_iff_eq_none.mp hfull
      rw [ptrRingProduce_eq hi hfree] at hcall
      cases hcall
      refine ⟨_, hstart.trans (run_moved (State.goto_pc_self _) hi (if_neg hfull)), rfl, rfl, rfl⟩
  · simp [ptrRingProduce, load, hi] at hcall

/-- **A consume alone does what `__ptr_ring_consume()` does.** -/
theorem run_consume {r' : PtrRing E} {p : Option E} (hidle : s.pc .consumer = .idle)
    (hcall : s.ring.ptrRingConsume = some (r', p)) :
    ∃ s', Reachable spscStep (fun _ _ => True) s s' ∧ s'.ring = r' ∧ s'.pc .consumer = .idle ∧
      s'.pc .producer = s.pc .producer := by
  have hstart : Reachable spscStep (fun _ _ => True) s (s.goto .consumer (.loadIndex none)) :=
    .single (a := .consume) trivial (by simp [spscStep, hidle, Pc.ready])
  by_cases hi : s.ring.consumer < s.ring.slots
  · cases hentry : s.ring.queue s.ring.consumer with
    | none =>
      simp only [ptrRingConsume, ptrRingPeek, load_eq hi, hentry, Option.bind_eq_bind,
        Option.bind_some, Option.isSome_none] at hcall
      cases hcall
      exact ⟨_, hstart.trans (run_refused (State.goto_pc_self _) hi hentry), rfl, rfl, rfl⟩
    | some ptr =>
      simp only [ptrRingConsume, ptrRingPeek, load_eq hi, hentry, Option.bind_eq_bind,
        Option.bind_some, Option.isSome_some, if_true, ptrRingDiscardOne_eq hi] at hcall
      cases hcall
      exact ⟨_, hstart.trans (run_moved (State.goto_pc_self _) hi hentry), rfl, rfl, rfl⟩
  · simp [ptrRingConsume, ptrRingPeek, load, hi] at hcall

end Solo

/-! ## Every interleaving -/

/-- Each produce has a pointer. -/
def State.HasArg (s : State E) : Prop :=
  ∀ arg, (s.pc .producer).arg? = some arg → arg.isSome

/-- A call that moves on has the argument it had before. -/
theorem State.HasArg.goto {s : State E} (h : s.HasArg) {e : End} {pc : Pc E}
    (harg : ∀ arg, pc.arg? = some arg → (s.pc e).arg? = some arg) : (s.goto e pc).HasArg := by
  intro arg hsome
  cases e with
  | producer =>
    rw [State.goto_pc_self] at hsome
    exact h arg (harg arg hsome)
  | consumer => exact h arg hsome

/-- Each step keeps the argument of a produce. -/
theorem State.HasArg.step {s s' : State E} {a : Action E} (h : s.HasArg)
    (hs : spscStep s a = some s') : s'.HasArg := by
  cases a with
  | produce ptr =>
    obtain ⟨-, hs⟩ := Option.ite_none_right_eq_some.mp hs
    cases hs
    intro arg harg
    rw [State.goto_pc_self] at harg
    cases harg
    rfl
  | consume =>
    obtain ⟨-, hs⟩ := Option.ite_none_right_eq_some.mp hs
    cases hs
    exact h
  | run e slotFirst =>
    cases move_of_advance hs with
    | loadIndex hpc => exact h.goto fun arg harg => by rw [hpc]; exact harg
    | _ => exact h.goto fun _ harg => by cases harg

/-- A call that is at its refusal after a move, and was not before, has moved there. -/
theorem State.of_refuse_goto {s : State E} {e e' : End} {pc : Pc E} (hbefore : s.pc e ≠ .refuse)
    (hafter : (s.goto e' pc).pc e = .refuse) : e = e' ∧ pc = .refuse := by
  by_cases he : e = e'
  · subst he
    rw [State.goto_pc_self] at hafter
    exact ⟨rfl, hafter⟩
  · have hsame : (s.goto e' pc).pc e = s.pc e := Function.update_of_ne he ..
    rw [hsame] at hafter
    exact absurd hafter hbefore

/-- A call is refused at the load of its slot. -/
theorem State.of_refused {s s' : State E} {a : Action E} {e : End} (hs : spscStep s a = some s')
    (hbefore : s.pc e ≠ .refuse) (hafter : s'.pc e = .refuse) :
    ∃ arg i, s.pc e = .loadSlot arg i ∧ e.test arg (s.ring.queue i) = none := by
  cases a with
  | produce | consume =>
    obtain ⟨-, hs⟩ := Option.ite_none_right_eq_some.mp hs
    cases hs
    obtain ⟨-, h⟩ := State.of_refuse_goto hbefore hafter
    cases h
  | run e' slotFirst =>
    cases move_of_advance hs with
    | refused hpc htest =>
      obtain ⟨rfl, -⟩ := State.of_refuse_goto hbefore hafter
      exact ⟨_, _, hpc, htest⟩
    | _ =>
      obtain ⟨-, h⟩ := State.of_refuse_goto (s := s) hbefore hafter
      cases h

/-- The index may be `size`: between its increment and its wrap. -/
def Pc.wrapping : Pc E → Bool
  | .storeSlot .. | .loadIndexWrap _ | .loadSize .. | .wrap _ => true
  | _ => false

/-- The slot a call is about to access. -/
def Pc.slot? : Pc E → Option ℕ
  | .loadSlot _ i | .access _ i | .storeSlot _ i => some i
  | _ => none

/-- **What the two threads rely on**, in a state of a ring of `size` slots. -/
structure Delivers (size : ℕ) (s : State E) : Prop where
  /-- The pointers come out in the order in which they were stored. -/
  order : s.returned .consumer <+: s.moved .producer
  /-- Each pointer stored is one whose produce has returned 0, or is about to. -/
  accepted : s.returned .producer <+: s.moved .producer ∧
    (s.moved .producer).length ≤ (s.returned .producer).length + 1 ∧
    (s.pc .producer = .idle → s.returned .producer = s.moved .producer)
  /-- At most `size` pointers are in the ring. -/
  live_le : s.live.length ≤ size
  /-- A produce is refused only when `size` pointers are in the ring at its test. -/
  full : ∀ a s', spscStep s a = some s' → s.pc .producer ≠ .refuse → s'.pc .producer = .refuse →
    s.live.length = size
  /-- A consume is refused only when none is in the ring at its test. -/
  empty : ∀ a s', spscStep s a = some s' → s.pc .consumer ≠ .refuse → s'.pc .consumer = .refuse →
    s.live = []
  /-- An index is below `size`, except that it may be `size` until it is wrapped. -/
  index_le : ∀ e, s.ring.index e ≤ size
  index_lt : ∀ e, (s.pc e).wrapping = false → s.ring.index e < size
  /-- Every slot access is in the ring. -/
  slot_lt : ∀ e i, (s.pc e).slot? = some i → i < size

/-- The bounds of an index. -/
theorem Pc.Ok.bounds {pc : Pc E} {n idx pos : ℕ} (h : pc.Ok n idx pos) (hn : 0 < n) :
    idx ≤ n ∧ (pc.wrapping = false → idx < n) ∧ ∀ i, pc.slot? = some i → i < n := by
  have hmod := fun p => Nat.mod_lt p hn
  cases pc with
  | loadSlot _ i | access _ i =>
    obtain ⟨rfl, rfl⟩ := h
    exact ⟨(hmod _).le, fun _ => hmod _, fun _ h => by cases h; exact hmod _⟩
  | storeIndex _ i =>
    obtain ⟨rfl, p, -, rfl⟩ := h
    exact ⟨(hmod _).le, fun _ => hmod _, fun _ h => by cases h⟩
  | storeSlot _ i =>
    obtain ⟨rfl, rfl⟩ := h
    exact ⟨hmod _, (fun h => by cases h), fun _ h => by cases h; exact hmod _⟩
  | loadIndexWrap _ =>
    obtain ⟨p, -, rfl⟩ := h
    exact ⟨hmod _, (fun h => by cases h), fun _ h => by cases h⟩
  | loadSize _ i =>
    obtain ⟨rfl, p, -, rfl⟩ := h
    exact ⟨hmod _, (fun h => by cases h), fun _ h => by cases h⟩
  | wrap _ =>
    obtain ⟨rfl, -⟩ := h
    exact ⟨le_rfl, (fun h => by cases h), fun _ h => by cases h⟩
  | _ =>
    have h : idx = pos % n := h
    subst h
    exact ⟨(hmod _).le, fun _ => hmod _, fun _ h => by cases h⟩

/-- The invariant is what the two threads rely on. -/
theorem Inv.delivers {n : ℕ} {s : State E} (h : Inv n s) (harg : s.HasArg) : Delivers n s where
  order := by
    rw [h.order, ← h.returned .consumer, List.append_assoc]
    exact List.prefix_append _ _
  accepted := by
    -- a producer has at most one pointer stored and not returned
    have hlen : ∀ pc : Pc E, pc.inflight.length ≤ 1 := by
      intro pc
      cases pc <;> simp [Pc.inflight]
    rw [← h.returned .producer]
    refine ⟨List.prefix_append _ _, ?_, fun hidle => ?_⟩
    · rw [List.length_append]
      exact Nat.add_le_add_left (hlen _) _
    · rw [hidle, Pc.inflight, List.append_nil]
      all_goals intros; contradiction
  live_le := h.ring.length_le
  full a s' hs hbefore hafter := by
    obtain ⟨arg, i, hpc, htest⟩ := State.of_refused hs hbefore hafter
    have hindex := h.index .producer
    rw [hpc] at hindex
    obtain ⟨-, hi⟩ := hindex
    have hsome : arg.isSome := harg arg (by rw [hpc]; rfl)
    have hfull : ¬ s.live.length < n := by
      intro hroom
      rw [h.order, List.length_append] at hi
      have hempty := h.ring.back_eq_none.mpr hroom
      rw [← hi] at hempty
      -- at an empty slot the test gives the argument
      rw [hempty] at htest
      have htest : arg = none := htest
      rw [htest] at hsome
      cases hsome
    exact Nat.le_antisymm h.ring.length_le (Nat.not_lt.mp hfull)
  empty a s' hs hbefore hafter := by
    obtain ⟨arg, i, hpc, hentry⟩ := State.of_refused hs hbefore hafter
    have hindex := h.index .consumer
    rw [hpc] at hindex
    obtain ⟨-, hi⟩ := hindex
    have hentry : s.ring.queue i = none := hentry
    rw [hi] at hentry
    exact h.ring.front_eq_none.mp hentry
  index_le e := ((h.index e).bounds h.ring.pos).1
  index_lt e := ((h.index e).bounds h.ring.pos).2.1
  slot_lt e := ((h.index e).bounds h.ring.pos).2.2

/-- **Every interleaving of one producer and one consumer delivers**, on a ring of any size. -/
theorem spsc_delivers {cacheBytes size : ℕ} {r : PtrRing E} (hsize : 0 < size)
    (hinit : ptrRingInit cacheBytes size true = .ok r) {s : State E}
    (hreach : Reachable spscStep (fun _ _ => True) (spscStart r) s) : Delivers size s := by
  have hinv : Inv size s ∧ s.HasArg := by
    refine hreach.invariant (P := fun s => Inv size s ∧ s.HasArg)
      ⟨.start hsize hinit, fun _ h => by cases h⟩ ?_
    rintro s a s' ⟨hinv, harg⟩ - hs
    exact ⟨hinv.step hs, harg.step hs⟩
  exact hinv.1.delivers hinv.2

/-- A new ring of one slot, in a cache line of eight. -/
def one : PtrRing ℕ := ⟨0, 0, 1, 8, fun _ => none⟩

/-- The producer has stored the pointer 7 and not the index, and the consumer has taken the pointer.
-/
def takenEarly : List (Action ℕ) :=
  .produce 7 :: List.replicate 4 (.run .producer true) ++
    .consume :: List.replicate 9 (.run .consumer true)

/-- A ring of one slot whose pointer is consumed before its produce returns. -/
theorem spsc_delivers_one :
    ∃ s, runOk spscStep (fun _ _ => True) (spscStart one) takenEarly = some s ∧ Delivers 1 s := by
  obtain ⟨s, hrun⟩ := Option.isSome_iff_exists.mp
    (show (runOk spscStep (fun _ _ => True) (spscStart one) takenEarly).isSome by decide)
  exact ⟨s, hrun, spsc_delivers (by decide) (show ptrRingInit 64 1 true = .ok one from rfl)
    (reachable_of_runOk hrun)⟩

/-- **A pointer can be consumed before its produce returns, and an index can be `size`**: the
producer goes on to store its index. -/
theorem spsc_consumed_before_return :
    ∃ s, Reachable spscStep (fun _ _ => True) (spscStart one) s ∧
      ¬ s.returned .consumer <+: s.returned .producer ∧ ¬ s.ring.producer < s.ring.size := by
  have hrun : (runOk spscStep (fun _ _ => True) (spscStart one)
      (takenEarly ++ [.run .producer true])).any fun s =>
        ¬ s.returned .consumer <+: s.returned .producer ∧ ¬ s.ring.producer < s.ring.size := by
    decide
  obtain ⟨s, hs, hbad⟩ := (Option.any_eq_true _ _).mp hrun
  exact ⟨s, reachable_of_runOk hs, of_decide_eq_true hbad⟩

end PtrRing
