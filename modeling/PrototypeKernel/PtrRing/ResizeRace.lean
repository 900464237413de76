import PrototypeKernel.PtrRing.Resize

/-! # A resize and a consumer

One thread runs `ptr_ring_resize()` and another one runs `ptr_ring_consume()`. Both locks are steps,
and so are each access of a field of the ring and each access of a slot. The two loads of
`r->queue[r->consumer]` may come in either order, and so may those of the comparison with `size` and
the two stores of `__ptr_ring_discard_one()`. -/

namespace PtrRing.Race

open TransitionSystem

variable {E : Type*}

/-! ## States -/

/-- The two threads. -/
inductive Thread where
  | resizer
  | consumer
  deriving DecidableEq, Repr

/-- The memory behind a `queue` pointer: `slots` slots, allocated for `size` entries. -/
structure Arr (E : Type*) where
  size : ℕ
  slots : ℕ
  slot : ℕ → Option E

/-- Where a call of `ptr_ring_consume()` stands. `q` is the loaded `queue`, `i` the loaded
`consumer`. -/
inductive Pc (E : Type*) where
  | idle
  /-- About to take `consumer_lock`. -/
  | lock
  /-- About to load `queue` or `consumer`, for the test of the slot. -/
  | peek
  | peekQueue (q : ℕ)
  | peekIndex (i : ℕ)
  | loadSlot (q i : ℕ)
  /-- About to load `queue` or `consumer`, for the store to the slot. -/
  | discard (ptr : E)
  | discardQueue (ptr : E) (q : ℕ)
  | discardIndex (ptr : E) (i : ℕ)
  /-- About to store the slot and the incremented index. -/
  | access (ptr : E) (q i : ℕ)
  /-- The slot is stored and the index is not. -/
  | storeIndex (ptr : E) (i : ℕ)
  /-- The index is stored and the slot is not. -/
  | storeSlot (ptr : E) (q i : ℕ)
  /-- About to load `consumer` or `size`, for the comparison. -/
  | compare (ptr : E)
  | compareIndex (ptr : E) (i : ℕ)
  | compareSize (ptr : E) (n : ℕ)
  /-- About to store 0 as the index. -/
  | wrap (ptr : E)
  /-- About to release `consumer_lock` and to return. -/
  | unlock (ret : Option E)
  deriving DecidableEq, Repr

/-- The arguments and locals of `ptr_ring_resize()`; `arr` is the new `queue`. -/
structure Resize where
  size : ℕ
  destroy : Bool
  arr : ℕ
  producer : ℕ
  deriving DecidableEq, Repr

/-- Where a call of `ptr_ring_resize()` stands. -/
inductive ResizePc (E : Type*) where
  | idle
  | lockProducer (c : Resize)
  /-- In the call of `ptr_ring_consume()`. -/
  | drain (c : Resize)
  /-- About to move a consumed pointer, or to destroy it. -/
  | move (c : Resize) (ptr : E)
  | storeSize (c : Resize)
  | storeProducer (c : Resize)
  | storeConsumer (c : Resize)
  | loadOld (c : Resize)
  | storeQueue (c : Resize) (old : ℕ)
  | unlockProducer (old : ℕ)
  | free (old : ℕ)
  deriving DecidableEq, Repr

/-- The ring, the memory, the locks, the calls in progress, and (ghost) the pointers returned to the
consumer and those passed to `destroy`. -/
structure State (E : Type*) where
  producer : ℕ
  consumer : ℕ
  size : ℕ
  queue : ℕ
  /-- `none` before the allocation and after `kfree()`. -/
  heap : ℕ → Option (Arr E)
  /-- Where the next allocation goes. -/
  brk : ℕ
  producerLock : Option Thread
  consumerLock : Option Thread
  call : Thread → Pc E
  resize : ResizePc E
  returned : List E
  destroyed : List E

/-- What happens next: the start of a call, or a step of a running one. `first` chooses between two
accesses that may come in either order. -/
inductive Action where
  | resize (size : ℕ) (kzalloc destroy : Bool)
  | consume
  | run (t : Thread) (first : Bool)
  deriving DecidableEq, Repr

/-! ## Steps -/

/-- A thread goes on at `pc`. -/
def State.goto (s : State E) (t : Thread) (pc : Pc E) : State E :=
  { s with call := Function.update s.call t pc }

/-- `q[i]`. -/
def State.load (s : State E) (q i : ℕ) : Option (Option E) :=
  (s.heap q).bind fun a => if i < a.slots then some (a.slot i) else none

/-- A slot of an array on the heap. -/
def State.setSlot (s : State E) (q : ℕ) (a : Arr E) (i : ℕ) (ptr : Option E) : State E :=
  { s with heap := Function.update s.heap q (some { a with slot := Function.update a.slot i ptr }) }

/-- `q[i] = ptr`. -/
def State.store (s : State E) (q i : ℕ) (ptr : Option E) : Option (State E) :=
  (s.heap q).bind fun a => if i < a.slots then some (s.setSlot q a i ptr) else none

/-- The loop of `ptr_ring_resize()` moves or destroys a pointer, and ends at `NULL`. -/
def ResizePc.loop (c : Resize) : Option E → ResizePc E
  | some ptr => .move c ptr
  | none => .storeSize c

/-- The return from `ptr_ring_consume()`: to the consumer, or to the loop of `ptr_ring_resize()`. -/
def State.ret (s : State E) (t : Thread) (ret : Option E) : State E :=
  match t with
  | .consumer => { s.goto .consumer .idle with returned := s.returned ++ ret.toList }
  | .resizer =>
    match s.resize with
    | .drain c => { s.goto .resizer .idle with resize := .loop c ret }
    | _ => s.goto .resizer .idle

/-- The next step of a call of `ptr_ring_consume()`. -/
def State.advance (s : State E) (t : Thread) (first : Bool) : Option (State E) :=
  match s.call t with
  | .idle => none
  | .lock =>
      if s.consumerLock = none then some ({ s with consumerLock := some t }.goto t .peek) else none
  | .peek => some (s.goto t (if first then .peekQueue s.queue else .peekIndex s.consumer))
  | .peekQueue q => some (s.goto t (.loadSlot q s.consumer))
  | .peekIndex i => some (s.goto t (.loadSlot s.queue i))
  | .loadSlot q i =>
      (s.load q i).map fun entry =>
        match entry with
        | none => s.goto t (.unlock none)
        | some ptr => s.goto t (.discard ptr)
  | .discard ptr =>
      some (s.goto t (if first then .discardQueue ptr s.queue else .discardIndex ptr s.consumer))
  | .discardQueue ptr q => some (s.goto t (.access ptr q s.consumer))
  | .discardIndex ptr i => some (s.goto t (.access ptr s.queue i))
  | .access ptr q i =>
      -- the two stores of one statement, in either order
      if first then (s.store q i none).map (·.goto t (.storeIndex ptr i))
      else some ({ s with consumer := i + 1 }.goto t (.storeSlot ptr q i))
  | .storeIndex ptr i => some ({ s with consumer := i + 1 }.goto t (.compare ptr))
  | .storeSlot ptr q i => (s.store q i none).map (·.goto t (.compare ptr))
  | .compare ptr =>
      some (s.goto t (if first then .compareIndex ptr s.consumer else .compareSize ptr s.size))
  | .compareIndex ptr i =>
      some (s.goto t (if i ≥ s.size then .wrap ptr else .unlock (some ptr)))
  | .compareSize ptr n =>
      some (s.goto t (if s.consumer ≥ n then .wrap ptr else .unlock (some ptr)))
  | .wrap ptr => some ({ s with consumer := 0 }.goto t (.unlock (some ptr)))
  | .unlock ret => some ({ s with consumerLock := none }.ret t ret)

/-- The loop of `ptr_ring_resize()` calls `ptr_ring_consume()` again. -/
def State.drainAgain (s : State E) (c : Resize) : State E :=
  { s.goto .resizer .lock with resize := .drain c }

/-- The next step of a call of `ptr_ring_resize()`. -/
def State.advanceResize (s : State E) (first : Bool) : Option (State E) :=
  match s.resize with
  | .idle => none
  | .lockProducer c =>
      if s.producerLock = none then
        some ({ s with producerLock := some .resizer }.drainAgain c)
      else none
  | .drain _ => s.advance .resizer first
  | .move c ptr =>
      if c.producer < c.size then
        (s.store c.arr c.producer (some ptr)).map
          (·.drainAgain { c with producer := c.producer + 1 })
      else if c.destroy then some ({ s with destroyed := s.destroyed ++ [ptr] }.drainAgain c)
      else some (s.drainAgain c)
  | .storeSize c => some { s with size := c.size, resize := .storeProducer c }
  | .storeProducer c => some { s with producer := c.producer, resize := .storeConsumer c }
  | .storeConsumer c => some { s with consumer := 0, resize := .loadOld c }
  | .loadOld c => some { s with resize := .storeQueue c s.queue }
  | .storeQueue c old => some { s with queue := c.arr, resize := .unlockProducer old }
  | .unlockProducer old => some { s with producerLock := none, resize := .free old }
  | .free old => some { s with heap := Function.update s.heap old none, resize := .idle }

/-- The state after the allocation of `ptr_ring_resize()`. -/
def State.alloc (cacheBytes : ℕ) (s : State E) (size : ℕ) (destroy : Bool) : State E :=
  { s with
    heap := Function.update s.heap s.brk (some ⟨size, queueSlots cacheBytes size, fun _ => none⟩)
    brk := s.brk + 1
    resize := .lockProducer ⟨size, destroy, s.brk, 0⟩ }

/-- No call of `ptr_ring_resize()` is running. -/
def ResizePc.ready : ResizePc E → Bool
  | .idle => true
  | _ => false

/-- No call of `ptr_ring_consume()` is running. -/
def Pc.ready : Pc E → Bool
  | .idle => true
  | _ => false

/-- The step function of the two threads. -/
def raceStep (cacheBytes : ℕ) (s : State E) : Action → Option (State E)
  | .resize size kzalloc destroy =>
      if s.resize.ready then some (if kzalloc then s.alloc cacheBytes size destroy else s) else none
  | .consume => if (s.call .consumer).ready then some (s.goto .consumer .lock) else none
  | .run .consumer first => s.advance .consumer first
  | .run .resizer first => s.advanceResize first

/-- The two threads before they use the ring. -/
def raceStart (r : PtrRing E) : State E where
  producer := r.producer
  consumer := r.consumer
  size := r.size
  queue := 0
  heap := Function.update (fun _ => none) 0 (some ⟨r.size, r.slots, r.queue⟩)
  brk := 1
  producerLock := none
  consumerLock := none
  call := fun _ => .idle
  resize := .idle
  returned := []
  destroyed := []

/-! ## What a step can do -/

/-- The state after the slot that a call consumes is cleared. -/
def State.clear (s : State E) (q : ℕ) (a : Arr E) (i : ℕ) : State E := s.setSlot q a i none

/-- **The outcomes of a step** of a call of `ptr_ring_consume()`: the place it leaves, what it found
there, and the state it makes. -/
inductive Move (s : State E) (t : Thread) : State E → Prop
  | lock (hpc : s.call t = .lock) (hfree : s.consumerLock = none) :
      Move s t ({ s with consumerLock := some t }.goto t .peek)
  | peekQueue (hpc : s.call t = .peek) : Move s t (s.goto t (.peekQueue s.queue))
  | peekIndex (hpc : s.call t = .peek) : Move s t (s.goto t (.peekIndex s.consumer))
  | thenIndex {q} (hpc : s.call t = .peekQueue q) : Move s t (s.goto t (.loadSlot q s.consumer))
  | thenQueue {i} (hpc : s.call t = .peekIndex i) : Move s t (s.goto t (.loadSlot s.queue i))
  | empty {q i a} (hpc : s.call t = .loadSlot q i) (harr : s.heap q = some a)
      (hslot : a.slot i = none) : Move s t (s.goto t (.unlock none))
  | found {q i a ptr} (hpc : s.call t = .loadSlot q i) (harr : s.heap q = some a)
      (hslot : a.slot i = some ptr) : Move s t (s.goto t (.discard ptr))
  | discardQueue {ptr} (hpc : s.call t = .discard ptr) :
      Move s t (s.goto t (.discardQueue ptr s.queue))
  | discardIndex {ptr} (hpc : s.call t = .discard ptr) :
      Move s t (s.goto t (.discardIndex ptr s.consumer))
  | accessIndex {ptr q} (hpc : s.call t = .discardQueue ptr q) :
      Move s t (s.goto t (.access ptr q s.consumer))
  | accessQueue {ptr i} (hpc : s.call t = .discardIndex ptr i) :
      Move s t (s.goto t (.access ptr s.queue i))
  | slotFirst {ptr q i a} (hpc : s.call t = .access ptr q i) (harr : s.heap q = some a) :
      Move s t ((s.clear q a i).goto t (.storeIndex ptr i))
  | indexFirst {ptr q i} (hpc : s.call t = .access ptr q i) :
      Move s t ({ s with consumer := i + 1 }.goto t (.storeSlot ptr q i))
  | storeIndex {ptr i} (hpc : s.call t = .storeIndex ptr i) :
      Move s t ({ s with consumer := i + 1 }.goto t (.compare ptr))
  | storeSlot {ptr q i a} (hpc : s.call t = .storeSlot ptr q i) (harr : s.heap q = some a) :
      Move s t ((s.clear q a i).goto t (.compare ptr))
  | compareIndex {ptr} (hpc : s.call t = .compare ptr) :
      Move s t (s.goto t (.compareIndex ptr s.consumer))
  | compareSize {ptr} (hpc : s.call t = .compare ptr) :
      Move s t (s.goto t (.compareSize ptr s.size))
  | past {ptr i n} (hpc : s.call t = .compareIndex ptr i ∧ s.size = n ∨
      s.call t = .compareSize ptr n ∧ s.consumer = i) (hge : n ≤ i) :
      Move s t (s.goto t (.wrap ptr))
  | inside {ptr i n} (hpc : s.call t = .compareIndex ptr i ∧ s.size = n ∨
      s.call t = .compareSize ptr n ∧ s.consumer = i) (hlt : i < n) :
      Move s t (s.goto t (.unlock (some ptr)))
  | wrap {ptr} (hpc : s.call t = .wrap ptr) :
      Move s t ({ s with consumer := 0 }.goto t (.unlock (some ptr)))
  | unlock {ret} (hpc : s.call t = .unlock ret) :
      Move s t ({ s with consumerLock := none }.ret t ret)

section Moves

variable {s s' : State E} {t : Thread}

/-- The call of the resize returns into its loop. -/
theorem ret_resizer {c : Resize} (h : s.resize = .drain c) (ret : Option E) :
    s.ret .resizer ret = { s.goto .resizer .idle with resize := .loop c ret } := by
  simp only [State.ret, h]

/-- What is read is a slot of an array that is not freed. -/
theorem load_eq_some {q i : ℕ} {entry : Option E} (h : s.load q i = some entry) :
    ∃ a, s.heap q = some a ∧ a.slot i = entry := by
  obtain ⟨a, harr, h⟩ := Option.bind_eq_some_iff.mp h
  obtain ⟨-, h⟩ := Option.ite_none_right_eq_some.mp h
  exact ⟨a, harr, Option.some.inj h⟩

/-- A slot of an array that is not freed is written. -/
theorem store_eq_some {q i : ℕ} {ptr : Option E} (h : s.store q i ptr = some s') :
    ∃ a, s.heap q = some a ∧ s' = s.setSlot q a i ptr := by
  obtain ⟨a, harr, h⟩ := Option.bind_eq_some_iff.mp h
  obtain ⟨-, h⟩ := Option.ite_none_right_eq_some.mp h
  exact ⟨a, harr, (Option.some.inj h).symm⟩

/-- **Every step of a running call is a move.** -/
theorem move_of_advance {first : Bool} (hs : s.advance t first = some s') : Move s t s' := by
  unfold State.advance at hs
  -- one case per place, split by what the step found there
  cases hpc : s.call t with
  | idle =>
    rw [hpc] at hs
    cases hs
  | lock =>
    rw [hpc] at hs
    obtain ⟨hfree, hs⟩ := Option.ite_none_right_eq_some.mp hs
    cases hs
    exact .lock hpc hfree
  | peek =>
    rw [hpc] at hs
    cases hs
    cases first with
    | true => exact .peekQueue hpc
    | false => exact .peekIndex hpc
  | peekQueue q =>
    rw [hpc] at hs
    cases hs
    exact .thenIndex hpc
  | peekIndex i =>
    rw [hpc] at hs
    cases hs
    exact .thenQueue hpc
  | loadSlot q i =>
    rw [hpc] at hs
    obtain ⟨entry, hload, rfl⟩ := Option.map_eq_some_iff.mp hs
    obtain ⟨a, harr, hslot⟩ := load_eq_some hload
    cases entry with
    | none => exact .empty hpc harr hslot
    | some ptr => exact .found hpc harr hslot
  | discard ptr =>
    rw [hpc] at hs
    cases hs
    cases first with
    | true => exact .discardQueue hpc
    | false => exact .discardIndex hpc
  | discardQueue ptr q =>
    rw [hpc] at hs
    cases hs
    exact .accessIndex hpc
  | discardIndex ptr i =>
    rw [hpc] at hs
    cases hs
    exact .accessQueue hpc
  | access ptr q i =>
    rw [hpc] at hs
    cases first with
    | true =>
      obtain ⟨s₁, hstore, rfl⟩ := Option.map_eq_some_iff.mp hs
      obtain ⟨a, harr, rfl⟩ := store_eq_some hstore
      exact .slotFirst hpc harr
    | false =>
      cases hs
      exact .indexFirst hpc
  | storeIndex ptr i =>
    rw [hpc] at hs
    cases hs
    exact .storeIndex hpc
  | storeSlot ptr q i =>
    rw [hpc] at hs
    obtain ⟨s₁, hstore, rfl⟩ := Option.map_eq_some_iff.mp hs
    obtain ⟨a, harr, rfl⟩ := store_eq_some hstore
    exact .storeSlot hpc harr
  | compare ptr =>
    rw [hpc] at hs
    cases hs
    cases first with
    | true => exact .compareIndex hpc
    | false => exact .compareSize hpc
  | compareIndex ptr i =>
    rw [hpc] at hs
    cases hs
    split
    · exact .past (.inl ⟨hpc, rfl⟩) ‹_›
    · exact .inside (.inl ⟨hpc, rfl⟩) (Nat.lt_of_not_ge ‹_›)
  | compareSize ptr n =>
    rw [hpc] at hs
    cases hs
    split
    · exact .past (.inr ⟨hpc, rfl⟩) ‹_›
    · exact .inside (.inr ⟨hpc, rfl⟩) (Nat.lt_of_not_ge ‹_›)
  | wrap ptr =>
    rw [hpc] at hs
    cases hs
    exact .wrap hpc
  | unlock ret =>
    rw [hpc] at hs
    cases hs
    exact .unlock hpc

end Moves

end PtrRing.Race
