import PrototypeKernel.Foundation.CallSequence
import PrototypeKernel.Foundation.KernelInt
import PrototypeKernel.Foundation.SlotRing
import PrototypeKernel.Foundation.TransitionSystem

/-! # The pointer ring

`struct ptr_ring` and its operations, as one caller at a time executes them; the variants that take
a lock do the same. A slot holds `NULL` (`none`) when it is empty. A slot access outside the memory
of the ring has no result. -/

open KernelInt

/-- `struct ptr_ring`. The memory behind `queue` has `slots` slots, at least `size`. -/
structure PtrRing (E : Type*) where
  producer : ℕ
  consumer : ℕ
  size : ℕ
  slots : ℕ
  queue : ℕ → Option E

namespace PtrRing

variable {E : Type*}

/-! ## Allocation -/

/-- `ALIGN()`: `x` rounded up to a multiple of `a`. -/
def align (x a : ℕ) : ℕ := x + (a - x % a) % a

/-- The number of slots in `ALIGN(size * sizeof(void *), SMP_CACHE_BYTES)` bytes. -/
def queueSlots (cacheBytes size : ℕ) : ℕ := align (size * 8) cacheBytes / 8

example : queueSlots 64 2 = 8 ∧ queueSlots 64 8 = 8 := by decide

/-- `__ptr_ring_init_queue_alloc()`: the number of slots, all `NULL`. -/
def ptrRingInitQueueAlloc (cacheBytes size : ℕ) (kzalloc : Bool) : Option (ℕ × (ℕ → Option E)) :=
  if kzalloc then some (queueSlots cacheBytes size, fun _ => none) else none

/-- `ptr_ring_init()`. -/
def ptrRingInit (cacheBytes size : ℕ) (kzalloc : Bool) : Except ℤ (PtrRing E) :=
  match ptrRingInitQueueAlloc cacheBytes size kzalloc with
  | none => .error (-enomem)
  | some (slots, queue) => .ok ⟨0, 0, size, slots, queue⟩

/-! ## One slot -/

/-- `r->queue[i]`. -/
def load (r : PtrRing E) (i : ℕ) : Option (Option E) :=
  if i < r.slots then some (r.queue i) else none

/-- `r->queue[i] = ptr`. -/
def store (r : PtrRing E) (i : ℕ) (ptr : Option E) : Option (PtrRing E) :=
  if i < r.slots then some { r with queue := Function.update r.queue i ptr } else none

/-! ## Producing and consuming -/

/-- `__ptr_ring_full()`. -/
def ptrRingFull (r : PtrRing E) : Option Bool := (r.load r.producer).map Option.isSome

/-- `__ptr_ring_produce()`. -/
def ptrRingProduce (r : PtrRing E) (ptr : Option E) : Option (PtrRing E × ℤ) := do
  let entry ← r.load r.producer
  if entry.isSome then return (r, -enospc)
  -- the pointer is stored first, and then the index moves
  let r ← r.store r.producer ptr
  let r := { r with producer := r.producer + 1 }
  if r.producer ≥ r.size then return ({ r with producer := 0 }, 0)
  return (r, 0)

/-- `__ptr_ring_peek()`. -/
def ptrRingPeek (r : PtrRing E) : Option (Option E) := r.load r.consumer

/-- `__ptr_ring_empty()`. -/
def ptrRingEmpty (r : PtrRing E) : Option Bool := r.ptrRingPeek.map Option.isNone

/-- `__ptr_ring_discard_one()`. -/
def ptrRingDiscardOne (r : PtrRing E) : Option (PtrRing E) := do
  let r ← r.store r.consumer none
  let r := { r with consumer := r.consumer + 1 }
  if r.consumer ≥ r.size then return { r with consumer := 0 }
  return r

/-- `__ptr_ring_consume()`. -/
def ptrRingConsume (r : PtrRing E) : Option (PtrRing E × Option E) := do
  let ptr ← r.ptrRingPeek
  if ptr.isSome then return (← r.ptrRingDiscardOne, ptr)
  return (r, ptr)

/-! ## Resizing and cleaning up -/

/-- The loop of `ptr_ring_resize()`, for at most `fuel` iterations: the old ring, the new slots, the
new `producer`, and the pointers passed to `destroy`. -/
def resizeLoop (size : ℕ) (destroy : Bool) :
    ℕ → PtrRing E → (ℕ → Option E) → ℕ → Option (PtrRing E × (ℕ → Option E) × ℕ × List E)
  | 0, _, _, _ => none
  | fuel + 1, r, queue, producer => do
      let (r, ptr) ← r.ptrRingConsume
      match ptr with
      | none => return (r, queue, producer, [])
      | some ptr =>
          -- the oldest pointers move to the new slots, those left over are destroyed
          if producer < size then
            resizeLoop size destroy fuel r (Function.update queue producer (some ptr))
              (producer + 1)
          else
            let (r, queue, producer, destroyed) ← resizeLoop size destroy fuel r queue producer
            return (r, queue, producer, if destroy then ptr :: destroyed else destroyed)

/-- `ptr_ring_resize()`: the ring, the pointers passed to `destroy`, and the returned value. -/
def ptrRingResize (cacheBytes : ℕ) (r : PtrRing E) (size : ℕ) (kzalloc destroy : Bool) :
    Option (PtrRing E × List E × ℤ) :=
  match ptrRingInitQueueAlloc cacheBytes size kzalloc with
  | none => some (r, [], -enomem)
  | some (slots, queue) => do
      -- a ring of `r.size` slots is empty after at most `r.size` pointers
      let (_, queue, producer, destroyed) ← resizeLoop size destroy (r.size + 1) r queue 0
      return (⟨producer, 0, size, slots, queue⟩, destroyed, 0)

/-- The pointers in the slots, from the consumer on. -/
def contents (r : PtrRing E) : List E :=
  (List.range r.size).filterMap fun k => r.queue ((r.consumer + k) % r.size)

/-! ## Calls -/

/-- A call. The pointers that are passed around are not `NULL`. -/
inductive Call (E : Type*) where
  | produce (ptr : E)
  | consume
  deriving DecidableEq, Repr

/-- What a call returns. -/
inductive Ret (E : Type*) where
  | code (ret : ℤ)
  | ptr (ptr : Option E)
  deriving DecidableEq, Repr

/-- Run one call. -/
def call (r : PtrRing E) : Call E → Option (PtrRing E × Ret E)
  | .produce ptr => (r.ptrRingProduce (some ptr)).map fun (r, ret) => (r, .code ret)
  | .consume => r.ptrRingConsume.map fun (r, ptr) => (r, .ptr ptr)

/-- A bounded FIFO list. -/
def fifo (capacity : ℕ) (xs : List E) : Call E → List E × Ret E
  | .produce ptr =>
      if xs.length < capacity then (xs ++ [ptr], .code 0) else (xs, .code (-enospc))
  | .consume => (xs.tail, .ptr xs.head?)

end PtrRing
