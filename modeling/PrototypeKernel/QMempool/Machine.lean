import PrototypeKernel.QMempool.Pool
import PrototypeKernel.Foundation.TransitionSystem

/-! # The pool in use

`N` CPUs call `qmempool_alloc()` and `qmempool_free()`. Bottom halves are off during a call, so each
CPU runs one call at a time, while calls on different CPUs interleave: one operation on a queue, one
`kmem_cache_alloc()` or one `kmem_cache_free()` is a step. The step function is written over the
operations of a queue, `QueueOps`, and is used at two kinds of queue: pointers to `AlfQueue`s, which
is what the code does, and bounded lists. `step_rel` relates the two. -/

namespace QMempool

variable {N : ℕ} {E Q Q' : Type*}

/-! ## Queues -/

/-- The operations of a queue of pointers; `none` when one does not return. An enqueue gives the
queue and the returned value, a dequeue the queue, the caller's array and the returned value. -/
structure QueueOps (Q E : Type*) where
  mpEnqueue : Q → (ℕ → Option E) → UInt32 → Option (Q × ℤ)
  spEnqueue : Q → (ℕ → Option E) → UInt32 → Option (Q × ℤ)
  mcDequeue : Q → (ℕ → Option E) → UInt32 → Option (Q × (ℕ → Option E) × ℤ)
  scDequeue : Q → (ℕ → Option E) → UInt32 → Option (Q × (ℕ → Option E) × ℤ)

/-! ## Calls in progress -/

/-- The assertions a call can run into, and the overrun of its array of `QMEMPOOL_BULK` pointers. -/
inductive Site where
  /-- `BUG_ON(gfp_mask & __GFP_WAIT)` in `__qmempool_alloc_from_slab()`. -/
  | gfpWait
  /-- `BUG_ON(num == 0)` there, after the slab returned NULL in the middle of a refill. -/
  | slabPartial
  /-- `BUG_ON(num == 0)` there: sharedq should have room. -/
  | sharedqRoom
  /-- `BUG_ON(num == 0)` in `__qmempool_alloc_from_sharedq()`: localq should be empty. -/
  | localqRefill
  /-- `BUG()` in `__qmempool_free_to_sharedq()`: localq should be full. -/
  | localqSpill
  /-- A store past the end of the array. -/
  | overrun
  deriving DecidableEq, Repr

/-- Where a CPU stands in its call, with the live variables. A pointer is an element or NULL, and
`elems` is an array on the stack. -/
inductive Pc (E : Type*) where
  | idle
  /-- `main_qmempool_alloc()`, about to dequeue from localq. -/
  | allocLocal (gfp : UInt32) (elems : ℕ → Option E)
  /-- `__qmempool_alloc_from_sharedq()`, about to dequeue from sharedq. -/
  | allocShared (gfp : UInt32) (elems : ℕ → Option E)
  /-- About to refill localq with all but the first of the `num` elements. -/
  | refillLocal (elems : ℕ → Option E) (num : ℤ)
  /-- `__qmempool_alloc_from_slab()`, about to allocate the element to return. -/
  | slabFirst (gfp : UInt32) (elems : ℕ → Option E)
  /-- About to allocate `elems[j]` in round `i`. -/
  | slabElem (elem : Option E) (elems : ℕ → Option E) (i j : ℕ)
  /-- The slab returned NULL for `elems[j]`, about to enqueue `j - 1` elements to sharedq. -/
  | slabPartial (elem : Option E) (elems : ℕ → Option E) (j : ℕ)
  /-- About to enqueue the elements of round `i` to sharedq. -/
  | slabEnq (elem : Option E) (elems : ℕ → Option E) (i : ℕ)
  /-- About to return `elem` to the caller. -/
  | allocRet (elem : Option E)
  /-- `main_qmempool_free()`, about to enqueue to localq. -/
  | freeLocal (elem : Option E) (elems : ℕ → Option E)
  /-- `__qmempool_free_to_sharedq()`, about to make room in localq. -/
  | freeSpill (elem : Option E) (elems : ℕ → Option E)
  /-- About to enqueue the `num` elements to sharedq. -/
  | freeShared (elems : ℕ → Option E) (num : ℤ)
  /-- `__qmempool_free_to_slab()`, about to free `elems[i]` of `n`. -/
  | freeSlab (elems : ℕ → Option E) (n : ℤ) (i : ℕ)
  /-- About to dequeue from sharedq in round `i`, to make room there. -/
  | drain (elems : ℕ → Option E) (i : ℕ)
  /-- About to free `elems[j]` of the `num` elements of round `i`. -/
  | drainFree (elems : ℕ → Option E) (i : ℕ) (num : ℤ) (j : ℕ)
  /-- Stopped at an assertion, with the elements its call has in hand (ghost). -/
  | bug (site : Site) (lost : List (Option E))

/-- The CPU runs no call. -/
def Pc.ready : Pc E → Bool
  | .idle => true
  | _ => false

/-- The assertion the CPU has stopped at. -/
def Pc.bug? : Pc E → Option Site
  | .bug site _ => some site
  | _ => none

/-- The first `n` entries of an array. -/
def entries (elems : ℕ → Option E) (n : ℕ) : List (Option E) := (List.range n).map elems

/-- The array whose first entry is `elem` and whose other entries are those of `rest`. -/
def consArray (elem : Option E) (rest : ℕ → Option E) : ℕ → Option E
  | 0 => elem
  | j + 1 => rest j

/-- A pool in use: its queues, the calls in progress, and (ghost) the elements its callers hold and
those the slab has handed out and not got back. -/
structure State (N : ℕ) (E Q : Type*) where
  sharedq : Q
  localq : Fin N → Q
  pc : Fin N → Pc E
  held : List E
  out : List E

/-- What a CPU may do next. A call starts with some content of the stack array; a step of a running
call carries the answer of the slab, in case it asks for an element. -/
inductive Action (N : ℕ) (E : Type*) where
  | alloc (cpu : Fin N) (gfp : UInt32) (stack : ℕ → Option E)
  | free (cpu : Fin N) (elem : Option E) (stack : ℕ → Option E)
  | run (cpu : Fin N) (slab : Option E)

/-! ## Steps -/

/-- Move CPU `c` to `pc`. -/
def State.goto (s : State N E Q) (c : Fin N) (pc : Pc E) : State N E Q :=
  { s with pc := Function.update s.pc c pc }

section Goto

variable (s : State N E Q) (c : Fin N) (pc : Pc E)

/-- A call goes on where it is sent. -/
@[simp] theorem State.goto_pc_self : (s.goto c pc).pc c = pc := Function.update_self ..

/-- The other CPUs stay where they are. -/
@[simp] theorem State.goto_pc_of_ne {c' : Fin N} (h : c' ≠ c) : (s.goto c pc).pc c' = s.pc c' :=
  Function.update_of_ne h ..

/-- A call that goes on leaves the shared queue. -/
@[simp] theorem State.goto_sharedq : (s.goto c pc).sharedq = s.sharedq := rfl

/-- A call that goes on leaves the local queues. -/
@[simp] theorem State.goto_localq : (s.goto c pc).localq = s.localq := rfl

/-- A call that goes on leaves what the users hold. -/
@[simp] theorem State.goto_held : (s.goto c pc).held = s.held := rfl

/-- A call that goes on leaves what the slab has handed out. -/
@[simp] theorem State.goto_out : (s.goto c pc).out = s.out := rfl

end Goto

/-- An enqueue to sharedq by CPU `c`. -/
def State.enqShared (ops : QueueOps Q E) (s : State N E Q) (c : Fin N) (elems : ℕ → Option E)
    (n : UInt32) (next : ℤ → Pc E) : Option (State N E Q) :=
  (ops.mpEnqueue s.sharedq elems n).map fun r => ({ s with sharedq := r.1 }).goto c (next r.2)

/-- A dequeue from sharedq by CPU `c`. -/
def State.deqShared (ops : QueueOps Q E) (s : State N E Q) (c : Fin N) (elems : ℕ → Option E)
    (n : UInt32) (next : (ℕ → Option E) → ℤ → Pc E) : Option (State N E Q) :=
  (ops.mcDequeue s.sharedq elems n).map fun r =>
    ({ s with sharedq := r.1 }).goto c (next r.2.1 r.2.2)

/-- An enqueue to the localq of CPU `c`. -/
def State.enqLocal (ops : QueueOps Q E) (s : State N E Q) (c : Fin N) (elems : ℕ → Option E)
    (n : UInt32) (next : ℤ → Pc E) : Option (State N E Q) :=
  (ops.spEnqueue (s.localq c) elems n).map fun r =>
    ({ s with localq := Function.update s.localq c r.1 }).goto c (next r.2)

/-- A dequeue from the localq of CPU `c`. -/
def State.deqLocal (ops : QueueOps Q E) (s : State N E Q) (c : Fin N) (elems : ℕ → Option E)
    (n : UInt32) (next : (ℕ → Option E) → ℤ → Pc E) : Option (State N E Q) :=
  (ops.scDequeue (s.localq c) elems n).map fun r =>
    ({ s with localq := Function.update s.localq c r.1 }).goto c (next r.2.1 r.2.2)

/-- The caller of an allocation holds the element it gets. -/
def State.hold (s : State N E Q) (elem : Option E) : State N E Q :=
  { s with held := elem.toList ++ s.held }

/-- The slab hands out an element. -/
def State.handOut (s : State N E Q) (e : E) : State N E Q := { s with out := e :: s.out }

section Step

variable [DecidableEq E]

/-- The caller of a free gives up its element. -/
def State.unhold (s : State N E Q) (elem : Option E) : State N E Q :=
  { s with held := elem.elim s.held s.held.erase }

/-- `kmem_cache_alloc()` with the answer `slab`. An element that is handed out is not handed out
again. -/
def State.slabAlloc (s : State N E Q) (c : Fin N) (slab : Option E) (next : Option E → Pc E) :
    Option (State N E Q) :=
  match slab with
  | none => some (s.goto c (next none))
  | some e => if e ∈ s.out then none else some ((s.handOut e).goto c (next (some e)))

/-- `kmem_cache_free()`. -/
def State.slabFree (s : State N E Q) (elem : Option E) : State N E Q :=
  match elem with
  | none => s
  | some e => { s with out := s.out.erase e }

/-- The next step of CPU `c`. `wait` is the bit `__GFP_WAIT` (or `__GFP_DIRECT_RECLAIM`). -/
def State.advance (ops : QueueOps Q E) (wait : UInt32) (s : State N E Q) (c : Fin N)
    (slab : Option E) : Option (State N E Q) :=
  match s.pc c with
  | .idle | .bug .. => none
  -- the fast path
  | .allocLocal gfp stack =>
      s.deqLocal ops c (fun _ => none) 1 fun elem num =>
        if num = 1 then .allocRet (elem 0) else .allocShared gfp stack
  | .allocShared gfp stack =>
      s.deqShared ops c stack (UInt32.ofNat bulk) fun elems num =>
        -- the array has `QMEMPOOL_BULK` entries
        if num > bulk then .bug .overrun []
        -- the first element is for the caller, the others refill localq
        else if num > 0 then if num > 1 then .refillLocal elems num else .allocRet (elems 0)
        else .slabFirst gfp stack
  | .refillLocal elems num =>
      s.enqLocal ops c (fun j => elems (j + 1)) (UInt32.ofInt (num - 1)) fun num' =>
        -- the enqueue takes all elements or none
        if num' = 0 then .bug .localqRefill (entries elems num.toNat) else .allocRet (elems 0)
  | .slabFirst gfp stack =>
      -- the caller may not sleep
      if gfp &&& wait ≠ 0 then some (s.goto c (.bug .gfpWait []))
      else s.slabAlloc c slab fun elem =>
        if elem = none then .allocRet none else .slabElem elem stack 0 0
  | .slabElem elem elems i j =>
      s.slabAlloc c slab fun new =>
        let elems := Function.update elems j new
        if new = none then .slabPartial elem elems j
        else if j + 1 < bulk then .slabElem elem elems i (j + 1) else .slabEnq elem elems i
  | .slabPartial elem elems j =>
      -- `j - 1` is an `int` passed as a `u32`
      s.enqShared ops c elems (UInt32.ofInt (j - 1)) fun num =>
        if num = 0 then .bug .slabPartial (elem :: entries elems j) else .allocRet elem
  | .slabEnq elem elems i =>
      s.enqShared ops c elems (UInt32.ofNat bulk) fun num =>
        if num = 0 then .bug .sharedqRoom (elem :: entries elems bulk)
        else if i + 1 < refillMultiplier then .slabElem elem elems (i + 1) 0 else .allocRet elem
  | .allocRet elem => some ((s.hold elem).goto c .idle)
  | .freeLocal elem stack =>
      s.enqLocal ops c (fun _ => elem) 1 fun num =>
        if num = 1 then .idle else .freeSpill elem stack
  | .freeSpill elem stack =>
      s.deqLocal ops c (fun j => stack (j + 1)) (UInt32.ofNat (bulk - 1)) fun rest num =>
        if num + 1 > bulk then .bug .overrun []
        else if num = 0 then .bug .localqSpill [elem]
        else .freeShared (consArray elem rest) (num + 1)
  | .freeShared elems num =>
      s.enqShared ops c elems (UInt32.ofInt num) fun num' =>
        -- sharedq is full when it does not take the elements
        if num' = num then .idle else .freeSlab elems num 0
  | .freeSlab elems n i =>
      if i < n then some ((s.slabFree (elems i)).goto c (.freeSlab elems n (i + 1)))
      else some (s.goto c (.drain elems 0))
  | .drain elems i =>
      -- room for later frees is made in sharedq
      if i < refillMultiplier then
        s.deqShared ops c elems (UInt32.ofNat bulk) fun elems num =>
          if num > bulk then .bug .overrun [] else .drainFree elems i num 0
      else some (s.goto c .idle)
  | .drainFree elems i num j =>
      if j < num then some ((s.slabFree (elems j)).goto c (.drainFree elems i num (j + 1)))
      else some (s.goto c (.drain elems (i + 1)))

/-- The step function of the pool. A freed element leaves its holder. -/
def step (ops : QueueOps Q E) (wait : UInt32) (s : State N E Q) :
    Action N E → Option (State N E Q)
  | .alloc c gfp stack => if (s.pc c).ready then some (s.goto c (.allocLocal gfp stack)) else none
  | .free c elem stack =>
      if (s.pc c).ready then
        some ((s.unhold elem).goto c (.freeLocal elem stack))
      else none
  | .run c slab => s.advance ops wait c slab

end Step

/-! ## The pool of the code -/

/-- The operations on the queue behind a pointer. -/
def ptrOps : QueueOps (QueuePtr E) E where
  mpEnqueue p ptr n := do
    let q ← p.deref
    let (q, num) ← q.alfMpEnqueue ptr n
    return (.queue q, num)
  spEnqueue p ptr n := do
    let q ← p.deref
    let (q, num) := q.alfSpEnqueue ptr n
    return (.queue q, num)
  mcDequeue p ptr n := do
    let q ← p.deref
    let (q, ptr, num) ← q.alfMcDequeue ptr n
    return (.queue q, ptr, num)
  scDequeue p ptr n := do
    let q ← p.deref
    let (q, ptr, num) := q.alfScDequeue ptr n
    return (.queue q, ptr, num)

/-- A pool as its creation returns it, with the elements `out` taken from the slab. -/
def Qmempool.start (pool : Qmempool N E) (out : List E) : State N E (QueuePtr E) where
  sharedq := pool.sharedq
  localq := pool.percpu.getD fun _ => .null
  pc := fun _ => .idle
  held := []
  out := out

/-- The pool with its queues as they are in state `s`. -/
def Qmempool.withQueues (pool : Qmempool N E) (s : State N E (QueuePtr E)) : Qmempool N E :=
  { pool with sharedq := s.sharedq, percpu := some s.localq }

open TransitionSystem in
/-- Create a pool and replay `actions` on it, refusing one that breaks the guard. -/
def createAndRun [DecidableEq E] (env : CreateEnv N E) (localqSz sharedqSz prealloc : UInt32)
    (wait : UInt32) (ok : State N E (QueuePtr E) → Action N E → Prop) [∀ s a, Decidable (ok s a)]
    (actions : List (Action N E)) : Option (State N E (QueuePtr E)) := do
  let (pool, events) ← qmempoolCreate env localqSz sharedqSz prealloc 0
  let pool ← pool
  runOk (step ptrOps wait) ok (pool.start (allocated events)) actions

open TransitionSystem in
/-- A state after a list of actions is one of a run of a created pool. -/
theorem reachable_of_createAndRun [DecidableEq E] {env : CreateEnv N E}
    {localqSz sharedqSz prealloc wait : UInt32} {ok : State N E (QueuePtr E) → Action N E → Prop}
    [∀ s a, Decidable (ok s a)] {actions : List (Action N E)} {s : State N E (QueuePtr E)}
    (h : createAndRun env localqSz sharedqSz prealloc wait ok actions = some s) :
    ∃ pool events, qmempoolCreate env localqSz sharedqSz prealloc 0 = some (some pool, events) ∧
      Reachable (step ptrOps wait) ok (pool.start (allocated events)) s := by
  obtain ⟨⟨pool, events⟩, hcreate, h⟩ := Option.bind_eq_some_iff.mp h
  obtain ⟨pool, rfl, hrun⟩ := Option.bind_eq_some_iff.mp h
  exact ⟨pool, events, hcreate, reachable_of_runOk hrun⟩

end QMempool
