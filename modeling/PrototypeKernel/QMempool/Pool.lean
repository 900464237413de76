import PrototypeKernel.AlfQueue.Fifo
import Mathlib.Data.List.FinRange

/-! # Creation and destruction of a queue based memory pool

`struct qmempool` with one shared queue and one local queue for each of `N` possible CPUs, in front
of a slab cache. What the environment answers to each allocation is a `CreateEnv`. Both functions
return the list of their allocations and releases, and `none` when they would dereference an invalid
pointer, spin for ever or hit a `BUG_ON`. -/

namespace QMempool

open KernelInt

variable {N : ℕ} {E : Type*}

/-- `QMEMPOOL_BULK`. -/
def bulk : ℕ := 16

/-- `QMEMPOOL_REFILL_MULTIPLIER`. -/
def refillMultiplier : ℕ := 2

/-- A pointer to a queue of element pointers: `NULL`, an error pointer, or a queue. A pointer to an
element is `none` when it is `NULL`. -/
inductive QueuePtr (E : Type*) where
  | null
  | err (code : ℤ)
  | queue (q : AlfQueue (Option E))

/-- The pointer `alf_queue_alloc()` returns. -/
def QueuePtr.ofAlloc : Except ℤ (AlfQueue (Option E)) → QueuePtr E
  | .error code => .err code
  | .ok q => .queue q

/-- `IS_ERR_OR_NULL()`. -/
def QueuePtr.isErrOrNull : QueuePtr E → Bool
  | .null | .err _ => true
  | .queue _ => false

/-- The queue behind a valid pointer. -/
def QueuePtr.deref : QueuePtr E → Option (AlfQueue (Option E))
  | .null | .err _ => none
  | .queue q => some q

/-- `struct qmempool`. The slab cache is the one the pool was created with. -/
structure Qmempool (N : ℕ) (E : Type*) where
  sharedq : QueuePtr E
  percpu : Option (Fin N → QueuePtr E)
  prealloc : UInt32
  gfpMask : UInt32

/-- An allocation or a release. The shared queue has no owner, a local queue belongs to a CPU. -/
inductive Event (N : ℕ) (E : Type*) where
  | poolAlloc
  | poolFree
  | queueAlloc (owner : Option (Fin N))
  | queueFree (owner : Option (Fin N))
  | percpuAlloc
  | percpuFree
  | elemAlloc (elem : E)
  | elemFree (elem : Option E)

/-! ## Destruction -/

/-- `while (alf_mc_dequeue(q, &elem, 1) == 1) kmem_cache_free(pool->kmem, elem);` for at most `fuel`
iterations: the queue and the freed elements. -/
def drainQueue : ℕ → AlfQueue (Option E) → Option E →
    Option (AlfQueue (Option E) × List (Option E))
  | 0, _, _ => none
  | fuel + 1, q, elem => do
      let (q, ptr, num) ← q.alfMcDequeue (fun _ => elem) 1
      if num = 1 then
        let (q, elems) ← drainQueue fuel q (ptr 0)
        return (q, ptr 0 :: elems)
      else return (q, [])

/-- Free the elements of a queue, check that it is empty and free it. -/
def destroyQueue (owner : Option (Fin N)) (p : QueuePtr E) : Option (List (Event N E)) := do
  let q ← p.deref
  -- a queue of `size` slots is drained after at most `size` elements
  let (q, elems) ← drainQueue (q.size.toNat + 1) q none
  if q.alfQueueEmpty then return elems.map .elemFree ++ [.queueFree owner] else none

/-- Destroy the local queues of the CPUs in `cpus`. -/
def destroyLocalqs (localq : Fin N → QueuePtr E) : List (Fin N) → Option (List (Event N E))
  | [] => some []
  | c :: cpus => do
      let events ← destroyQueue (some c) (localq c)
      return events ++ (← destroyLocalqs localq cpus)

/-- `qmempool_destroy()`. -/
def qmempoolDestroy (pool : Qmempool N E) : Option (List (Event N E)) := do
  let percpuEvents ← match pool.percpu with
    | none => some []
    | some localq => (destroyLocalqs localq (List.finRange N)).map (· ++ [.percpuFree])
  -- `sharedq` may be an error pointer, which is not `NULL`
  let sharedEvents ← match pool.sharedq with
    | .null => some []
    | p => destroyQueue none p
  return percpuEvents ++ sharedEvents ++ [.poolFree]

/-! ## Creation -/

/-- What the environment answers to a creation: whether there is a slab cache, whether each piece of
memory is available, and the element (or `NULL`) for each `kmem_cache_alloc()`. -/
structure CreateEnv (N : ℕ) (E : Type*) where
  kmem : Bool
  pool : Bool
  sharedq : Bool
  elem : ℕ → Option E
  percpu : Bool
  localq : Fin N → Bool

/-- A creation that gives up: destroy the pool built so far and return `NULL`. -/
def giveUp (events : List (Event N E)) (pool : Qmempool N E) :
    Option (Option (Qmempool N E) × List (Event N E)) :=
  (qmempoolDestroy pool).map fun freed => (none, events ++ freed)

/-- The preallocation of elements `i, …` with `k` left to do: the shared queue, and whether the slab
gave them all. -/
def preallocLoop (env : CreateEnv N E) : ℕ → ℕ → AlfQueue (Option E) →
    Option (AlfQueue (Option E) × List (Event N E) × Bool)
  | 0, _, q => some (q, [], true)
  | k + 1, i, q =>
      match env.elem i with
      | none => some (q, [], false)
      | some e => do
          let (q, num) ← q.alfMpEnqueue (fun _ => some e) 1
          -- `BUG_ON(num <= 0)`
          if num ≤ 0 then none
          else
            let (q, events, done) ← preallocLoop env k (i + 1) q
            return (q, .elemAlloc e :: events, done)

/-- The allocation of the local queues of the CPUs in `cpus`, stopping at the first that fails. -/
def allocLocalqs (env : CreateEnv N E) (localqSz : UInt32) (localq : Fin N → QueuePtr E) :
    List (Fin N) → (Fin N → QueuePtr E) × List (Event N E) × Bool
  | [] => (localq, [], true)
  | c :: cpus =>
      let p := QueuePtr.ofAlloc (AlfQueue.alfQueueAlloc none localqSz (env.localq c))
      let localq := Function.update localq c p
      if p.isErrOrNull then (localq, [], false)
      else
        let (localq, events, done) := allocLocalqs env localqSz localq cpus
        (localq, .queueAlloc (some c) :: events, done)

/-- The constraints on the arguments of a creation. -/
def validSizes (localqSz sharedqSz prealloc : UInt32) : Bool :=
  !(localqSz < UInt32.ofNat bulk) && !(sharedqSz < UInt32.ofNat (bulk * refillMultiplier)) &&
    isPowerOf2 localqSz && isPowerOf2 sharedqSz && !(prealloc > sharedqSz)

/-- `qmempool_create()`: the pool, or `none` for `NULL`, and what it allocated and released. -/
def qmempoolCreate (env : CreateEnv N E) (localqSz sharedqSz prealloc gfpMask : UInt32) :
    Option (Option (Qmempool N E) × List (Event N E)) :=
  if !validSizes localqSz sharedqSz prealloc || !env.kmem || !env.pool then some (none, [])
  else do
    let sharedq := QueuePtr.ofAlloc (AlfQueue.alfQueueAlloc none sharedqSz env.sharedq)
    let pool : Qmempool N E := ⟨sharedq, none, 0, gfpMask⟩
    match sharedq with
    | .queue q =>
        let pool := { pool with prealloc := prealloc }
        let (q, elemEvents, done) ← preallocLoop env prealloc.toNat 0 q
        let pool := { pool with sharedq := .queue q }
        let events := .poolAlloc :: .queueAlloc none :: elemEvents
        if !done then giveUp events pool
        else if !env.percpu then giveUp events pool
        else
          let (localq, queueEvents, done) :=
            allocLocalqs env localqSz (fun _ => .null) (List.finRange N)
          let pool := { pool with percpu := some localq }
          let events := events ++ .percpuAlloc :: queueEvents
          if !done then giveUp events pool else some (some pool, events)
    | _ => giveUp [.poolAlloc] pool

/-- An environment that refuses nothing, with the numbers as elements. -/
def CreateEnv.plenty (N : ℕ) : CreateEnv N ℕ :=
  ⟨true, true, true, some, true, fun _ => true⟩

example : (qmempoolCreate (.plenty 2) 16 32 4 0).isSome := by decide

/-! ## What destruction gives back -/

open AlfQueue in
/-- Draining a queue frees its elements in order. -/
theorem drainQueue_eq {size fuel : ℕ} {q : AlfQueue (Option E)} {xs : List (Option E)}
    (h : Represents size q xs) (hfuel : xs.length < fuel) (elem : Option E) :
    ∃ q', drainQueue fuel q elem = some (q', xs) ∧ Represents size q' [] := by
  induction xs generalizing fuel q elem with
  | nil =>
    obtain ⟨hret, hrep⟩ := h.alfScDequeue (fun _ => elem) 1
    obtain ⟨fuel, rfl⟩ : ∃ k, fuel = k + 1 := ⟨fuel - 1, by simp at hfuel; omega⟩
    refine ⟨(q.alfScDequeue (fun _ => elem) 1).1, ?_, hrep⟩
    -- the dequeue of an empty queue returns 0 and ends the loop
    have hnum : (q.alfScDequeue (fun _ => elem) 1).2.2 = 0 := by rw [hret]; rfl
    simp [drainQueue, h.alfMcDequeue, hnum]
  | cons x xs ih =>
    obtain ⟨hret, hrep⟩ := h.alfScDequeue (fun _ => elem) 1
    obtain ⟨fuel, rfl⟩ : ∃ k, fuel = k + 1 := ⟨fuel - 1, by simp at hfuel; omega⟩
    have hone : min (x :: xs).length (1 : UInt32).toNat = 1 := by simp
    have hnum : (q.alfScDequeue (fun _ => elem) 1).2.2 = 1 := by
      rw [hret, fifoDequeue, hone]; rfl
    have hptr : (q.alfScDequeue (fun _ => elem) 1).2.1 0 = x := by
      rw [hret, fifoDequeue, hone]; rfl
    rw [fifoDequeue, hone] at hrep
    obtain ⟨q', hdrain, hrep'⟩ := ih hrep (show xs.length < fuel by simpa using hfuel) x
    refine ⟨q', ?_, hrep'⟩
    simp [drainQueue, h.alfMcDequeue, hnum, hptr, hdrain]

open AlfQueue in
/-- Destroying a queue frees its elements and then the queue. -/
theorem destroyQueue_eq {size : ℕ} {q : AlfQueue (Option E)} {xs : List (Option E)}
    (h : Represents size q xs) (owner : Option (Fin N)) :
    destroyQueue owner (.queue q) = some (xs.map .elemFree ++ [.queueFree owner]) := by
  have hlen := h.length_le
  have hsize := h.size_eq
  obtain ⟨q', hdrain, hrep⟩ := drainQueue_eq h (show xs.length < q.size.toNat + 1 by omega) none
  have hempty : q'.alfQueueEmpty = true := hrep.alfQueueEmpty.mpr rfl
  simp [destroyQueue, QueuePtr.deref, hdrain, hempty]

open AlfQueue in
/-- **Destroying a complete pool frees the elements of its queues**, each queue, the per-CPU area
and the pool. -/
theorem qmempoolDestroy_eq {localqSz sharedqSz : ℕ} {pool : Qmempool N E}
    {localq : Fin N → QueuePtr E} {sharedq : AlfQueue (Option E)} {xs : List (Option E)}
    {ys : Fin N → List (Option E)} (hpercpu : pool.percpu = some localq)
    (hlocal : ∀ c, ∃ q, localq c = .queue q ∧ Represents localqSz q (ys c))
    (hshared : pool.sharedq = .queue sharedq) (hrep : Represents sharedqSz sharedq xs) :
    qmempoolDestroy pool = some
      ((List.finRange N).flatMap (fun c => (ys c).map .elemFree ++ [.queueFree (some c)]) ++
        [.percpuFree] ++ (xs.map .elemFree ++ [.queueFree none]) ++ [.poolFree]) := by
  have hlocals : ∀ cpus : List (Fin N), destroyLocalqs localq cpus
      = some (cpus.flatMap fun c => (ys c).map .elemFree ++ [.queueFree (some c)]) := by
    intro cpus
    induction cpus with
    | nil => rfl
    | cons c cpus ih =>
      obtain ⟨q, hq, hrep⟩ := hlocal c
      simp [destroyLocalqs, hq, destroyQueue_eq hrep, ih]
  simp [qmempoolDestroy, hpercpu, hshared, hlocals, destroyQueue_eq hrep]

/-! ## What a successful creation builds -/

/-- The elements that a list of events takes from the slab. -/
def allocated (events : List (Event N E)) : List E :=
  events.filterMap fun
    | .elemAlloc e => some e
    | _ => none

/-- The arguments a creation accepts. -/
structure Sizes (localqSz sharedqSz prealloc : ℕ) : Prop where
  bulk_le : bulk ≤ localqSz
  refill_le : bulk * refillMultiplier ≤ sharedqSz
  shared_pow : ∃ k, sharedqSz = 2 ^ k
  prealloc_le : prealloc ≤ sharedqSz

/-- The sizes that `qmempool_create()` accepts. -/
theorem sizes_of_validSizes {localqSz sharedqSz prealloc : UInt32}
    (h : validSizes localqSz sharedqSz prealloc) :
    Sizes localqSz.toNat sharedqSz.toNat prealloc.toNat := by
  simp only [validSizes, Bool.and_eq_true, Bool.not_eq_true', decide_eq_false_iff_not,
    UInt32.not_lt, gt_iff_lt] at h
  obtain ⟨⟨⟨⟨hlocal, hshared⟩, -⟩, hpow⟩, hprealloc⟩ := h
  obtain ⟨k, -, hk⟩ := exists_pow_of_isPowerOf2 hpow
  exact ⟨UInt32.le_iff_toNat_le.mp hlocal, UInt32.le_iff_toNat_le.mp hshared, ⟨k, hk⟩,
    UInt32.le_iff_toNat_le.mp hprealloc⟩

/-- A pool as a creation returns it: the elements `es` in the shared queue, the local queues empty.
-/
structure Qmempool.Created (localqSz sharedqSz : ℕ) (pool : Qmempool N E) (es : List E) : Prop where
  shared : ∃ q, pool.sharedq = .queue q ∧ AlfQueue.Represents sharedqSz q (es.map some)
  percpu : ∃ localq, pool.percpu = some localq ∧
    ∀ c, ∃ q, localq c = .queue q ∧ AlfQueue.Represents localqSz q []

/-- **A preallocation appends its elements to the shared queue**, and is complete unless the slab
refuses one. -/
theorem exists_preallocLoop (env : CreateEnv N E) {size : ℕ} (k i : ℕ) {q : AlfQueue (Option E)}
    {xs : List (Option E)} (h : AlfQueue.Represents size q xs) (hroom : xs.length + k ≤ size) :
    ∃ (q' : AlfQueue (Option E)) (es : List E) (done : Bool),
      preallocLoop env k i q = some (q', es.map .elemAlloc, done) ∧
      AlfQueue.Represents size q' (xs ++ es.map some) ∧
      (done = true → es.length = k) ∧ (done = true ↔ ∀ j, j < k → env.elem (i + j) ≠ none) := by
  induction k generalizing i q xs with
  | zero => exact ⟨q, [], true, rfl, by simpa using h, fun _ => rfl, by simp⟩
  | succ k ih =>
    rw [preallocLoop]
    cases helem : env.elem i with
    | none =>
      exact ⟨q, [], false, rfl, by simpa using h, nofun, nofun,
        fun hall => absurd helem (hall 0 (Nat.succ_pos k))⟩
    | some e =>
      -- there is room for every element, as `prealloc` is at most the size
      have hfit : xs.length + (1 : UInt32).toNat ≤ size := show xs.length + 1 ≤ size by omega
      obtain ⟨hret, hrep⟩ := h.alfSpEnqueue (fun _ => some e) 1
      rw [AlfQueue.fifoEnqueue, if_pos hfit] at hret hrep
      have hnum : ¬ (q.alfSpEnqueue (fun _ => some e) 1).2 ≤ 0 := by
        rw [hret]
        exact (by decide : ¬ ((1 : UInt32).toNat : ℤ) ≤ 0)
      obtain ⟨q', es, done, hloop, hrep', hlen, hdone⟩ := ih (i + 1) hrep (by simp; omega)
      refine ⟨q', e :: es, done, ?_, by simpa using hrep', fun hall => ?_, hdone.trans ?_⟩
      · simp [h.alfMpEnqueue, hnum, hloop]
      · rw [List.length_cons, hlen hall]
      · constructor
        · intro hall j hj
          cases j with
          | zero => simp [helem]
          | succ j => exact Nat.add_right_comm i 1 j ▸ hall j (by omega)
        · exact fun hall j hj => Nat.add_right_comm i 1 j ▸ hall (j + 1) (by omega)

/-- Allocated elements are allocated. -/
theorem allocated_elemAlloc (es : List E) : allocated (N := N) (es.map .elemAlloc) = es := by
  simp [allocated, List.filterMap_map]

/-- A complete preallocation appends its elements to the shared queue. -/
theorem preallocLoop_eq {env : CreateEnv N E} {size k i : ℕ} {q q' : AlfQueue (Option E)}
    {xs : List (Option E)} {events : List (Event N E)} (h : AlfQueue.Represents size q xs)
    (hroom : xs.length + k ≤ size)
    (hloop : preallocLoop env k i q = some (q', events, true)) :
    AlfQueue.Represents size q' (xs ++ (allocated events).map some) ∧
      (allocated events).length = k := by
  obtain ⟨q₁, es, done, hloop', hrep, hlen, -⟩ := exists_preallocLoop env k i h hroom
  rw [hloop] at hloop'
  cases hloop'
  rw [allocated_elemAlloc]
  exact ⟨hrep, hlen rfl⟩

/-- A complete allocation of local queues leaves each of them empty. -/
theorem allocLocalqs_eq {env : CreateEnv N E} {localqSz : UInt32} {cpus : List (Fin N)}
    {localq localq' : Fin N → QueuePtr E} {events : List (Event N E)} (hnodup : cpus.Nodup)
    (h : allocLocalqs env localqSz localq cpus = (localq', events, true)) :
    (∀ c ∈ cpus, ∃ q, localq' c = .queue q ∧ AlfQueue.Represents localqSz.toNat q []) ∧
      (∀ c ∉ cpus, localq' c = localq c) ∧ allocated events = [] := by
  induction cpus generalizing localq events with
  | nil =>
    cases h
    exact ⟨fun _ h => absurd h List.not_mem_nil, fun _ _ => rfl, rfl⟩
  | cons c cpus ih =>
    obtain ⟨hc, hnodup⟩ := List.nodup_cons.mp hnodup
    rw [allocLocalqs] at h
    cases halloc : AlfQueue.alfQueueAlloc (none : Option E) localqSz (env.localq c) with
    | error code => simp [halloc, QueuePtr.ofAlloc, QueuePtr.isErrOrNull] at h
    | ok q =>
      obtain ⟨⟨localq₁, events₁, done⟩, hrest⟩ : ∃ r, allocLocalqs env localqSz
          (Function.update localq c (.queue q)) cpus = r := ⟨_, rfl⟩
      simp only [halloc, QueuePtr.ofAlloc, QueuePtr.isErrOrNull, hrest, Bool.false_eq_true,
        if_false, Prod.mk.injEq] at h
      obtain ⟨rfl, rfl, rfl⟩ := h
      obtain ⟨hin, hout, hevents⟩ := ih hnodup hrest
      refine ⟨?_, ?_, by simpa [allocated] using hevents⟩
      · intro c' hc'
        -- later iterations leave the queue of `c` alone
        rcases List.mem_cons.mp hc' with rfl | hc'
        · exact ⟨q, by rw [hout c' hc, Function.update_self], AlfQueue.represents_of_alloc halloc⟩
        · exact hin c' hc'
      · intro c' hc'
        rw [List.mem_cons, not_or] at hc'
        rw [hout c' hc'.2, Function.update_of_ne hc'.1]

/-- **A creation that succeeds** builds a complete pool, with the elements it took from the slab in
the shared queue. -/
theorem created_of_create {env : CreateEnv N E} {localqSz sharedqSz prealloc gfpMask : UInt32}
    {pool : Qmempool N E} {events : List (Event N E)}
    (h : qmempoolCreate env localqSz sharedqSz prealloc gfpMask = some (some pool, events)) :
    Sizes localqSz.toNat sharedqSz.toNat prealloc.toNat ∧
      pool.Created localqSz.toNat sharedqSz.toNat (allocated events) ∧
      (allocated events).length = prealloc.toNat := by
  rw [qmempoolCreate] at h
  split at h
  · cases h
  rename_i hvalid
  simp only [Bool.or_eq_true, Bool.not_eq_true', not_or, Bool.not_eq_false] at hvalid
  have hsizes := sizes_of_validSizes hvalid.1.1
  -- a creation that gives up returns no pool
  have hgiveUp : ∀ (events' : List (Event N E)) (pool' : Qmempool N E),
      giveUp events' pool' ≠ some (some pool, events) := by
    intro events' pool' h
    obtain ⟨freed, -, heq⟩ := Option.map_eq_some_iff.mp h
    cases heq
  cases halloc : AlfQueue.alfQueueAlloc (none : Option E) sharedqSz env.sharedq with
  | error code =>
    simp only [halloc, QueuePtr.ofAlloc] at h
    exact absurd h (hgiveUp _ _)
  | ok q =>
    simp only [halloc, QueuePtr.ofAlloc, Option.bind_eq_bind] at h
    obtain ⟨⟨q', elemEvents, done⟩, hloop, h⟩ := Option.bind_eq_some_iff.mp h
    simp only at h
    cases done with
    | false => exact absurd h (hgiveUp _ _)
    | true =>
      obtain ⟨⟨localq, queueEvents, done⟩, hlocal⟩ : ∃ r, allocLocalqs env localqSz
          (fun _ => .null) (List.finRange N) = r := ⟨_, rfl⟩
      cases hpercpu : env.percpu with
      | false =>
        simp only [hpercpu] at h
        exact absurd h (hgiveUp _ _)
      | true =>
        cases done with
        | false =>
          simp only [hpercpu, hlocal] at h
          exact absurd h (hgiveUp _ _)
        | true =>
          simp only [hpercpu, hlocal, Bool.not_true, Bool.false_eq_true, if_false,
            Option.some.injEq, Prod.mk.injEq] at h
          obtain ⟨rfl, rfl⟩ := h
          obtain ⟨hrep, hlen⟩ := preallocLoop_eq (AlfQueue.represents_of_alloc halloc)
            (by simpa using hsizes.prealloc_le) hloop
          obtain ⟨hin, -, hqueues⟩ := allocLocalqs_eq (List.nodup_finRange N) hlocal
          have hevents : allocated (.poolAlloc :: .queueAlloc none :: elemEvents ++
              .percpuAlloc :: queueEvents) = allocated elemEvents := by
            simp only [allocated, List.filterMap_append, List.filterMap_cons] at hqueues ⊢
            rw [hqueues, List.append_nil]
          rw [hevents]
          exact ⟨hsizes, ⟨⟨q', rfl, hrep⟩, localq, rfl, fun c => hin c (List.mem_finRange c)⟩, hlen⟩

end QMempool
