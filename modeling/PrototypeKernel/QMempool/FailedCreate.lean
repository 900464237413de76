import PrototypeKernel.QMempool.Sequential

/-! # Creations that fail

`qmempool_create()` gives up at the first allocation that fails and hands what it has built so far
to `qmempool_destroy()`, which compares a pointer to a queue with `NULL` at most. A queue that could
not be allocated is an error pointer, so whether the destruction goes well depends on which
allocation has failed. -/

namespace QMempool

variable {N : ℕ} {E : Type*} {env : CreateEnv N E} {localqSz sharedqSz prealloc gfpMask : UInt32}

/-! ## Allocations and releases -/

/-- The owners of the queues that were allocated. -/
def queuesAllocated (events : List (Event N E)) : List (Option (Fin N)) :=
  events.filterMap fun
    | .queueAlloc owner => some owner
    | _ => none

/-- The owners of the queues that were freed. -/
def queuesFreed (events : List (Event N E)) : List (Option (Fin N)) :=
  events.filterMap fun
    | .queueFree owner => some owner
    | _ => none

/-- The number of per-CPU areas and pools that were allocated. -/
def areasAllocated (events : List (Event N E)) : ℕ × ℕ :=
  (events.countP fun | .percpuAlloc => true | _ => false,
    events.countP fun | .poolAlloc => true | _ => false)

/-- The number of per-CPU areas and pools that were freed. -/
def areasFreed (events : List (Event N E)) : ℕ × ℕ :=
  (events.countP fun | .percpuFree => true | _ => false,
    events.countP fun | .poolFree => true | _ => false)

/-- **All that was allocated has been released, exactly once**, and nothing else. -/
structure Released (events : List (Event N E)) : Prop where
  elems : (freed events).Perm ((allocated events).map some)
  queues : (queuesFreed events).Perm (queuesAllocated events)
  areas : areasFreed events = areasAllocated events

/-- **A failure leaves nothing behind**: no invalid pointer to a queue is dereferenced or freed, and
when `NULL` is returned all is released. -/
def FailureClean : Option (Option (Qmempool N E) × List (Event N E)) → Prop
  | none => False
  | some (some _, _) => True
  | some (none, events) => Released events

/-- **No allocation of a queue fails** in a creation, as far as it gets to these. -/
def QueuesAvailable (env : CreateEnv N E) (localqSz sharedqSz prealloc : UInt32) : Prop :=
  validSizes localqSz sharedqSz prealloc → env.kmem → env.pool →
    (sharedqSz ≤ 65536 ∧ env.sharedq) ∧
      ((∀ i, i < prealloc.toNat → env.elem i ≠ none) → env.percpu →
        ∀ c, localqSz ≤ 65536 ∧ env.localq c)

/-! ## What the destruction of a part does -/

/-- Without events nothing is left. -/
theorem Released.nil : Released ([] : List (Event N E)) := ⟨.rfl, .rfl, rfl⟩

/-- A pool without local queues whose shared queue holds what was taken from the slab. -/
theorem exists_giveUp {size : ℕ} {q : AlfQueue (Option E)} {es : List E} (pool : Qmempool N E)
    (hpercpu : pool.percpu = none) (hshared : pool.sharedq = .queue q)
    (hrep : AlfQueue.Represents size q (es.map some)) :
    ∃ events, giveUp (.poolAlloc :: .queueAlloc none :: es.map .elemAlloc) pool =
      some (none, events) ∧ Released events := by
  have hdestroy : qmempoolDestroy pool = some
      ([] ++ ((es.map some).map .elemFree ++ [.queueFree none]) ++ [.poolFree]) := by
    simp only [qmempoolDestroy, hpercpu, hshared, destroyQueue_eq hrep, Option.bind_eq_bind,
      Option.bind_some, Option.pure_def]
  refine ⟨_, by rw [giveUp, hdestroy, Option.map_some], ?_, ?_, ?_⟩
  · simp [freed, allocated, List.filterMap_map, Function.comp_def]
  · simp [queuesFreed, queuesAllocated, List.filterMap_map, Function.comp_def]
  · simp [areasFreed, areasAllocated, List.countP_map, Function.comp_def]

/-- The shared queue of a pool is an error pointer. -/
theorem giveUp_of_sharedq_err (events : List (Event N E)) {pool : Qmempool N E} {code : ℤ}
    (hshared : pool.sharedq = .err code) : giveUp events pool = none := by
  have hdestroy : qmempoolDestroy pool = none := by
    simp only [qmempoolDestroy, hshared, destroyQueue, QueuePtr.deref, Option.bind_eq_bind,
      Option.bind_none, Option.bind_fun_none]
    split <;> rfl
  rw [giveUp, hdestroy, Option.map_none]

/-- The local queue of a CPU is an invalid pointer. -/
theorem destroyLocalqs_of_err {localq : Fin N → QueuePtr E} {cpus : List (Fin N)} {c : Fin N}
    (hmem : c ∈ cpus) (hc : (localq c).deref = none) : destroyLocalqs localq cpus = none := by
  induction cpus with
  | nil => cases hmem
  | cons d cpus ih =>
    rcases List.mem_cons.mp hmem with rfl | hmem
    · simp [destroyLocalqs, destroyQueue, hc]
    · simp [destroyLocalqs, ih hmem]

/-- Giving up fails at a local queue that is an error. -/
theorem giveUp_of_localq_err (events : List (Event N E)) {pool : Qmempool N E}
    {localq : Fin N → QueuePtr E} {c : Fin N} (hpercpu : pool.percpu = some localq)
    (hc : (localq c).deref = none) : giveUp events pool = none := by
  have hdestroy : qmempoolDestroy pool = none := by
    simp only [qmempoolDestroy, hpercpu, destroyLocalqs_of_err (List.mem_finRange c) hc,
      Option.map_none, Option.bind_eq_bind, Option.bind_none]
  rw [giveUp, hdestroy, Option.map_none]

/-! ## The local queues -/

/-- A power of two of slots is allocated unless it is too large or memory is short. -/
theorem alfQueueAlloc_isOk {size : UInt32} (hpow : KernelInt.isPowerOf2 size) (kzalloc : Bool) :
    (∃ q, AlfQueue.alfQueueAlloc (none : Option E) size kzalloc = .ok q) ↔
      size ≤ 65536 ∧ kzalloc := by
  simp [AlfQueue.alfQueueAlloc_eq_ok, hpow]

/-- The allocation of the local queues is complete unless one of them fails, which leaves an error
pointer. -/
theorem allocLocalqs_cases (hpow : KernelInt.isPowerOf2 localqSz) {cpus : List (Fin N)}
    {localq localq' : Fin N → QueuePtr E} {events : List (Event N E)} {done : Bool}
    (hnodup : cpus.Nodup) (h : allocLocalqs env localqSz localq cpus = (localq', events, done)) :
    (∀ c ∉ cpus, localq' c = localq c) ∧
      (done = true ∧ (∀ c ∈ cpus, localqSz ≤ 65536 ∧ env.localq c) ∨
        done = false ∧ ∃ c ∈ cpus, ¬ (localqSz ≤ 65536 ∧ env.localq c) ∧
          (localq' c).deref = none) := by
  induction cpus generalizing localq events with
  | nil =>
    cases h
    exact ⟨fun _ _ => rfl, .inl ⟨rfl, nofun⟩⟩
  | cons c cpus ih =>
    obtain ⟨hc, hnodup⟩ := List.nodup_cons.mp hnodup
    rw [allocLocalqs] at h
    have hok := alfQueueAlloc_isOk (E := E) hpow (env.localq c)
    cases halloc : AlfQueue.alfQueueAlloc (none : Option E) localqSz (env.localq c) with
    | error code =>
      simp only [halloc, QueuePtr.ofAlloc, QueuePtr.isErrOrNull, if_true, Prod.mk.injEq] at h
      obtain ⟨rfl, -, rfl⟩ := h
      refine ⟨fun c' hc' => ?_, .inr ⟨rfl, c, List.mem_cons_self .., ?_, ?_⟩⟩
      · have hne : c' ≠ c := fun heq => hc' (List.mem_cons.mpr (.inl heq))
        exact Function.update_of_ne hne ..
      · intro havail
        obtain ⟨q, hq⟩ := hok.mpr havail
        rw [halloc] at hq
        cases hq
      · rw [Function.update_self]
        rfl
    | ok q =>
      obtain ⟨⟨localq₁, events₁, done₁⟩, hrest⟩ : ∃ r, allocLocalqs env localqSz
          (Function.update localq c (.queue q)) cpus = r := ⟨_, rfl⟩
      simp only [halloc, QueuePtr.ofAlloc, QueuePtr.isErrOrNull, hrest, Bool.false_eq_true,
        if_false, Prod.mk.injEq] at h
      obtain ⟨rfl, -, rfl⟩ := h
      obtain ⟨hout, hcases⟩ := ih hnodup hrest
      refine ⟨fun c' hc' => ?_, ?_⟩
      · rw [List.mem_cons, not_or] at hc'
        rw [hout c' hc'.2, Function.update_of_ne hc'.1]
      · rcases hcases with ⟨hdone, hall⟩ | ⟨hdone, c', hc', hbad⟩
        · exact .inl ⟨hdone, List.forall_mem_cons.mpr ⟨hok.mp ⟨q, halloc⟩, hall⟩⟩
        · exact .inr ⟨hdone, c', List.mem_cons_of_mem _ hc', hbad⟩

/-! ## Every creation -/

/-- The sizes of the queues are powers of two. -/
theorem isPowerOf2_of_validSizes (h : validSizes localqSz sharedqSz prealloc) :
    KernelInt.isPowerOf2 localqSz ∧ KernelInt.isPowerOf2 sharedqSz := by
  simp only [validSizes, Bool.and_eq_true] at h
  exact ⟨h.1.1.2, h.1.2⟩

/-- Without the shared queue the destruction of the pool drains an error pointer. -/
theorem not_failureClean_of_sharedq
    (hearly : ¬ (!validSizes localqSz sharedqSz prealloc || !env.kmem || !env.pool) = true)
    {code : ℤ}
    (halloc : AlfQueue.alfQueueAlloc (none : Option E) sharedqSz env.sharedq = .error code) :
    ¬ FailureClean (qmempoolCreate env localqSz sharedqSz prealloc gfpMask) := by
  have hgiveUp : giveUp [.poolAlloc] (⟨.err code, none, 0, gfpMask⟩ : Qmempool N E) = none :=
    giveUp_of_sharedq_err _ rfl
  rw [qmempoolCreate, if_neg hearly, halloc]
  simp only [QueuePtr.ofAlloc, hgiveUp]
  exact id

/-- Behind the shared queue only the local queues are not released. -/
theorem failureClean_iff_of_sharedq (hvalid : validSizes localqSz sharedqSz prealloc)
    (hkmem : env.kmem) (hpool : env.pool) {q : AlfQueue (Option E)}
    (halloc : AlfQueue.alfQueueAlloc (none : Option E) sharedqSz env.sharedq = .ok q) :
    FailureClean (qmempoolCreate env localqSz sharedqSz prealloc gfpMask) ↔
      ((∀ i, i < prealloc.toNat → env.elem i ≠ none) → env.percpu →
        ∀ c, localqSz ≤ 65536 ∧ env.localq c) := by
  have hsizes := sizes_of_validSizes hvalid
  obtain ⟨q', es, done, hloop, hrep, -, hdone⟩ := exists_preallocLoop env prealloc.toNat 0
    (AlfQueue.represents_of_alloc halloc) (by simpa using hsizes.prealloc_le)
  obtain ⟨events, hgiveUp, hreleased⟩ := exists_giveUp
    (⟨.queue q', none, prealloc, gfpMask⟩ : Qmempool N E) rfl rfl hrep
  simp only [Nat.zero_add] at hdone
  rw [qmempoolCreate, if_neg (by simp [hvalid, hkmem, hpool])]
  simp only [halloc, QueuePtr.ofAlloc, hloop, Option.bind_eq_bind, Option.bind_some]
  cases done with
  | false =>
    -- the slab refuses an element
    simp only [Bool.not_false, if_true, hgiveUp, FailureClean]
    exact iff_of_true hreleased fun hall => absurd (hdone.mpr hall) Bool.false_ne_true
  | true =>
    simp only [Bool.not_true, Bool.false_eq_true, if_false]
    cases hpercpu : env.percpu with
    | false =>
      simp only [Bool.not_false, if_true, hgiveUp, FailureClean]
      exact iff_of_true hreleased fun _ h => absurd h Bool.false_ne_true
    | true =>
      obtain ⟨⟨localq, queueEvents, done⟩, hlocal⟩ : ∃ r, allocLocalqs env localqSz
          (fun _ => .null) (List.finRange N) = r := ⟨_, rfl⟩
      have hpowLocal := (isPowerOf2_of_validSizes hvalid).1
      simp only [hlocal, Bool.not_true, Bool.false_eq_true, if_false, true_imp_iff]
      rcases (allocLocalqs_cases hpowLocal (List.nodup_finRange N) hlocal).2 with
        ⟨rfl, havailable⟩ | ⟨rfl, c, -, hbad, hderef⟩
      · exact iff_of_true trivial fun _ c => havailable c (List.mem_finRange c)
      · -- the destruction of the pool drains an error pointer
        simp only [Bool.not_false, if_true]
        rw [giveUp_of_localq_err _ rfl hderef]
        exact iff_of_false id fun h => hbad (h (hdone.mp rfl) c)

/-- **A creation fails cleanly exactly when no allocation of a queue fails.** -/
theorem failureClean_iff (env : CreateEnv N E) (localqSz sharedqSz prealloc gfpMask : UInt32) :
    FailureClean (qmempoolCreate env localqSz sharedqSz prealloc gfpMask) ↔
      QueuesAvailable env localqSz sharedqSz prealloc := by
  by_cases hearly : (!validSizes localqSz sharedqSz prealloc || !env.kmem || !env.pool) = true
  · -- nothing has been allocated yet
    rw [qmempoolCreate, if_pos hearly]
    refine iff_of_true Released.nil fun hvalid hkmem hpool => absurd hearly ?_
    simp [hvalid, hkmem, hpool]
  · have hargs := hearly
    simp only [Bool.or_eq_true, Bool.not_eq_true', not_or, Bool.not_eq_false] at hargs
    obtain ⟨⟨hvalid, hkmem⟩, hpool⟩ := hargs
    have hshared := alfQueueAlloc_isOk (E := E) (isPowerOf2_of_validSizes hvalid).2 env.sharedq
    cases halloc : AlfQueue.alfQueueAlloc (none : Option E) sharedqSz env.sharedq with
    | error code =>
      refine iff_of_false (not_failureClean_of_sharedq hearly halloc) fun havail => ?_
      obtain ⟨q, hq⟩ := hshared.mpr (havail hvalid hkmem hpool).1
      cases halloc.symm.trans hq
    | ok q =>
      rw [failureClean_iff_of_sharedq hvalid hkmem hpool halloc]
      exact ⟨fun h _ _ _ => ⟨hshared.mp ⟨q, halloc⟩, h⟩, fun h => (h hvalid hkmem hpool).2⟩

/-- A local queue of 2^17 slots is too large for `alf_queue_alloc()`. -/
theorem not_failureClean_tooLarge :
    qmempoolCreate (.plenty 1) 131072 32 0 0 = none ∧
      ¬ FailureClean (qmempoolCreate (.plenty 1) 131072 32 0 0) := by
  have h : qmempoolCreate (.plenty 1) 131072 32 0 0 = none := rfl
  exact ⟨h, by rw [h]; exact id⟩

end QMempool
