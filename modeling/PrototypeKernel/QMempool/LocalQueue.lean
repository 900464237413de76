import PrototypeKernel.QMempool.Moves

/-! # The per-CPU queue

`BaseInv` holds in every run: whatever the callers free, whatever the slab answers, and in whatever
order the CPUs take their steps. A local queue is used by its own CPU only, so it is still empty
when an allocation refills it and still full when a free makes room in it, although the fast path
that saw it so has returned in between. -/

namespace QMempool

open TransitionSystem

variable {N : ℕ} {E : Type*} {localqSz sharedqSz : ℕ} {wait : UInt32}

/-! ## The invariant of every run -/

/-- The invariant survives a step of CPU `c` that establishes it for `c` and shares nothing else. -/
theorem BaseInv.of_frame {t t' : State N E (BoundedList E)} {c : Fin N}
    (h : BaseInv localqSz sharedqSz t) (hframe : t.Frame c t')
    (hok : (t'.pc c).Ok localqSz (t'.localq c).items)
    (hown : (t'.localq c).items.length ≤ localqSz)
    (hshared : t'.sharedq.items.length ≤ sharedqSz) : BaseInv localqSz sharedqSz t' where
  shared_cap := hframe.shared_cap.trans h.shared_cap
  local_cap c' := (hframe.local_cap c').trans (h.local_cap c')
  shared_le := hshared
  local_le c' := by
    by_cases hc : c' = c
    · rwa [hc]
    · rw [hframe.localq c' hc]
      exact h.local_le c'
  calls c' := by
    by_cases hc : c' = c
    · rwa [hc]
    · rw [hframe.pc c' hc, hframe.localq c' hc]
      exact h.calls c'

section Steps

variable [DecidableEq E]

/-- A move keeps what `Pc.Ok` says of the moving CPU, and the bounds of both queues. -/
theorem Move.ok {slab : Option E} {v v' : View E} (hm : Move localqSz sharedqSz wait slab v v')
    (hlocal : bulk ≤ localqSz) (hok : v.pc.Ok localqSz v.own) (hown : v.own.length ≤ localqSz)
    (hshared : v.shared.length ≤ sharedqSz) :
    v'.pc.Ok localqSz v'.own ∧ v'.own.length ≤ localqSz ∧ v'.shared.length ≤ sharedqSz := by
  have h16 : bulk = 16 := rfl
  have h2 : refillMultiplier = 2 := rfl
  -- the moves that touch no batch are arithmetic on the facts of the place they leave
  cases hm <;> simp [Pc.Ok, length_entries] at hok hown hshared ⊢
  case sharedBulk hpos hle => exact ⟨⟨hok, hpos, hle⟩, hown, by omega⟩
  case spill k hpos hle => exact ⟨⟨k + 1, rfl, by omega, hle⟩, by omega, hshared⟩
  case sharedFull => exact ⟨hok, hown, hshared⟩
  case giveBack => exact ⟨hok, hown, hshared⟩
  case drain hle => exact ⟨hle, hown, by omega⟩
  case drainBack => exact ⟨hok, hown, hshared⟩
  all_goals omega

/-- **Every step keeps the invariant.** -/
theorem BaseInv.step {t t' : State N E (BoundedList E)} {a : Action N E}
    (h : BaseInv localqSz sharedqSz t) (hlocal : bulk ≤ localqSz) (hsize : sharedqSz < 2 ^ 32 - 1)
    (hs : QMempool.step listOps wait t a = some t') : BaseInv localqSz sharedqSz t' := by
  cases a with
  | alloc c gfp stack =>
    obtain ⟨-, rfl⟩ := step_alloc_eq_some.mp hs
    refine h.of_frame (State.frame_goto _) ?_ (h.local_le c) h.shared_le
    rw [State.goto_pc_self]
    trivial
  | free c elem stack =>
    obtain ⟨-, rfl⟩ := step_free_eq_some.mp hs
    refine h.of_frame (State.frame_ghost ..) ?_ (h.local_le c) h.shared_le
    rw [State.goto_pc_self]
    trivial
  | run c slab =>
    obtain ⟨hmove, hframe⟩ := h.move hlocal hsize hs
    obtain ⟨hok, hown, hshared⟩ := hmove.ok hlocal (h.calls c) (h.local_le c) h.shared_le
    exact h.of_frame hframe hok hown hshared

end Steps

/-- A new pool satisfies the invariant. -/
theorem BaseInv.start {es : List E} (hes : es.length ≤ sharedqSz) :
    BaseInv localqSz sharedqSz (startLists (N := N) localqSz sharedqSz es) where
  shared_cap := rfl
  local_cap _ := rfl
  shared_le := by simpa [startLists] using hes
  local_le _ := Nat.zero_le _
  calls _ := trivial

/-- The list of a created shared queue fits, and its size is far below `2 ^ 32`. -/
theorem Qmempool.Created.bounds {pool : Qmempool N E} {es : List E}
    (h : pool.Created localqSz sharedqSz es) :
    es.length ≤ sharedqSz ∧ sharedqSz < 2 ^ 32 - 1 := by
  obtain ⟨q, -, hrep⟩ := h.shared
  have hlen := hrep.length_le
  have hsize := hrep.size_le
  rw [List.length_map] at hlen
  exact ⟨hlen, by omega⟩

/-! ## The assertions about the local queue -/

/-- What the code asserts about the local queue of CPU `c`, in a state of the pool. -/
structure State.LocalqSafe (s : State N E (QueuePtr E)) (c : Fin N) : Prop where
  /-- No assertion about the local queue has fired, and no array was overrun. -/
  noBug : ∀ site lost, s.pc c = .bug site lost →
    site ≠ .localqRefill ∧ site ≠ .localqSpill ∧ site ≠ .overrun
  /-- A refill with up to `QMEMPOOL_BULK - 1` elements stores them all. -/
  refill : ∀ elems num, s.pc c = .refillLocal elems num → 0 < num - 1 ∧ num - 1 ≤ bulk - 1 ∧
    ∃ p, ptrOps.spEnqueue (s.localq c) (fun j => elems (j + 1)) (UInt32.ofInt (num - 1))
      = some (p, num - 1)
  /-- Making room dequeues at least one element, and writes no more than `QMEMPOOL_BULK - 1` entries
  after the first of the array. -/
  spill : ∀ elem stack, s.pc c = .freeSpill elem stack → ∃ p rest num,
    ptrOps.scDequeue (s.localq c) (fun j => stack (j + 1)) (UInt32.ofNat (bulk - 1))
      = some (p, rest, num) ∧ 0 < num ∧ num + 1 ≤ bulk ∧ ∀ j : ℕ, num ≤ j → rest j = stack (j + 1)

/-- The invariant over lists is what the assertions of the code need. -/
theorem BaseInv.localqSafe {s : State N E (QueuePtr E)} {t : State N E (BoundedList E)}
    (h : BaseInv localqSz sharedqSz t) (hlocal : bulk ≤ localqSz) (hrel : Rel s t) (c : Fin N) :
    s.LocalqSafe c where
  noBug site lost hpc := by
    have hok := h.calls c
    rwa [← hrel.pc, hpc] at hok
  refill elems num hpc := by
    have hok := h.calls c
    rw [← hrel.pc, hpc] at hok
    obtain ⟨hempty, k, rfl, hpos, hle⟩ := hok
    obtain ⟨p, -, henq, -⟩ := (hrel.local_ c).enqueue (fun j => elems (j + 1)) (UInt32.ofInt k)
    have h16 : bulk = 16 := rfl
    have hk : (UInt32.ofInt (k : ℤ)).toNat = k := toNat_ofInt_natCast (by omega)
    -- the empty local queue takes a batch, as `QMEMPOOL_BULK` is at most its size
    have hroom : (t.localq c).items.length + k ≤ (t.localq c).capacity := by
      rw [hempty, List.length_nil, h.local_cap c]
      omega
    rw [hk, BoundedList.enqueue_of_le hroom] at henq
    rw [add_sub_cancel_right]
    exact ⟨by omega, by omega, p, henq⟩
  spill elem stack hpc := by
    have hok := h.calls c
    rw [← hrel.pc, hpc] at hok
    have hfull : (t.localq c).items.length = localqSz := hok
    obtain ⟨p, -, hdeq, -⟩ :=
      (hrel.local_ c).dequeue (fun j => stack (j + 1)) (UInt32.ofNat (bulk - 1))
    have h16 : bulk = 16 := rfl
    -- the full local queue holds a batch
    have hnum : min (t.localq c).items.length (UInt32.ofNat (bulk - 1)).toNat = bulk - 1 := by
      rw [show (UInt32.ofNat (bulk - 1)).toNat = bulk - 1 from rfl]
      omega
    rw [BoundedList.dequeue, hnum] at hdeq
    refine ⟨p, _, _, hdeq, by omega, by omega, fun j hj => ?_⟩
    rw [ReserveRing.writeFront, List.getElem?_eq_none, Option.getD_none]
    rw [List.length_take]
    omega

section Safe

variable [DecidableEq E]

/-- Every run over lists that starts from a created pool keeps the invariant. -/
theorem BaseInv.reachable {pool : Qmempool N E} {es : List E} {t : State N E (BoundedList E)}
    {ok : State N E (BoundedList E) → Action N E → Prop}
    (hcreated : pool.Created localqSz sharedqSz es) (hlocal : bulk ≤ localqSz)
    (hreach : Reachable (QMempool.step listOps wait) ok (startLists localqSz sharedqSz es) t) :
    BaseInv localqSz sharedqSz t := by
  obtain ⟨hlen, hsize⟩ := hcreated.bounds
  exact hreach.invariant (BaseInv.start hlen) fun _ _ _ h _ hs => h.step hlocal hsize hs

/-- **The assertions about the local queue never fire**: whatever the callers free and the slab
answers, and in every interleaving of the CPUs. -/
theorem localq_assertions_hold {env : CreateEnv N E} {localqSz sharedqSz prealloc gfpMask : UInt32}
    {pool : Qmempool N E} {events : List (Event N E)}
    (hcreate : qmempoolCreate env localqSz sharedqSz prealloc gfpMask = some (some pool, events))
    {s : State N E (QueuePtr E)}
    (hreach : Reachable (QMempool.step ptrOps wait) (fun _ _ => True)
      (pool.start (allocated events)) s) (c : Fin N) :
    s.LocalqSafe c := by
  obtain ⟨hsizes, hcreated, -⟩ := created_of_create hcreate
  obtain ⟨t, hreach', hrel⟩ : ∃ t, Reachable (QMempool.step listOps wait) (fun _ _ => True)
      (startLists localqSz.toNat sharedqSz.toNat (allocated events)) t ∧ Rel s t :=
    refines_lists (fun _ _ _ _ _ => trivial) hcreated.rel hreach
  exact (BaseInv.reachable hcreated hsizes.bulk_le hreach').localqSafe hsizes.bulk_le hrel c

/-- After an allocation has taken four elements from the shared queue and is about to refill. -/
theorem localq_assertions_hold_two :
    ∃ s, createAndRun (.plenty 2) 16 32 4 0x10 (fun _ _ => True)
        [.alloc 0 0 fun _ => none, .run 0 none, .run 0 none] = some s ∧
      ∀ c, s.LocalqSafe c := by
  obtain ⟨s, hrun⟩ := Option.isSome_iff_exists.mp
    (show (createAndRun (.plenty 2) 16 32 4 0x10 (fun _ _ => True)
      [.alloc 0 0 fun _ => none, .run 0 none, .run 0 none]).isSome by decide +kernel)
  obtain ⟨pool, events, hcreate, hreach⟩ := reachable_of_createAndRun hrun
  exact ⟨s, hrun, fun c => localq_assertions_hold hcreate hreach c⟩

end Safe

end QMempool
