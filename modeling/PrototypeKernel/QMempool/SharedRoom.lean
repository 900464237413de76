import PrototypeKernel.QMempool.LocalQueue
import Mathlib.Algebra.Order.BigOperators.Group.Finset

/-! # Room in the shared queue

`__qmempool_alloc_from_slab()` asserts that the shared queue, which it has seen empty, has room for
the elements of a refill. Each CPU that sees the queue empty adds `QMEMPOOL_REFILL_MULTIPLIER`
batches to it, and all CPUs may do so at once. So the assertion holds in every run of allocations
exactly when the queue has room for the refills of all CPUs together: `sharedq_room_iff`. -/

namespace QMempool

open TransitionSystem

variable {N : ℕ} {E : Type*} {localqSz sharedqSz : ℕ} {wait : UInt32}

/-! ## Elements to come -/

/-- How many elements the call will still add to the shared queue. -/
def Pc.pending : Pc E → ℕ
  | .slabFirst .. => bulk * refillMultiplier
  | .slabElem _ _ i _ | .slabEnq _ _ i => bulk * (refillMultiplier - i)
  | _ => 0

/-- The call is an allocation to which the slab has given each element. -/
def Pc.Allocating : Pc E → Prop
  | .slabPartial .. | .freeLocal .. | .freeSpill .. | .freeShared .. | .freeSlab .. => False
  | .drain .. | .drainFree .. => False
  | _ => True

/-- A run of allocations in which the slab never fails. -/
def Action.allocates : Action N E → Bool
  | .alloc .. => true
  | .free .. => false
  | .run _ slab => slab.isSome

section Moves

variable [DecidableEq E] {slab : Option E} {v v' : View E}

/-- A move of an allocation does not add to the elements in the shared queue and to come, unless it
sees the queue empty. -/
theorem Move.pending (hm : Move localqSz sharedqSz wait slab v v') (hslab : slab.isSome)
    (halloc : v.pc.Allocating) (hok : v.pc.Ok localqSz v.own) :
    v'.pc.Allocating ∧
      (v'.shared = [] ∨
        (v'.shared.length + v'.pc.pending ≤ v.shared.length + v.pc.pending ∧
          (v.pc.pending = 0 → v'.pc.pending = 0))) := by
  have h16 : bulk = 16 := rfl
  have h2 : refillMultiplier = 2 := rfl
  cases hm <;>
    simp [Pc.Allocating, Pc.pending, Pc.Ok, length_entries, h16, h2] at hslab halloc hok ⊢
  all_goals omega

/-- The assertion fires only in a refill that finds no room for a batch. -/
theorem Move.sharedqRoom (hm : Move localqSz sharedqSz wait slab v v')
    (hbug : v'.pc.bug? = some .sharedqRoom) (hok : v.pc.Ok localqSz v.own) :
    sharedqSz < v.shared.length + bulk ∧ bulk ≤ v.pc.pending := by
  have h16 : bulk = 16 := rfl
  have h2 : refillMultiplier = 2 := rfl
  cases hm <;> simp [Pc.bug?, Pc.pending, Pc.Ok, h16, h2] at hbug hok ⊢
  case enqBug hfull => omega

end Moves

/-! ## Safety -/

/-- **The invariant of a run of allocations**: unless no elements are to come, those in the shared
queue and those to come are at most one refill for each CPU. -/
structure RoomInv (t : State N E (BoundedList E)) : Prop where
  allocating : ∀ c, (t.pc c).Allocating
  bounded : (∀ c, (t.pc c).pending = 0) ∨
    t.sharedq.items.length + ∑ c, (t.pc c).pending ≤ bulk * refillMultiplier * N

/-- A call has at most a refill under way. -/
theorem Pc.pending_le (pc : Pc E) : pc.pending ≤ bulk * refillMultiplier := by
  have h16 : bulk = 16 := rfl
  have h2 : refillMultiplier = 2 := rfl
  cases pc <;> simp only [Pc.pending, h16, h2] <;> omega

/-- All calls together have at most a refill for each CPU under way. -/
theorem sum_pending_le (pc : Fin N → Pc E) :
    ∑ c, (pc c).pending ≤ bulk * refillMultiplier * N := by
  calc ∑ c, (pc c).pending
      ≤ ∑ _ : Fin N, bulk * refillMultiplier := Finset.sum_le_sum fun c _ => (pc c).pending_le
    _ = bulk * refillMultiplier * N := by
      rw [Finset.sum_const, Finset.card_univ, Fintype.card_fin, smul_eq_mul, Nat.mul_comm]

section Safety

variable [DecidableEq E] {t t' : State N E (BoundedList E)}

omit [DecidableEq E] in
/-- The invariant survives a step of CPU `c` that does not add to the elements in the shared queue
and to come, and one that sees the queue empty. -/
theorem RoomInv.of_frame {c : Fin N} (h : RoomInv t) (hframe : t.Frame c t')
    (halloc : (t'.pc c).Allocating)
    (hmoved : t'.sharedq.items = [] ∨
      (t'.sharedq.items.length + (t'.pc c).pending ≤ t.sharedq.items.length + (t.pc c).pending ∧
        ((t.pc c).pending = 0 → (t'.pc c).pending = 0))) : RoomInv t' := by
  refine ⟨hframe.forall_pc h.allocating halloc, ?_⟩
  have hsum := Tally.sum_change (f := fun c => (t.pc c).pending) (g := fun c => (t'.pc c).pending)
    (i := c) fun c' hc => by rw [hframe.pc c' hc]
  obtain hempty | ⟨hle, hzero⟩ := hmoved
  · -- the queue is empty, and each CPU may have a refill to come
    right
    rw [hempty, List.length_nil, Nat.zero_add]
    exact sum_pending_le t'.pc
  · obtain hnone | hbound := h.bounded
    · left
      exact hframe.forall_pc (P := fun pc => pc.pending = 0) hnone (hzero (hnone c))
    · right
      omega

/-- A step of an allocation keeps the invariant. -/
theorem RoomInv.step {a : Action N E} (h : RoomInv t) (hbase : BaseInv localqSz sharedqSz t)
    (hlocal : bulk ≤ localqSz) (hsize : sharedqSz < 2 ^ 32 - 1) (ha : a.allocates)
    (hs : QMempool.step listOps wait t a = some t') : RoomInv t' := by
  cases a with
  | free => cases ha
  | alloc c gfp stack =>
    obtain ⟨hidle, rfl⟩ := step_alloc_eq_some.mp hs
    refine h.of_frame (State.frame_goto _) ?_ (.inr ⟨?_, fun _ => ?_⟩)
    · rw [State.goto_pc_self]
      trivial
    · rw [State.goto_pc_self, hidle]
      rfl
    · rw [State.goto_pc_self]
      rfl
  | run c slab =>
    obtain ⟨hmove, hframe⟩ := hbase.move hlocal hsize hs
    obtain ⟨halloc, hmoved⟩ := hmove.pending ha (h.allocating c) (hbase.calls c)
    exact h.of_frame hframe halloc hmoved

/-- With room for one refill of each CPU the assertion does not fire. -/
theorem RoomInv.no_sharedqRoom {c : Fin N} {slab : Option E} (h : RoomInv t)
    (hbase : BaseInv localqSz sharedqSz t) (hlocal : bulk ≤ localqSz)
    (hsize : sharedqSz < 2 ^ 32 - 1) (hroom : bulk * refillMultiplier * N ≤ sharedqSz)
    (hs : QMempool.step listOps wait t (.run c slab) = some t') :
    (t'.pc c).bug? ≠ some .sharedqRoom := by
  intro hbug
  obtain ⟨hmove, -⟩ := hbase.move hlocal hsize hs
  obtain ⟨hfull, hpending⟩ := hmove.sharedqRoom hbug (hbase.calls c)
  have hfull : sharedqSz < t.sharedq.items.length + bulk := hfull
  have hpending : bulk ≤ (t.pc c).pending := hpending
  -- the refill of the stepping CPU is part of what is to come
  have hone : (t.pc c).pending ≤ ∑ c, (t.pc c).pending :=
    Finset.single_le_sum (f := fun c => (t.pc c).pending) (fun _ _ => Nat.zero_le _)
      (Finset.mem_univ c)
  have h16 : bulk = 16 := rfl
  obtain hnone | hbound := h.bounded
  · have hzero := hnone c
    omega
  · omega

end Safety

/-! ## A run that fires the assertion -/

section Solo

variable [DecidableEq E]

/-- CPU `c` alone takes the pool from `t` to `t'`, in a run of allocations. -/
structure Solo (localqSz sharedqSz : ℕ) (wait : UInt32) (c : Fin N)
    (t t' : State N E (BoundedList E)) : Prop where
  run : Reachable (step listOps wait) (fun _ a => a.allocates) t t'
  frame : t.Frame c t'
  base : BaseInv localqSz sharedqSz t'

variable {t t' t'' : State N E (BoundedList E)} {c : Fin N}

/-- A CPU that does nothing runs alone. -/
theorem Solo.refl (h : BaseInv localqSz sharedqSz t) : Solo localqSz sharedqSz wait c t t :=
  ⟨.refl, ⟨fun _ _ => rfl, fun _ _ => rfl, rfl, fun _ => rfl⟩, h⟩

/-- Two undisturbed parts are one. -/
theorem Solo.trans (h : Solo localqSz sharedqSz wait c t t')
    (h' : Solo localqSz sharedqSz wait c t' t'') : Solo localqSz sharedqSz wait c t t'' where
  run := h.run.trans h'.run
  frame :=
    { pc := fun c' hc => (h'.frame.pc c' hc).trans (h.frame.pc c' hc)
      localq := fun c' hc => (h'.frame.localq c' hc).trans (h.frame.localq c' hc)
      shared_cap := h'.frame.shared_cap.trans h.frame.shared_cap
      local_cap := fun c' => (h'.frame.local_cap c').trans (h.frame.local_cap c') }
  base := h'.base

variable (wait) (hlocal : bulk ≤ localqSz) (hsize : sharedqSz < 2 ^ 32 - 1)
include hlocal hsize

/-- The start of an allocation. -/
theorem BaseInv.exists_call (h : BaseInv localqSz sharedqSz t) {sh own held out}
    (hv : t.view c = ⟨.idle, sh, own, held, out⟩) :
    ∃ t' st, Solo localqSz sharedqSz wait c t t' ∧
      t'.view c = ⟨.allocLocal 0 st, sh, own, held, out⟩ := by
  simp only [State.view, View.mk.injEq] at hv
  obtain ⟨hidle, rfl, rfl, rfl, rfl⟩ := hv
  have hs : QMempool.step listOps wait t (.alloc c 0 fun _ => none)
      = some (t.goto c (.allocLocal 0 fun _ => none)) := step_alloc_eq_some.mpr ⟨hidle, rfl⟩
  exact ⟨_, _, ⟨.single rfl hs, State.frame_goto _, h.step hlocal hsize hs⟩, State.view_goto _⟩

variable [Infinite E]

/-- The next step of CPU `c`, when the slab has an element to give. -/
theorem BaseInv.exists_move (h : BaseInv localqSz sharedqSz t) {v : View E} (hv : t.view c = v)
    (hready : v.pc.ready = false) (hbug : v.pc.bug? = none) :
    ∃ t' v' e, t'.view c = v' ∧ Solo localqSz sharedqSz wait c t t' ∧
      Move localqSz sharedqSz wait (some e) v v' := by
  subst hv
  obtain ⟨e, he⟩ := Infinite.exists_notMem_finset t.out.toFinset
  rw [List.mem_toFinset] at he
  obtain ⟨t', hs⟩ : ∃ t', QMempool.step listOps wait t (.run c (some e)) = some t' := by
    rw [← Option.isSome_iff_exists]
    simp only [QMempool.step, State.advance]
    cases hpc : t.pc c <;>
      simp [hpc, State.view, Pc.ready, Pc.bug?, State.deqLocal, State.deqShared, State.enqLocal,
        State.enqShared, State.slabAlloc, listOps, he] at hready hbug ⊢
    all_goals split <;> rfl
  obtain ⟨hmove, hframe⟩ := h.move hlocal hsize hs
  exact ⟨t', _, e, rfl, ⟨.single rfl hs, hframe, h.step hlocal hsize hs⟩, hmove⟩

/-- An allocation that has its element returns it. -/
theorem BaseInv.exists_ret (h : BaseInv localqSz sharedqSz t) {elem sh own held out}
    (hv : t.view c = ⟨.allocRet elem, sh, own, held, out⟩) :
    ∃ t' held', Solo localqSz sharedqSz wait c t t' ∧
      t'.view c = ⟨.idle, sh, own, held', out⟩ := by
  obtain ⟨t', v', e, hv', hsolo, hm⟩ := h.exists_move wait hlocal hsize hv rfl rfl
  cases hm
  exact ⟨t', _, hsolo, hv'⟩

/-- An allocation takes one element, from its own queue or from the shared one. -/
theorem BaseInv.exists_taken (h : BaseInv localqSz sharedqSz t) {sh own held out} {n : ℕ}
    (hv : t.view c = ⟨.idle, sh, own, held, out⟩) (hn : sh.length + own.length = n + 1) :
    ∃ t' sh' own' held', Solo localqSz sharedqSz wait c t t' ∧
      t'.view c = ⟨.idle, sh', own', held', out⟩ ∧ sh'.length + own'.length = n := by
  -- localq, then sharedq with one element, then sharedq with a batch for localq
  obtain ⟨t₁, st, hsolo₁, hv₁⟩ := h.exists_call wait hlocal hsize hv
  obtain ⟨t₂, v₂, e₂, hv₂, hsolo₂, hm₂⟩ := hsolo₁.base.exists_move wait hlocal hsize hv₁ rfl rfl
  cases hm₂ with
  | @hit _ _ _ x _ own' =>
    obtain ⟨t₃, held', hsolo₃, hv₃⟩ := hsolo₂.base.exists_ret wait hlocal hsize hv₂
    refine ⟨t₃, sh, own', held', (hsolo₁.trans hsolo₂).trans hsolo₃, hv₃, ?_⟩
    rw [List.length_cons] at hn
    omega
  | miss =>
    obtain ⟨t₃, v₃, e₃, hv₃, hsolo₃, hm₃⟩ := hsolo₂.base.exists_move wait hlocal hsize hv₂ rfl rfl
    cases hm₃ with
    | sharedMiss => simp at hn
    | sharedOne =>
      obtain ⟨t₄, held', hsolo₄, hv₄⟩ := hsolo₃.base.exists_ret wait hlocal hsize hv₃
      refine ⟨t₄, [], [], held', ((hsolo₁.trans hsolo₂).trans hsolo₃).trans hsolo₄, hv₄, ?_⟩
      simp only [List.length_cons, List.length_nil] at hn ⊢
      omega
    | @sharedBulk _ _ _ elems rest _ _ _ k hpos hle =>
      obtain ⟨t₄, v₄, e₄, hv₄, hsolo₄, hm₄⟩ := hsolo₃.base.exists_move wait hlocal hsize hv₃ rfl rfl
      cases hm₄
      obtain ⟨t₅, held', hsolo₅, hv₅⟩ := hsolo₄.base.exists_ret wait hlocal hsize hv₄
      refine ⟨t₅, rest, _, held',
        (((hsolo₁.trans hsolo₂).trans hsolo₃).trans hsolo₄).trans hsolo₅, hv₅, ?_⟩
      simp only [List.length_append, length_entries, List.length_nil] at hn ⊢
      omega

/-- CPU `c` can empty its own queue and the shared one. -/
theorem BaseInv.exists_drained (n : ℕ) (h : BaseInv localqSz sharedqSz t) {sh own held out}
    (hv : t.view c = ⟨.idle, sh, own, held, out⟩) (hn : sh.length + own.length = n) :
    ∃ t' held', Solo localqSz sharedqSz wait c t t' ∧ t'.view c = ⟨.idle, [], [], held', out⟩ := by
  -- one allocation for each element in the two queues
  induction n generalizing t sh own held with
  | zero =>
    obtain ⟨rfl, rfl⟩ : sh = [] ∧ own = [] := by
      rw [← List.length_eq_zero_iff, ← List.length_eq_zero_iff]
      omega
    exact ⟨t, held, .refl h, hv⟩
  | succ n ih =>
    obtain ⟨t₁, sh₁, own₁, held₁, hsolo₁, hv₁, hn₁⟩ := h.exists_taken wait hlocal hsize hv hn
    obtain ⟨t₂, held₂, hsolo₂, hv₂⟩ := ih hsolo₁.base hv₁ hn₁
    exact ⟨t₂, held₂, hsolo₁.trans hsolo₂, hv₂⟩

/-- An allocation that finds both queues empty turns to the slab. -/
theorem BaseInv.exists_slabFirst (h : BaseInv localqSz sharedqSz t) {held out}
    (hv : t.view c = ⟨.idle, [], [], held, out⟩) :
    ∃ t' st, Solo localqSz sharedqSz wait c t t' ∧
      t'.view c = ⟨.slabFirst 0 st, [], [], held, out⟩ := by
  obtain ⟨t₁, st, hsolo₁, hv₁⟩ := h.exists_call wait hlocal hsize hv
  obtain ⟨t₂, v₂, e₂, hv₂, hsolo₂, hm₂⟩ := hsolo₁.base.exists_move wait hlocal hsize hv₁ rfl rfl
  cases hm₂
  obtain ⟨t₃, v₃, e₃, hv₃, hsolo₃, hm₃⟩ := hsolo₂.base.exists_move wait hlocal hsize hv₂ rfl rfl
  generalize hsh : ([] : List (Option E)) = sh at hm₃
  cases hm₃ with
  | sharedOne => cases hsh
  | sharedBulk =>
    rw [entries_succ] at hsh
    cases hsh
  | sharedMiss => exact ⟨t₃, st, (hsolo₁.trans hsolo₂).trans hsolo₃, hv₃⟩

/-- A refill of the array: the slab gives the remaining elements of round `i`. -/
theorem BaseInv.exists_collected (n : ℕ) (h : BaseInv localqSz sharedqSz t)
    {elem elems i j sh own held out}
    (hv : t.view c = ⟨.slabElem elem elems i j, sh, own, held, out⟩) (hn : j + n + 1 = bulk) :
    ∃ t' elems' out', Solo localqSz sharedqSz wait c t t' ∧
      t'.view c = ⟨.slabEnq elem elems' i, sh, own, held, out'⟩ := by
  induction n generalizing t elems j out with
  | zero =>
    obtain ⟨t', v', e, hv', hsolo, hm⟩ := h.exists_move wait hlocal hsize hv rfl rfl
    cases hm with
    | elem hfresh hlt => omega
    | elemLast => exact ⟨t', _, _, hsolo, hv'⟩
  | succ n ih =>
    obtain ⟨t₁, v₁, e₁, hv₁, hsolo₁, hm₁⟩ := h.exists_move wait hlocal hsize hv rfl rfl
    cases hm₁ with
    | elemLast hfresh hlast => omega
    | elem =>
      obtain ⟨t₂, elems', out', hsolo₂, hv₂⟩ := ih hsolo₁.base hv₁ (by omega)
      exact ⟨t₂, elems', out', hsolo₁.trans hsolo₂, hv₂⟩

/-- A CPU that found the shared queue empty is about to enqueue its first batch. -/
theorem BaseInv.exists_slabEnq (h : BaseInv localqSz sharedqSz t) {st sh own held out}
    (hv : t.view c = ⟨.slabFirst 0 st, sh, own, held, out⟩) :
    ∃ t' elem elems out', Solo localqSz sharedqSz wait c t t' ∧
      t'.view c = ⟨.slabEnq elem elems 0, sh, own, held, out'⟩ := by
  obtain ⟨t₁, v₁, e₁, hv₁, hsolo₁, hm₁⟩ := h.exists_move wait hlocal hsize hv rfl rfl
  cases hm₁ with
  | gfpBug hgfp => exact absurd UInt32.zero_and hgfp
  | first =>
    obtain ⟨t₂, elems, out', hsolo₂, hv₂⟩ :=
      hsolo₁.base.exists_collected wait hlocal hsize (bulk - 1) hv₁ rfl
    exact ⟨t₂, _, elems, out', hsolo₁.trans hsolo₂, hv₂⟩

/-- With room for two batches the CPU adds them. -/
theorem BaseInv.exists_filled (h : BaseInv localqSz sharedqSz t) {st sh own held out}
    (hv : t.view c = ⟨.slabFirst 0 st, sh, own, held, out⟩)
    (hroom : sh.length + bulk * refillMultiplier ≤ sharedqSz) :
    ∃ t' v', Solo localqSz sharedqSz wait c t t' ∧ t'.view c = v' ∧
      v'.shared.length = sh.length + bulk * refillMultiplier := by
  have h16 : bulk = 16 := rfl
  have h2 : refillMultiplier = 2 := rfl
  have h32 : bulk * refillMultiplier = 32 := rfl
  obtain ⟨t₁, elem, elems, out₁, hsolo₁, hv₁⟩ := h.exists_slabEnq wait hlocal hsize hv
  obtain ⟨t₂, v₂, e₂, hv₂, hsolo₂, hm₂⟩ := hsolo₁.base.exists_move wait hlocal hsize hv₁ rfl rfl
  cases hm₂ with
  | enqBug hfull => omega
  | enqLast hroom hlast => omega
  | enq =>
    obtain ⟨t₃, elems₃, out₃, hsolo₃, hv₃⟩ :=
      hsolo₂.base.exists_collected wait hlocal hsize (bulk - 1) hv₂ rfl
    obtain ⟨t₄, v₄, e₄, hv₄, hsolo₄, hm₄⟩ := hsolo₃.base.exists_move wait hlocal hsize hv₃ rfl rfl
    cases hm₄ with
    | enqBug hfull =>
      rw [List.length_append, length_entries] at hfull
      omega
    | enq hroom hlt => omega
    | enqLast =>
      refine ⟨t₄, _, ((hsolo₁.trans hsolo₂).trans hsolo₃).trans hsolo₄, hv₄, ?_⟩
      simp only [List.length_append, length_entries]
      omega

/-- Without room for a batch the assertion fires. -/
theorem BaseInv.exists_bug (h : BaseInv localqSz sharedqSz t) {st sh own held out}
    (hv : t.view c = ⟨.slabFirst 0 st, sh, own, held, out⟩) (hfull : sharedqSz < sh.length + bulk) :
    ∃ t', Solo localqSz sharedqSz wait c t t' ∧ (t'.pc c).bug? = some .sharedqRoom := by
  obtain ⟨t₁, elem, elems, out₁, hsolo₁, hv₁⟩ := h.exists_slabEnq wait hlocal hsize hv
  obtain ⟨t₂, v₂, e₂, hv₂, hsolo₂, hm₂⟩ := hsolo₁.base.exists_move wait hlocal hsize hv₁ rfl rfl
  cases hm₂ with
  | enq hroom => omega
  | enqLast hroom => omega
  | enqBug =>
    refine ⟨t₂, hsolo₁.trans hsolo₂, ?_⟩
    rw [show t₂.pc c = _ from congrArg View.pc hv₂]
    rfl

end Solo

section Together

variable [DecidableEq E] {t t' : State N E (BoundedList E)}

/-- The queues are empty, the first `k` CPUs have found them so, and the others run no call. -/
structure Gathered (localqSz sharedqSz k : ℕ) (t : State N E (BoundedList E)) : Prop where
  base : BaseInv localqSz sharedqSz t
  shared : t.sharedq.items = []
  own : ∀ c, (t.localq c).items = []
  waiting : ∀ c : Fin N, c.val < k → ∃ st, t.pc c = .slabFirst 0 st
  idle : ∀ c : Fin N, k ≤ c.val → t.pc c = .idle

/-- The first `k` CPUs have put their refills into the shared queue, and the others found it empty.
-/
structure Filling (localqSz sharedqSz k : ℕ) (t : State N E (BoundedList E)) : Prop where
  base : BaseInv localqSz sharedqSz t
  shared : t.sharedq.items.length = bulk * refillMultiplier * k
  waiting : ∀ c : Fin N, k ≤ c.val → ∃ st, t.pc c = .slabFirst 0 st

omit [DecidableEq E] in
/-- When all CPUs have found the queues empty, none has put a refill into the shared queue. -/
theorem Gathered.filling (h : Gathered localqSz sharedqSz N t) :
    Filling localqSz sharedqSz 0 t where
  base := h.base
  shared := by rw [h.shared, Nat.mul_zero, List.length_nil]
  waiting c _ := h.waiting c c.isLt

variable [Infinite E] (wait) (hlocal : bulk ≤ localqSz) (hsize : sharedqSz < 2 ^ 32 - 1)
include hlocal hsize

/-- CPU 0 can empty the queues of a new pool. -/
theorem exists_gathered_zero {es : List E} (hes : es.length ≤ sharedqSz) (c : Fin N) :
    ∃ t, Reachable (step listOps wait) (fun _ a => a.allocates)
      (startLists (N := N) localqSz sharedqSz es) t ∧ Gathered localqSz sharedqSz 0 t := by
  have hbase : BaseInv localqSz sharedqSz (startLists (N := N) localqSz sharedqSz es) := .start hes
  obtain ⟨t, held, hsolo, hv⟩ := hbase.exists_drained (c := c) wait hlocal hsize _ rfl rfl
  refine ⟨t, hsolo.run, hsolo.base, congrArg View.shared hv, fun c' => ?_, fun _ h => ?_,
    fun c' _ => ?_⟩
  · by_cases hc : c' = c
    · rw [hc]
      exact congrArg View.own hv
    · rw [hsolo.frame.localq c' hc]
      rfl
  · exact absurd h (Nat.not_lt_zero _)
  · exact hsolo.frame.forall_pc (P := fun pc => pc = .idle) (fun _ => rfl) (congrArg View.pc hv) c'

/-- The next CPU finds the queues empty. -/
theorem Gathered.succ {k : ℕ} (h : Gathered localqSz sharedqSz k t) (hk : k < N) :
    ∃ t', Reachable (step listOps wait) (fun _ a => a.allocates) t t' ∧
      Gathered localqSz sharedqSz (k + 1) t' := by
  -- the CPUs before it have only looked, so the queues are still empty
  have hview : t.view ⟨k, hk⟩ = ⟨.idle, [], [], t.held, t.out⟩ := by
    rw [State.view_eq (h.idle ⟨k, hk⟩ le_rfl), h.shared, h.own]
  obtain ⟨t', st, hsolo, hv⟩ := h.base.exists_slabFirst wait hlocal hsize hview
  refine ⟨t', hsolo.run, hsolo.base, congrArg View.shared hv, fun c => ?_, fun c hc => ?_,
    fun c hc => ?_⟩
  · by_cases hck : c = ⟨k, hk⟩
    · rw [hck]
      exact congrArg View.own hv
    · rw [hsolo.frame.localq c hck]
      exact h.own c
  · by_cases hck : c = ⟨k, hk⟩
    · exact ⟨st, by rw [hck]; exact congrArg View.pc hv⟩
    · rw [hsolo.frame.pc c hck]
      exact h.waiting c (lt_of_le_of_ne (Nat.lt_succ_iff.mp hc) fun hval => hck (Fin.ext hval))
  · rw [hsolo.frame.pc c fun hck => by rw [hck] at hc; exact absurd hc (Nat.not_succ_le_self k)]
    exact h.idle c (Nat.le_of_succ_le hc)

/-- The next CPU puts its refill into the shared queue. -/
theorem Filling.succ {k : ℕ} (h : Filling localqSz sharedqSz k t) (hk : k < N)
    (hroom : bulk * refillMultiplier * (k + 1) ≤ sharedqSz) :
    ∃ t', Reachable (step listOps wait) (fun _ a => a.allocates) t t' ∧
      Filling localqSz sharedqSz (k + 1) t' := by
  obtain ⟨st, hpc⟩ := h.waiting ⟨k, hk⟩ le_rfl
  rw [Nat.mul_succ, ← h.shared] at hroom
  obtain ⟨t', v', hsolo, rfl, hlen⟩ :=
    h.base.exists_filled wait hlocal hsize (State.view_eq hpc) hroom
  refine ⟨t', hsolo.run, hsolo.base, ?_, fun c hc => ?_⟩
  · rw [Nat.mul_succ, ← h.shared]
    exact hlen
  · rw [hsolo.frame.pc c fun hck => by rw [hck] at hc; exact absurd hc (Nat.not_succ_le_self k)]
    exact h.waiting c (Nat.le_of_succ_le hc)

/-- **Too many CPUs fire the assertion**: all see the shared queue empty, as many as it has room for
refill it, and the next one finds no room. -/
theorem exists_sharedqRoom {es : List E} (hes : es.length ≤ sharedqSz) {m : ℕ}
    (hm : sharedqSz = bulk * refillMultiplier * m) (hN : m < N) :
    ∃ t, Reachable (step listOps wait) (fun _ a => a.allocates)
      (startLists (N := N) localqSz sharedqSz es) t ∧ ∃ c, (t.pc c).bug? = some .sharedqRoom := by
  obtain ⟨t₁, hrun₁, h₁⟩ := exists_gathered_zero wait hlocal hsize hes ⟨m, hN⟩
  -- all CPUs find the queue empty before any of them refills it
  obtain ⟨t₂, hrun₂, h₂⟩ :=
    exists_staged (P := Gathered localqSz sharedqSz) (n := N) h₁
      fun _ _ hk h => h.succ wait hlocal hsize hk
  -- one refill after the other, until there is no room for another one
  obtain ⟨t₃, hrun₃, h₃⟩ :=
    exists_staged (P := Filling localqSz sharedqSz) (n := m) h₂.filling fun k _ hk h =>
      h.succ wait hlocal hsize (hk.trans hN) (hm ▸ Nat.mul_le_mul_left _ hk)
  obtain ⟨st, hpc⟩ := h₃.waiting ⟨m, hN⟩ le_rfl
  have hfull : sharedqSz < t₃.sharedq.items.length + bulk := by
    rw [h₃.shared, ← hm]
    exact Nat.lt_add_of_pos_right (by decide)
  obtain ⟨t₄, hsolo, hbug⟩ :=
    h₃.base.exists_bug wait hlocal hsize (State.view_eq hpc) hfull
  exact ⟨t₄, ((hrun₁.trans hrun₂).trans hrun₃).trans hsolo.run, _, hbug⟩

end Together

/-! ## When there is always room -/

section RoomAlways

variable [DecidableEq E]

/-- In no run of allocations, with a slab that never fails, does the assertion fire. -/
def RoomAlways (wait : UInt32) (pool : Qmempool N E) (es : List E) : Prop :=
  ∀ s, Reachable (step ptrOps wait) (fun _ a => a.allocates) (pool.start es) s →
    ∀ c, (s.pc c).bug? ≠ some .sharedqRoom

/-- A run of allocations over lists, with room for one refill of each CPU. -/
theorem RoomInv.reachable {pool : Qmempool N E} {es : List E} {t : State N E (BoundedList E)}
    (hcreated : pool.Created localqSz sharedqSz es) (hlocal : bulk ≤ localqSz)
    (hroom : bulk * refillMultiplier * N ≤ sharedqSz)
    (hreach : Reachable (QMempool.step listOps wait) (fun _ a => a.allocates)
      (startLists localqSz sharedqSz es) t) :
    RoomInv t ∧ ∀ c, (t.pc c).bug? ≠ some .sharedqRoom := by
  obtain ⟨-, hsize⟩ := hcreated.bounds
  refine hreach.invariant' (P := fun t => RoomInv t ∧ ∀ c, (t.pc c).bug? ≠ some .sharedqRoom)
    ⟨⟨fun _ => trivial, .inl fun _ => rfl⟩, fun _ h => by cases h⟩ ?_
  rintro t a t' hreach ⟨hinv, hno⟩ ha hs
  have hbase := BaseInv.reachable hcreated hlocal hreach
  refine ⟨hinv.step hbase hlocal hsize ha hs, ?_⟩
  cases a with
  | free => cases ha
  | alloc c gfp stack =>
    obtain ⟨-, rfl⟩ := step_alloc_eq_some.mp hs
    refine (State.frame_goto _).forall_pc (P := fun pc => pc.bug? ≠ some .sharedqRoom) hno ?_
    rw [State.goto_pc_self]
    exact fun h => by cases h
  | run c slab =>
    exact (hbase.move hlocal hsize hs).2.forall_pc (P := fun pc => pc.bug? ≠ some .sharedqRoom) hno
      (hinv.no_sharedqRoom hbase hlocal hsize hroom hs)

/-- **There is always room exactly when the shared queue holds a refill of each CPU.** A slab that
never fails has elements without end. -/
theorem sharedq_room_iff [Infinite E] {env : CreateEnv N E}
    {localqSz sharedqSz prealloc gfpMask : UInt32} {pool : Qmempool N E} {events : List (Event N E)}
    (hcreate : qmempoolCreate env localqSz sharedqSz prealloc gfpMask = some (some pool, events))
    (wait : UInt32) :
    RoomAlways wait pool (allocated events) ↔
      bulk * refillMultiplier * N ≤ sharedqSz.toNat := by
  obtain ⟨hsizes, hcreated, -⟩ := created_of_create hcreate
  obtain ⟨hes, hsize⟩ := hcreated.bounds
  constructor
  · intro halways
    by_contra hless
    -- a power of two from 32 on is a number of refills
    obtain ⟨m, hm⟩ : bulk * refillMultiplier ∣ sharedqSz.toNat := by
      obtain ⟨k, hk⟩ := hsizes.shared_pow
      have hle := hsizes.refill_le
      rw [show bulk * refillMultiplier = 2 ^ 5 from rfl] at hle ⊢
      rw [hk] at hle ⊢
      exact pow_dvd_pow 2 ((Nat.pow_le_pow_iff_right (by decide)).mp hle)
    have hN : m < N := by
      rw [hm] at hless
      exact Nat.lt_of_mul_lt_mul_left (Nat.lt_of_not_le hless)
    obtain ⟨t, hreach, c, hbug⟩ := exists_sharedqRoom wait hsizes.bulk_le hsize hes hm hN
    obtain ⟨s, hreach', hrel⟩ : ∃ s, Reachable (step ptrOps wait) (fun _ a => a.allocates)
        (pool.start (allocated events)) s ∧ Rel s t :=
      lists_refine (fun _ _ _ _ h => h) hcreated.rel hreach
    rw [← hrel.pc] at hbug
    exact halways s hreach' c hbug
  · intro hroom s hreach c
    obtain ⟨t, hreach', hrel⟩ : ∃ t, Reachable (step listOps wait) (fun _ a => a.allocates)
        (startLists localqSz.toNat sharedqSz.toNat (allocated events)) t ∧ Rel s t :=
      refines_lists (fun _ _ _ _ h => h) hcreated.rel hreach
    rw [hrel.pc]
    exact (RoomInv.reachable hcreated hsizes.bulk_le hroom hreach').2 c

/-- Two CPUs on a shared queue of 64 elements. -/
theorem sharedq_room_iff_two :
    ∃ pool events, qmempoolCreate (.plenty 2) 16 64 0 0 = some (some pool, events) ∧
      (RoomAlways 0x10 pool (allocated events) ↔ bulk * refillMultiplier * 2 ≤ 64) := by
  obtain ⟨pool, events, hcreate⟩ :
      ∃ pool events, qmempoolCreate (.plenty 2) 16 64 0 0 = some (some pool, events) :=
    ⟨_, _, rfl⟩
  exact ⟨pool, events, hcreate, sharedq_room_iff hcreate 0x10⟩

/-- CPUs `i` and `j` see an empty shared queue, CPU `j` adds its refill, and CPU `i` collects a
batch. -/
def twoRefills (i j : Fin N) : List (Action N ℕ) :=
  [.alloc i 0 fun _ => none, .run i (some 0), .run i (some 0),
    .alloc j 0 fun _ => none, .run j (some 0), .run j (some 0)] ++
  -- one element to return, and two rounds of a batch and its enqueue
  (List.range 35).map (fun x => .run j (some x)) ++
  (List.range 18).map fun x => .run i (some (35 + x))

/-- **The assertion can fire**: the shared queue has 32 slots, which the refill of CPU 1 takes. -/
theorem sharedq_room_violated :
    ∃ pool events, qmempoolCreate (.plenty 2) 16 32 0 0 = some (some pool, events) ∧
      ¬ RoomAlways 0x10 pool (allocated events) := by
  have hrun : (createAndRun (.plenty 2) 16 32 0 0x10 (fun _ a => a.allocates)
      (twoRefills 0 1)).any (fun s => (s.pc 0).bug? = some .sharedqRoom) := by decide +kernel
  obtain ⟨s, hs, hbug⟩ := (Option.any_eq_true _ _).mp hrun
  obtain ⟨pool, events, hcreate, hreach⟩ := reachable_of_createAndRun hs
  exact ⟨pool, events, hcreate, fun halways => halways s hreach 0 (of_decide_eq_true hbug)⟩

end RoomAlways

end QMempool
