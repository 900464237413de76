import PrototypeKernel.RingQueue.Settled
import PrototypeKernel.Foundation.BatchCopy

/-! # The slots that are accessed

`ring_queue_create()` allocates `count` slots, and the calls on the ring stay inside of them for
every positive count. `POWEROF2()` accepts 0 as well, and a ring without slots has a mask of all
ones: the first item goes behind the end of its memory. -/

namespace RingQueue

open CopyLoop KernelInt CallSequence

variable {α : Type*} {r : RingQueue α}

/-- The slots that `ENQUEUE_PTRS()` or `DEQUEUE_PTRS()` accesses in a call, in program order. -/
def callSlots (r : RingQueue α) : Call α → List ℕ
  | .enqueue _ behavior _ n =>
      match enqueueGrant n (r.prod.mask + r.cons.tail - r.prod.head) behavior with
      | .error _ => []
      | .ok n => (ptrsAccesses r.prod.size r.prod.mask r.prod.head n).map Prod.fst
  | .dequeue _ behavior _ n =>
      match dequeueGrant n (r.prod.tail - r.cons.head) behavior with
      | .error _ => []
      | .ok n => (ptrsAccesses r.cons.size r.prod.mask r.cons.head n).map Prod.fst

/-- The slots that a sequence of calls accesses. -/
def runSlots : RingQueue α → List (Call α) → List ℕ
  | _, [] => []
  | r, c :: cs =>
      r.callSlots c ++
        match r.call c with
        | none => []
        | some (r, _) => runSlots r cs

/-- A call changes none of the other slots. -/
theorem ring_call_of_notMem {c : Call α} {out : RingQueue α × (ℕ → α) × ℤ} (h : r.Settled)
    (hcall : r.call c = some out) {slot : ℕ} (hslot : slot ∉ r.callSlots c) :
    out.1.ring slot = r.ring slot := by
  cases c with
  | enqueue variant behavior objTable n =>
    rw [h.call_enqueue] at hcall
    cases hcall
    rw [callSlots] at hslot
    unfold ringQueueSpDoEnqueue
    cases hgrant : enqueueGrant n (r.prod.mask + r.cons.tail - r.prod.head) behavior with
    | error ret => simp only [hgrant]
    | ok k =>
      simp only [hgrant] at hslot ⊢
      exact storeAll_of_notMem hslot objTable r.ring
  | dequeue variant behavior objTable n =>
    rw [h.call_dequeue] at hcall
    cases hcall
    unfold ringQueueScDoDequeue
    dsimp only
    cases dequeueGrant n (r.prod.tail - r.cons.head) behavior <;> rfl

/-! ## A ring with slots -/

/-- The accesses of a batch of a well-sized ring, from any head. -/
theorem WellSized.ptrsAccesses_eq (h : r.WellSized) (head : UInt32) {n : UInt32}
    (hn : n.toNat ≤ r.prod.size.toNat) :
    ptrsAccesses r.prod.size r.prod.mask head n = batch r.prod.size.toNat head.toNat n.toNat := by
  obtain ⟨k, hk, hsize⟩ := h.pow
  have haccesses := RingQueue.ptrsAccesses_eq hk hsize h.mask_eq head.toNat hn
  rwa [UInt32.ofNat_toNat] at haccesses

/-- A call on a list accesses slots of the ring. -/
theorem Represents.lt_of_mem_callSlots {count : ℕ} {xs : List α} (h : Represents count r xs)
    {c : Call α} {slot : ℕ} (hslot : slot ∈ r.callSlots c) : slot < count := by
  have hmask := h.mask_eq
  have hsize := h.count_eq
  -- a batch of that many items fits into the ring
  have hbatch {head n : UInt32} (hn : n.toNat ≤ count)
      (hmem : slot ∈ (ptrsAccesses r.prod.size r.prod.mask head n).map Prod.fst) :
      slot < count := by
    rw [h.sized.ptrsAccesses_eq head (by omega), hsize] at hmem
    obtain ⟨a, ha, rfl⟩ := List.mem_map.mp hmem
    rw [(mem_batch.mp ha).2]
    exact Nat.mod_lt _ h.count_le.1
  cases c with
  | enqueue variant behavior objTable n =>
    rw [callSlots] at hslot
    cases hgrant : enqueueGrant n (r.prod.mask + r.cons.tail - r.prod.head) behavior with
    | error ret => simp [hgrant] at hslot
    | ok k =>
      simp only [hgrant] at hslot
      have hle := UInt32.le_iff_toNat_le.mp (le_of_enqueueGrant hgrant)
      have hfree := h.freeEntries
      exact hbatch (by omega) hslot
  | dequeue variant behavior objTable n =>
    rw [callSlots] at hslot
    cases hgrant : dequeueGrant n (r.prod.tail - r.cons.head) behavior with
    | error ret => simp [hgrant] at hslot
    | ok k =>
      simp only [hgrant, h.sized.cons_size] at hslot
      have hle := UInt32.le_iff_toNat_le.mp (le_of_dequeueGrant hgrant)
      have hentries := h.entries
      have hlen := h.length_le
      exact hbatch (by omega) hslot

/-- Every run of calls on a list accesses slots of the ring. -/
theorem Represents.lt_of_mem_runSlots {count : ℕ} {xs : List α} (h : Represents count r xs)
    {calls : List (Call α)} {slot : ℕ} (hslot : slot ∈ runSlots r calls) : slot < count := by
  induction calls generalizing r xs with
  | nil => cases hslot
  | cons c cs ih =>
    obtain ⟨r', hcall, hrep⟩ := simulates_boundedList count r xs c h
    rw [runSlots, hcall] at hslot
    rcases List.mem_append.mp hslot with hslot | hslot
    · exact h.lt_of_mem_callSlots hslot
    · exact ih hrep hslot

/-! ## A ring without slots -/

/-- A ring created for no slots in which nothing has been enqueued yet. -/
structure Slotless (r : RingQueue α) : Prop where
  settled : r.Settled
  used_eq : r.used = 0
  mask_eq : r.prod.mask = 0xffffffff
  prod_size : r.prod.size = 0
  cons_size : r.cons.size = 0
  idx_eq : r.prod.head &&& r.prod.mask = 0

/-- A ring that is created with a count of 0 has no slots. -/
theorem slotless_of_create {null : α} {flags : UInt32} {pages : Bool}
    (h : ringQueueCreate null 0 flags pages = some r) : r.Slotless := by
  obtain ⟨hsettled, hused⟩ := settled_of_create h
  obtain ⟨-, rfl⟩ := ringQueueCreate_eq_some.mp h
  exact ⟨hsettled, hused, rfl, rfl, rfl, show (0 : UInt32) &&& (0 - 1) = 0 by decide⟩

/-- A call that moves no item keeps such a ring. -/
theorem Slotless.congr (h : r.Slotless) {r' : RingQueue α} (hsettled : r'.Settled)
    (hused : r'.used = 0) (hhead : r'.prod.head = r.prod.head) (hmask : r'.prod.mask = r.prod.mask)
    (hprod : r'.prod.size = r.prod.size) (hcons : r'.cons.size = r.cons.size) : r'.Slotless where
  settled := hsettled
  used_eq := hused
  mask_eq := hmask.trans h.mask_eq
  prod_size := hprod.trans h.prod_size
  cons_size := hcons.trans h.cons_size
  idx_eq := by rw [hhead, hmask, h.idx_eq]

/-- The copy macros for no slots write from the start of the ring on. -/
theorem ptrsAccesses_slotless {mask head : UInt32} (hidx : head &&& mask = 0) (n : UInt32) :
    ptrsAccesses 0 mask head n = plainLoop n.toNat 0 0 := by
  unfold ptrsAccesses
  simp only [hidx]
  rw [if_neg (by simp [UInt32.lt_iff_toNat_lt])]
  simp [plainLoop]

/-- A call that brings no item. -/
def Call.BringsNothing : Call α → Prop
  | .enqueue _ _ _ n => n = 0
  | .dequeue .. => True

instance : DecidablePred (Call.BringsNothing : Call α → Prop)
  | .enqueue _ _ _ n => inferInstanceAs (Decidable (n = 0))
  | .dequeue .. => inferInstanceAs (Decidable True)

/-- An enqueue of no items accesses no slot and leaves the ring as it is. -/
theorem Slotless.call_enqueue (h : r.Slotless) (variant : Variant) (behavior : Behavior)
    (objTable : ℕ → α) :
    r.callSlots (.enqueue variant behavior objTable 0) = [] ∧
      ∃ r' out, r.call (.enqueue variant behavior objTable 0) = some (r', out) ∧
        r'.Slotless := by
  have hgrant : enqueueGrant 0 (r.prod.mask + r.cons.tail - r.prod.head) behavior = .ok 0 :=
    enqueueGrant_of_le (UInt32.le_iff_toNat_le.mpr (Nat.zero_le _)) behavior
  obtain ⟨k, hk, hprod, hcons, -⟩ := h.settled.enqueue objTable 0 behavior
  have hzero : k.toNat = 0 := by
    rw [hk]
    cases behavior <;> simp [toMove]
  obtain ⟨hsettled, hused⟩ := h.settled.used_enqueue (by omega) hprod hcons
  have hhead : r.prod.head + k = r.prod.head := by
    rw [UInt32.toNat_inj.mp (show k.toNat = (0 : UInt32).toNat from hzero), UInt32.add_zero]
  refine ⟨?_, _, _, h.settled.call_enqueue variant behavior objTable 0, h.congr hsettled
    (by rw [hused, h.used_eq, hzero]) (by rw [hprod]; exact hhead) (by rw [hprod])
    (by rw [hprod]) (by rw [hcons])⟩
  simp only [callSlots, hgrant, h.prod_size, ptrsAccesses_slotless h.idx_eq]
  rfl

/-- So does a dequeue: there is no entry to take. -/
theorem Slotless.call_dequeue (h : r.Slotless) (variant : Variant) (behavior : Behavior)
    (objTable : ℕ → α) (n : UInt32) :
    r.callSlots (.dequeue variant behavior objTable n) = [] ∧
      ∃ r' out, r.call (.dequeue variant behavior objTable n) = some (r', out) ∧
        r'.Slotless := by
  obtain ⟨k, hk, hprod, hcons⟩ := h.settled.dequeue objTable n behavior
  have hzero : k.toNat = 0 := by
    have hle := toMove_le r.used n.toNat behavior
    rw [h.used_eq] at hle hk
    omega
  obtain ⟨hsettled, hused⟩ := h.settled.used_dequeue (by omega) hprod hcons
  refine ⟨?_, (r.ringQueueScDoDequeue objTable n behavior).1,
    (r.ringQueueScDoDequeue objTable n behavior).2,
    h.settled.call_dequeue variant behavior objTable n, h.congr hsettled
    (by rw [hused, h.used_eq, hzero]) (by rw [hprod]) (by rw [hprod]) (by rw [hprod])
    (by rw [hcons])⟩
  have hentries := h.settled.entries
  rw [h.used_eq] at hentries
  cases hgrant : dequeueGrant n (r.prod.tail - r.cons.head) behavior with
  | error ret => simp only [callSlots, hgrant]
  | ok k =>
    have hle := UInt32.le_iff_toNat_le.mp (le_of_dequeueGrant hgrant)
    have hk0 : k = 0 := UInt32.toNat_inj.mp (show k.toNat = 0 by omega)
    have hidx : r.cons.head &&& r.prod.mask = 0 := by
      have hheads := Cyclic.toNat_sub_eq_zero.mp h.used_eq
      rw [hheads, h.idx_eq]
    simp only [callSlots, hgrant, h.cons_size, ptrsAccesses_slotless hidx, hk0]
    rfl

/-- A call that brings nothing touches no slot of a ring without slots. -/
theorem Slotless.call_of_bringsNothing (h : r.Slotless) {c : Call α} (hc : c.BringsNothing) :
    r.callSlots c = [] ∧ ∃ r' out, r.call c = some (r', out) ∧ r'.Slotless := by
  cases c with
  | enqueue variant behavior objTable n =>
    cases (show n = 0 from hc)
    exact h.call_enqueue variant behavior objTable
  | dequeue variant behavior objTable n => exact h.call_dequeue variant behavior objTable n

/-- The first item is written to slot 0. -/
theorem Slotless.zero_mem_callSlots (h : r.Slotless) {c : Call α} (hc : ¬ c.BringsNothing) :
    0 ∈ r.callSlots c := by
  cases c with
  | dequeue variant behavior objTable n => exact absurd trivial hc
  | enqueue variant behavior objTable n =>
    have hfree : r.prod.mask + r.cons.tail - r.prod.head = 0xffffffff := by
      rw [← UInt32.toNat_inj, h.settled.freeEntries, h.used_eq, h.mask_eq]
      rfl
    have hgrant : enqueueGrant n (r.prod.mask + r.cons.tail - r.prod.head) behavior = .ok n := by
      rw [hfree]
      exact enqueueGrant_of_le (UInt32.le_iff_toNat_le.mpr (Nat.le_pred_of_lt n.toNat_lt)) behavior
    obtain ⟨k, hk⟩ : ∃ k, n.toNat = k + 1 :=
      ⟨n.toNat - 1, by have := Cyclic.toNat_pos (show n ≠ 0 from hc); omega⟩
    simp only [callSlots, hgrant, h.prod_size, ptrsAccesses_slotless h.idx_eq, hk, plainLoop]
    exact List.mem_cons_self

/-- A run on a ring without slots accesses slot 0, unless all of its calls bring nothing. -/
theorem Slotless.runSlots_iff (h : r.Slotless) (calls : List (Call α)) :
    (∀ slot ∈ runSlots r calls, slot < 0) ↔ ∀ c ∈ calls, c.BringsNothing := by
  induction calls generalizing r with
  | nil => simp [runSlots]
  | cons c cs ih =>
    rw [List.forall_mem_cons]
    by_cases hc : c.BringsNothing
    · obtain ⟨hslots, r', out, hcall, hr'⟩ := h.call_of_bringsNothing hc
      rw [runSlots, hslots, hcall, List.nil_append, and_iff_right hc]
      exact ih hr'
    · refine iff_of_false (fun hall => ?_) fun hboth => hc hboth.1
      exact absurd (hall 0 (List.mem_append_left _ (h.zero_mem_callSlots hc))) (Nat.lt_irrefl 0)

/-- **When every access is inside the slots that were allocated**: there are slots, or no call
brings an item. -/
theorem runSlots_lt_iff {null : α} {count flags : UInt32} {pages : Bool}
    (hcreate : ringQueueCreate null count flags pages = some r) (calls : List (Call α)) :
    (∀ slot ∈ runSlots r calls, slot < count.toNat) ↔
      1 ≤ count ∨ ∀ c ∈ calls, c.BringsNothing := by
  by_cases hcount : 1 ≤ count
  · have hrep := represents_of_create hcreate hcount
    exact iff_of_true (fun slot hslot => hrep.lt_of_mem_runSlots hslot) (.inl hcount)
  · cases eq_zero_of_not_one_le hcount
    rw [or_iff_right hcount]
    exact (slotless_of_create hcreate).runSlots_iff calls

/-- Three calls on a ring of four slots. -/
theorem runSlots_lt_iff_four :
    (∀ slot ∈ runSlots fourSlots [.enqueue .multi .ringQueueFixed id 3,
        .dequeue .single .ringQueueVariable id 5, .enqueue .byFlags .ringQueueVariable id 9],
      slot < 4) ↔
      (1 : UInt32) ≤ 4 ∨ ∀ c ∈ [Call.enqueue .multi .ringQueueFixed id 3,
        .dequeue .single .ringQueueVariable id 5, .enqueue .byFlags .ringQueueVariable id 9],
        (c : Call ℕ).BringsNothing :=
  runSlots_lt_iff (show ringQueueCreate 0 4 0 true = some fourSlots from rfl) _

/-- A ring of no slots. -/
def noSlots : RingQueue ℕ :=
  ⟨0, ⟨0, false, 0, 0xffffffff, 0, 0⟩, ⟨false, 0, 0xffffffff, 0, 0⟩, fun _ => 0⟩

/-- **A ring of no slots is created, and written to.** -/
theorem not_runSlots_lt_noSlots :
    ringQueueCreate 0 0 0 true = some noSlots ∧
      ¬ ∀ slot ∈ runSlots noSlots [.enqueue .multi .ringQueueFixed id 1], slot < 0 := by
  refine ⟨rfl, fun hall => ?_⟩
  exact absurd (hall 0 (by decide)) (Nat.lt_irrefl 0)

end RingQueue
