import PrototypeKernel.RingQueue.Discipline
import PrototypeKernel.Foundation.CallSequence

/-! # Non-overlapping calls: a bounded FIFO list

One call at a time, in any mixture of the transfer routines and behaviors, a `RingQueue` created for
`count` slots is a list of at most `count - 1` pointers. A fixed call moves all of its items or
none, a variable one as many as possible. With the watermark left at its default the quota is never
reported. -/

namespace RingQueue

open ReserveRing KernelInt CallSequence Cyclic

variable {α : Type*}

/-- Which routine a call runs: the multi or the single one, or the one selected at creation. -/
inductive Variant where
  | multi
  | single
  | byFlags
  deriving DecidableEq, Repr

/-- An enqueue or a dequeue with its table: `ring_queue_{mp_,sp_,}enqueue_{bulk,burst}()` and
`ring_queue_{mc_,sc_,}dequeue_{bulk,burst}()`, where bulk is the fixed behavior and burst the
variable one. -/
inductive Call (α : Type*) where
  | enqueue (variant : Variant) (behavior : Behavior) (objTable : ℕ → α) (n : UInt32)
  | dequeue (variant : Variant) (behavior : Behavior) (objTable : ℕ → α) (n : UInt32)

/-- The single-producer routine is run by name, or by the flag `sp_enqueue`. -/
def useSp (r : RingQueue α) : Variant → Bool
  | .multi => false
  | .single => true
  | .byFlags => r.prod.spEnqueue

/-- The single-consumer routine is run by name, or by the flag `sc_dequeue`. -/
def useSc (r : RingQueue α) : Variant → Bool
  | .multi => false
  | .single => true
  | .byFlags => r.cons.scDequeue

/-- Run a call. The caller gets its table back and the returned value. -/
def call (r : RingQueue α) : Call α → Option (RingQueue α × (ℕ → α) × ℤ)
  | .enqueue variant behavior objTable n =>
      (if r.useSp variant then some (r.ringQueueSpDoEnqueue objTable n behavior)
        else r.ringQueueMpDoEnqueue objTable n behavior).map fun v => (v.1, objTable, v.2)
  | .dequeue variant behavior objTable n =>
      if r.useSc variant then some (r.ringQueueScDoDequeue objTable n behavior)
      else r.ringQueueMcDoDequeue objTable n behavior

/-! ## The bounded list -/

/-- Enqueue into a list of at most `capacity` pointers. -/
def listEnqueue (capacity : ℕ) (xs : List α) (objTable : ℕ → α) (n : ℕ) :
    Behavior → List α × (ℕ → α) × ℤ
  | .ringQueueFixed =>
      if xs.length + n ≤ capacity then (xs ++ (List.range n).map objTable, objTable, 0)
      else (xs, objTable, -enobufs)
  | .ringQueueVariable =>
      let k := min n (capacity - xs.length)
      (xs ++ (List.range k).map objTable, objTable, k)

/-- Dequeue the first pointers into the caller's table. -/
def listDequeue (xs : List α) (objTable : ℕ → α) (n : ℕ) : Behavior → List α × (ℕ → α) × ℤ
  | .ringQueueFixed =>
      if n ≤ xs.length then (xs.drop n, writeFront (xs.take n) objTable, 0)
      else (xs, objTable, -enoent)
  | .ringQueueVariable =>
      let k := min n xs.length
      (xs.drop k, writeFront (xs.take k) objTable, k)

/-- What a call does to the bounded list and returns, whichever variant it is. -/
def boundedList (capacity : ℕ) (xs : List α) : Call α → List α × (ℕ → α) × ℤ
  | .enqueue _ behavior objTable n => listEnqueue capacity xs objTable n.toNat behavior
  | .dequeue _ behavior objTable n => listDequeue xs objTable n.toNat behavior

/-! ## The refinement -/

/-- The ring `r` **represents** the list `xs`, with its watermark at the default. -/
structure Represents (count : ℕ) (r : RingQueue α) (xs : List α) : Prop where
  sized : r.WellSized
  count_eq : r.prod.size.toNat = count
  watermark : r.prod.watermark = r.prod.size
  holds : Holds r.discipline r.shared xs

/-- A new ring represents the empty list. -/
theorem represents_of_create {null : α} {count flags : UInt32} {pages : Bool} {r : RingQueue α}
    (h : ringQueueCreate null count flags pages = some r) (hcount : 1 ≤ count) :
    Represents count.toNat r [] := by
  have hsized := wellSized_of_create h hcount
  obtain ⟨-, rfl⟩ := ringQueueCreate_eq_some.mp h
  refine ⟨hsized, rfl, rfl, Holds.init _ (fun sd => ?_) fun sd => ?_⟩ <;> cases sd <;> rfl

/-- Other slots and indices that hold a list make the ring represent it. -/
theorem Represents.withShared {count : ℕ} {r : RingQueue α} {xs ys : List α}
    (h : Represents count r xs) {m : Shared α} (hm : Holds r.discipline m ys) :
    Represents count (r.withShared m) ys where
  sized := ⟨h.sized.pow, h.sized.le, h.sized.mask_eq, h.sized.cons_size⟩
  count_eq := h.count_eq
  watermark := h.watermark
  holds := by rw [discipline_withShared, shared_withShared]; exact hm

/-- The mask is one less than the count. -/
theorem Represents.mask_eq {count : ℕ} {r : RingQueue α} {xs : List α}
    (h : Represents count r xs) : r.prod.mask.toNat = count - 1 := by
  rw [h.sized.mask_eq, h.count_eq]

/-- A ring holds at most `count - 1` pointers. -/
theorem Represents.length_le {count : ℕ} {r : RingQueue α} {xs : List α}
    (h : Represents count r xs) : xs.length ≤ count - 1 := by
  rw [← h.mask_eq]
  exact h.holds.length_le

/-- The count is positive, and at most 2^28. -/
theorem Represents.count_le {count : ℕ} {r : RingQueue α} {xs : List α}
    (h : Represents count r xs) : 0 < count ∧ count ≤ 2 ^ 28 := by
  rw [← h.count_eq]
  exact ⟨h.sized.pos, h.sized.le⟩

/-- The free entries a caller computes are the room of the list. -/
theorem Represents.freeEntries {count : ℕ} {r : RingQueue α} {xs : List α}
    (h : Represents count r xs) :
    (r.prod.mask + r.cons.tail - r.prod.head).toNat = count - 1 - xs.length := by
  obtain ⟨c, hc⟩ := h.holds
  have havail := hc.avail_toNat h.sized.lawful .producer
  rw [← h.mask_eq]
  exact havail

/-- The entries a caller computes are the length of the list. -/
theorem Represents.entries {count : ℕ} {r : RingQueue α} {xs : List α} (h : Represents count r xs) :
    (r.prod.tail - r.cons.head).toNat = xs.length := by
  obtain ⟨c, hc⟩ := h.holds
  exact hc.avail_toNat h.sized.lawful .consumer

/-- The default watermark is never exceeded. -/
theorem Represents.enqueueRet {count : ℕ} {r : RingQueue α} {xs : List α}
    (h : Represents count r xs) {n : UInt32}
    (hn : n ≤ r.prod.mask + r.cons.tail - r.prod.head) (behavior : Behavior) :
    RingQueue.enqueueRet r.prod n (r.prod.mask + r.cons.tail - r.prod.head) behavior
      = dequeueRet n behavior := by
  have hfree := h.freeEntries
  have hmask := h.mask_eq
  obtain ⟨hpos, hcount⟩ := h.count_le
  have hn := UInt32.le_iff_toNat_le.mp hn
  have hsize : (r.prod.mask + 1).toNat = count := by
    rw [UInt32.toNat_add, hmask, UInt32.toNat_one]
    omega
  -- `count - free_entries + n`, without wrapping
  have hquota :
      (r.prod.mask + 1 - (r.prod.mask + r.cons.tail - r.prod.head) + n).toNat ≤ count := by
    rw [UInt32.toNat_add, UInt32.toNat_sub, hsize, hfree]
    omega
  unfold RingQueue.enqueueRet
  rw [if_neg (UInt32.not_lt.mpr (UInt32.le_iff_toNat_le.mpr (by
    rw [h.watermark, h.count_eq]; exact hquota)))]
  rfl

/-- The value returned for a batch of `k` items. -/
theorem dequeueRet_eq {n : UInt32} (hn : n.toNat < 2 ^ 31) (behavior : Behavior) :
    dequeueRet n behavior = match behavior with
      | .ringQueueFixed => 0
      | .ringQueueVariable => (n.toNat : ℤ) := by
  cases behavior with
  | ringQueueFixed => rfl
  | ringQueueVariable => exact intOfU32_eq hn

/-- A granted enqueue appends what it is granted. -/
theorem Represents.granted_enqueue {count : ℕ} {r : RingQueue α} {xs : List α}
    (h : Represents count r xs) (objTable : ℕ → α) {n k : UInt32} {behavior : Behavior}
    (hgrant : enqueueGrant n (r.prod.mask + r.cons.tail - r.prod.head) behavior = .ok k) :
    (r.ringQueueSpDoEnqueue objTable n behavior).2 = dequeueRet k behavior ∧
      Represents count (r.ringQueueSpDoEnqueue objTable n behavior).1
        (xs ++ (List.range k.toNat).map objTable) := by
  rw [(ringQueueSpDoEnqueue_eq_solo r objTable n behavior).1]
  obtain ⟨-, hholds, -, hresult⟩ :=
    h.holds.solo_producer h.sized.lawful ⟨n, behavior⟩ objTable hgrant
  exact ⟨hresult.trans (h.enqueueRet (le_of_enqueueGrant hgrant) behavior), h.withShared hholds⟩

/-- A granted dequeue removes what it is granted. -/
theorem Represents.granted_dequeue {count : ℕ} {r : RingQueue α} {xs : List α}
    (h : Represents count r xs) (objTable : ℕ → α) {n k : UInt32} {behavior : Behavior}
    (hgrant : dequeueGrant n (r.prod.tail - r.cons.head) behavior = .ok k) :
    (r.ringQueueScDoDequeue objTable n behavior).2
        = (writeFront (xs.take k.toNat) objTable, dequeueRet k behavior) ∧
      Represents count (r.ringQueueScDoDequeue objTable n behavior).1 (xs.drop k.toNat) := by
  rw [ringQueueScDoDequeue_eq_solo]
  obtain ⟨-, hholds, hptr, hresult⟩ :=
    h.holds.solo_consumer h.sized.lawful ⟨n, behavior⟩ objTable hgrant
  exact ⟨Prod.ext hptr hresult, h.withShared hholds⟩

/-- **The enqueue routine refines the bounded list.** -/
theorem Represents.ringQueueSpDoEnqueue {count : ℕ} {r : RingQueue α} {xs : List α}
    (h : Represents count r xs) (objTable : ℕ → α) (n : UInt32) (behavior : Behavior) :
    let spec := listEnqueue (count - 1) xs objTable n.toNat behavior
    (r.ringQueueSpDoEnqueue objTable n behavior).2 = spec.2.2 ∧ objTable = spec.2.1 ∧
      Represents count (r.ringQueueSpDoEnqueue objTable n behavior).1 spec.1 := by
  have hfree := h.freeEntries
  have hlen := h.length_le
  have hcount := h.count_le
  by_cases hfit : n ≤ r.prod.mask + r.cons.tail - r.prod.head
  · obtain ⟨hret, hrep⟩ := h.granted_enqueue objTable (enqueueGrant_of_le hfit behavior)
    have hfit := UInt32.le_iff_toNat_le.mp hfit
    rw [dequeueRet_eq (by omega)] at hret
    cases behavior with
    | ringQueueFixed =>
      simp only [listEnqueue, if_pos (by omega : xs.length + n.toNat ≤ count - 1)]
      exact ⟨hret, trivial, hrep⟩
    | ringQueueVariable =>
      simp only [listEnqueue, Nat.min_eq_left (by omega : n.toNat ≤ count - 1 - xs.length)]
      exact ⟨hret, trivial, hrep⟩
  · -- less room than asked for: a fixed call is refused, a variable one fills the ring
    have hover : n > r.prod.mask + r.cons.tail - r.prod.head := UInt32.not_le.mp hfit
    have hover' := UInt32.lt_iff_toNat_lt.mp hover
    cases behavior with
    | ringQueueFixed =>
      have hgrant : enqueueGrant n (r.prod.mask + r.cons.tail - r.prod.head) .ringQueueFixed
          = .error (-enobufs) := if_pos hover
      simp only [listEnqueue, if_neg (by omega : ¬ xs.length + n.toNat ≤ count - 1),
        RingQueue.ringQueueSpDoEnqueue, hgrant]
      exact ⟨trivial, trivial, h⟩
    | ringQueueVariable =>
      simp only [listEnqueue, Nat.min_eq_right (by omega : count - 1 - xs.length ≤ n.toNat)]
      by_cases hnone : r.prod.mask + r.cons.tail - r.prod.head = 0
      · have hgrant : enqueueGrant n (r.prod.mask + r.cons.tail - r.prod.head) .ringQueueVariable
            = .error 0 := by rw [enqueueGrant, if_pos hover]; exact if_pos hnone
        have hzero : count - 1 - xs.length = 0 := by rw [← hfree, hnone]; rfl
        simp only [RingQueue.ringQueueSpDoEnqueue, hgrant, hzero, List.range_zero, List.map_nil,
          List.append_nil]
        exact ⟨rfl, trivial, h⟩
      · have hgrant : enqueueGrant n (r.prod.mask + r.cons.tail - r.prod.head) .ringQueueVariable
            = .ok (r.prod.mask + r.cons.tail - r.prod.head) := by
          rw [enqueueGrant, if_pos hover]; exact if_neg hnone
        obtain ⟨hret, hrep⟩ := h.granted_enqueue objTable hgrant
        rw [dequeueRet_eq (by omega), hfree] at hret
        rw [hfree] at hrep
        exact ⟨hret, trivial, hrep⟩

/-- **The dequeue routine refines the bounded list.** -/
theorem Represents.ringQueueScDoDequeue {count : ℕ} {r : RingQueue α} {xs : List α}
    (h : Represents count r xs) (objTable : ℕ → α) (n : UInt32) (behavior : Behavior) :
    let spec := listDequeue xs objTable n.toNat behavior
    (r.ringQueueScDoDequeue objTable n behavior).2 = spec.2 ∧
      Represents count (r.ringQueueScDoDequeue objTable n behavior).1 spec.1 := by
  have hentries := h.entries
  have hlen := h.length_le
  have hcount := h.count_le
  by_cases hfit : n ≤ r.prod.tail - r.cons.head
  · obtain ⟨hret, hrep⟩ := h.granted_dequeue objTable (dequeueGrant_of_le hfit behavior)
    have hfit := UInt32.le_iff_toNat_le.mp hfit
    rw [dequeueRet_eq (by omega)] at hret
    cases behavior with
    | ringQueueFixed =>
      simp only [listDequeue, if_pos (by omega : n.toNat ≤ xs.length)]
      exact ⟨hret, hrep⟩
    | ringQueueVariable =>
      simp only [listDequeue, Nat.min_eq_left (by omega : n.toNat ≤ xs.length)]
      exact ⟨hret, hrep⟩
  · -- fewer entries than asked for: a fixed call is refused, a variable one takes them all
    have hover : n > r.prod.tail - r.cons.head := UInt32.not_le.mp hfit
    have hover' := UInt32.lt_iff_toNat_lt.mp hover
    cases behavior with
    | ringQueueFixed =>
      have hgrant : dequeueGrant n (r.prod.tail - r.cons.head) .ringQueueFixed
          = .error (-enoent) := if_pos hover
      simp only [listDequeue, if_neg (by omega : ¬ n.toNat ≤ xs.length),
        RingQueue.ringQueueScDoDequeue, hgrant]
      exact ⟨trivial, h⟩
    | ringQueueVariable =>
      simp only [listDequeue, Nat.min_eq_right (by omega : xs.length ≤ n.toNat)]
      by_cases hnone : r.prod.tail - r.cons.head = 0
      · have hgrant : dequeueGrant n (r.prod.tail - r.cons.head) .ringQueueVariable = .error 0 := by
          rw [dequeueGrant, if_pos hover]; exact if_pos hnone
        have hzero : xs = [] := List.length_eq_zero_iff.mp (by rw [← hentries, hnone]; rfl)
        subst hzero
        simp only [RingQueue.ringQueueScDoDequeue, hgrant]
        exact ⟨rfl, h⟩
      · have hgrant : dequeueGrant n (r.prod.tail - r.cons.head) .ringQueueVariable
            = .ok (r.prod.tail - r.cons.head) := by
          rw [dequeueGrant, if_pos hover]; exact if_neg hnone
        obtain ⟨hret, hrep⟩ := h.granted_dequeue objTable hgrant
        rw [dequeueRet_eq (by omega), hentries] at hret
        rw [hentries] at hrep
        exact ⟨hret, hrep⟩

/-- In a ring that represents a list, the multi and the single routines agree. -/
theorem Represents.variants_agree {count : ℕ} {r : RingQueue α} {xs : List α}
    (h : Represents count r xs) (objTable : ℕ → α) (n : UInt32) (behavior : Behavior) :
    r.ringQueueMpDoEnqueue objTable n behavior = some (r.ringQueueSpDoEnqueue objTable n behavior) ∧
      r.ringQueueMcDoDequeue objTable n behavior
        = some (r.ringQueueScDoDequeue objTable n behavior) :=
  ⟨ringQueueMpDoEnqueue_eq (h.holds.tail_eq_head .producer) objTable n behavior,
    ringQueueMcDoDequeue_eq (h.holds.tail_eq_head .consumer) objTable n behavior⟩

/-- **Each call refines the bounded list.** -/
theorem simulates_boundedList (count : ℕ) :
    Simulates (call : RingQueue α → _) (boundedList (count - 1)) (Represents count) := by
  intro r xs c h
  cases c with
  | enqueue variant behavior objTable n =>
    obtain ⟨hret, hptr, hrep⟩ := h.ringQueueSpDoEnqueue objTable n behavior
    refine ⟨_, ?_, hrep⟩
    rw [call, (h.variants_agree objTable n behavior).1, ite_self, Option.map_some, hret]
    exact congrArg some (Prod.ext rfl (Prod.ext hptr rfl))
  | dequeue variant behavior objTable n =>
    obtain ⟨hret, hrep⟩ := h.ringQueueScDoDequeue objTable n behavior
    refine ⟨_, ?_, hrep⟩
    rw [call, (h.variants_agree objTable n behavior).2, ite_self]
    exact congrArg some (Prod.ext rfl hret)

/-! ## The observers -/

/-- The count is a power of two, and the mask keeps its residues. -/
theorem Represents.exists_pow {count : ℕ} {r : RingQueue α} {xs : List α}
    (h : Represents count r xs) :
    ∃ k, k < 32 ∧ count = 2 ^ k ∧ r.prod.mask.toNat = 2 ^ k - 1 := by
  obtain ⟨k, hk, hsize⟩ := h.sized.pow
  exact ⟨k, hk, h.count_eq.symm.trans hsize, by rw [h.sized.mask_eq, hsize]⟩

/-- `ring_queue_count()` is the number of pointers. -/
theorem Represents.ringQueueCount {count : ℕ} {r : RingQueue α} {xs : List α}
    (h : Represents count r xs) : r.ringQueueCount.toNat = xs.length := by
  obtain ⟨c, hc⟩ := h.holds
  obtain ⟨k, -, hpow, hmask⟩ := h.exists_pow
  have hlen := h.length_le
  have hcount := h.count_le
  -- the difference of the tails is below `count`, so the mask keeps it
  have hdiff : (r.prod.tail - r.cons.tail).toNat = xs.length := by
    rw [show r.prod.tail = _ from hc.pTail, show r.cons.tail = _ from hc.cTail,
      toNat_ofNat_sub (by omega) (by omega), Nat.add_sub_cancel_left]
  rw [RingQueue.ringQueueCount, toNat_and_mask hmask, hdiff]
  exact Nat.mod_eq_of_lt (by omega)

/-- `ring_queue_free_count()` is the number of free slots. -/
theorem Represents.ringQueueFreeCount {count : ℕ} {r : RingQueue α} {xs : List α}
    (h : Represents count r xs) : r.ringQueueFreeCount.toNat = count - 1 - xs.length := by
  obtain ⟨c, hc⟩ := h.holds
  obtain ⟨k, hk, hpow, hmask⟩ := h.exists_pow
  have hlen := h.length_le
  have hcount := h.count_le
  rw [RingQueue.ringQueueFreeCount, show r.prod.tail = _ from hc.pTail,
    show r.cons.tail = _ from hc.cTail, toNat_sub_sub_one_and_mask (by omega) hmask (by omega),
    hpow]

/-- `ring_queue_full()` tells that there are `count - 1` pointers. -/
theorem Represents.ringQueueFull {count : ℕ} {r : RingQueue α} {xs : List α}
    (h : Represents count r xs) : r.ringQueueFull ↔ xs.length = count - 1 := by
  have hfree := h.ringQueueFreeCount
  have hlen := h.length_le
  -- full is the free count of zero
  have hiff : r.ringQueueFull ↔ r.ringQueueFreeCount.toNat = 0 := by
    rw [RingQueue.ringQueueFull, beq_iff_eq]
    exact UInt32.toNat_inj.symm
  rw [hiff, hfree]
  omega

/-- `ring_queue_empty()` tells that there is no pointer. -/
theorem Represents.ringQueueEmpty {count : ℕ} {r : RingQueue α} {xs : List α}
    (h : Represents count r xs) : r.ringQueueEmpty ↔ xs.length = 0 := by
  have htail : r.cons.tail = r.cons.head := h.holds.tail_eq_head .consumer
  rw [RingQueue.ringQueueEmpty, beq_iff_eq, htail, ← h.entries]
  exact toNat_sub_eq_zero.symm

/-- **Non-overlapping calls on a created ring are calls on a bounded FIFO list** of capacity
`count - 1`. In every state between calls the multi and the single routines agree, and the observers
report the length of the list, its room, and whether it is full or empty. -/
theorem calls_refine_boundedList {null : α} {count flags : UInt32} {pages : Bool} {r : RingQueue α}
    (hcreate : ringQueueCreate null count flags pages = some r) (hcount : 1 ≤ count)
    (calls : List (Call α)) :
    ∃ r' xs results, runAll call r calls = some (r', results) ∧
      specAll (boundedList (count.toNat - 1)) [] calls = (xs, results) ∧
      (∀ objTable n behavior,
        r'.ringQueueMpDoEnqueue objTable n behavior
            = some (r'.ringQueueSpDoEnqueue objTable n behavior) ∧
          r'.ringQueueMcDoDequeue objTable n behavior
            = some (r'.ringQueueScDoDequeue objTable n behavior)) ∧
      r'.ringQueueCount.toNat = xs.length ∧
      r'.ringQueueFreeCount.toNat = count.toNat - 1 - xs.length ∧
      (r'.ringQueueFull ↔ xs.length = count.toNat - 1) ∧ (r'.ringQueueEmpty ↔ xs.length = 0) := by
  obtain ⟨r', hrun, hrep⟩ :=
    (simulates_boundedList count.toNat).runAll calls (represents_of_create hcreate hcount)
  exact ⟨r', _, _, hrun, rfl, hrep.variants_agree, hrep.ringQueueCount, hrep.ringQueueFreeCount,
    hrep.ringQueueFull, hrep.ringQueueEmpty⟩

/-- Three calls on a ring of four slots, of which one is cut and one refused. -/
theorem calls_refine_boundedList_four :
    ∃ r' xs results,
      runAll call fourSlots [.enqueue .multi .ringQueueVariable id 5,
        .enqueue .single .ringQueueFixed id 1, .dequeue .byFlags .ringQueueFixed id 2]
          = some (r', results) ∧
      specAll (boundedList 3) [] [.enqueue .multi .ringQueueVariable id 5,
        .enqueue .single .ringQueueFixed id 1, .dequeue .byFlags .ringQueueFixed id 2]
          = (xs, results) ∧
      (∀ objTable n behavior,
        r'.ringQueueMpDoEnqueue objTable n behavior
            = some (r'.ringQueueSpDoEnqueue objTable n behavior) ∧
          r'.ringQueueMcDoDequeue objTable n behavior
            = some (r'.ringQueueScDoDequeue objTable n behavior)) ∧
      r'.ringQueueCount.toNat = xs.length ∧ r'.ringQueueFreeCount.toNat = 3 - xs.length ∧
      (r'.ringQueueFull ↔ xs.length = 3) ∧ (r'.ringQueueEmpty ↔ xs.length = 0) :=
  calls_refine_boundedList (show ringQueueCreate 0 4 0 true = some fourSlots from rfl) (by decide) _

end RingQueue
