import PrototypeKernel.RingQueue.Fifo

/-! # The indices between non-overlapping calls

What a transfer routine does to the indices depends on the mask alone, so it can be followed in any
ring, of whatever size. Between calls each tail is at its head, and the heads are at most `mask`
apart. -/

namespace RingQueue

open KernelInt CallSequence

variable {α : Type*} {r : RingQueue α} {n : UInt32} {behavior : Behavior}

/-- The number of positions in use: the distance of the heads. -/
def used (r : RingQueue α) : ℕ := (r.prod.head - r.cons.head).toNat

/-- **No call is in flight**, and the positions in use are counted by the mask. -/
structure Settled (r : RingQueue α) : Prop where
  prod_tail : r.prod.tail = r.prod.head
  cons_tail : r.cons.tail = r.cons.head
  used_le : r.used ≤ r.prod.mask.toNat

/-- A new ring is settled and empty. -/
theorem settled_of_create {null : α} {count flags : UInt32} {pages : Bool}
    (h : ringQueueCreate null count flags pages = some r) : r.Settled ∧ r.used = 0 := by
  obtain ⟨-, rfl⟩ := ringQueueCreate_eq_some.mp h
  have hused : (0 - 0 : UInt32).toNat = 0 := rfl
  exact ⟨⟨rfl, rfl, hused.trans_le (Nat.zero_le _)⟩, hused⟩

/-- The free entries of a settled ring. -/
theorem Settled.freeEntries (h : r.Settled) :
    (r.prod.mask + r.cons.tail - r.prod.head).toNat = r.prod.mask.toNat - r.used := by
  have hle := h.used_le
  have hprod := r.prod.head.toNat_lt
  have hcons := r.cons.head.toNat_lt
  have hmask := r.prod.mask.toNat_lt
  rw [used, UInt32.toNat_sub] at hle ⊢
  rw [h.cons_tail, UInt32.toNat_sub, UInt32.toNat_add]
  omega

/-- The entries of a settled ring. -/
theorem Settled.entries (h : r.Settled) : (r.prod.tail - r.cons.head).toNat = r.used := by
  rw [h.prod_tail, used]

/-! ## How many items are moved -/

/-- The number of items to move when there is room for `room` of them. -/
def toMove (room n : ℕ) : Behavior → ℕ
  | .ringQueueFixed => if n ≤ room then n else 0
  | .ringQueueVariable => min n room

/-- No more pointers are moved than there is room for. -/
theorem toMove_le (room n : ℕ) (behavior : Behavior) : toMove room n behavior ≤ room := by
  cases behavior with
  | ringQueueFixed =>
    rw [toMove]
    split
    · assumption
    · exact Nat.zero_le room
  | ringQueueVariable => exact Nat.min_le_right n room

/-- What an enqueue is granted. -/
theorem enqueueGrant_toMove (n freeEntries : UInt32) (behavior : Behavior) :
    (∃ k, enqueueGrant n freeEntries behavior = .ok k ∧
        k.toNat = toMove freeEntries.toNat n.toNat behavior) ∨
      (∃ ret, enqueueGrant n freeEntries behavior = .error ret) ∧
        toMove freeEntries.toNat n.toNat behavior = 0 := by
  by_cases hfit : n ≤ freeEntries
  · have hle := UInt32.le_iff_toNat_le.mp hfit
    refine .inl ⟨n, enqueueGrant_of_le hfit behavior, ?_⟩
    cases behavior with
    | ringQueueFixed => exact (if_pos hle).symm
    | ringQueueVariable => exact (Nat.min_eq_left hle).symm
  · have hlt := UInt32.lt_iff_toNat_lt.mp (UInt32.not_le.mp hfit)
    unfold enqueueGrant
    rw [if_pos (UInt32.not_le.mp hfit)]
    cases behavior with
    | ringQueueFixed => exact .inr ⟨⟨_, rfl⟩, if_neg (by omega)⟩
    | ringQueueVariable =>
      have hmin : toMove freeEntries.toNat n.toNat .ringQueueVariable = freeEntries.toNat :=
        Nat.min_eq_right hlt.le
      rw [hmin]
      by_cases hzero : freeEntries = 0
      · exact .inr ⟨⟨0, if_pos hzero⟩, by rw [hzero]; rfl⟩
      · exact .inl ⟨freeEntries, if_neg hzero, rfl⟩

/-- What a dequeue is granted: the checks of the two sides differ in an error number only. -/
theorem dequeueGrant_toMove (n entries : UInt32) (behavior : Behavior) :
    (∃ k, dequeueGrant n entries behavior = .ok k ∧
        k.toNat = toMove entries.toNat n.toNat behavior) ∨
      (∃ ret, dequeueGrant n entries behavior = .error ret) ∧
        toMove entries.toNat n.toNat behavior = 0 := by
  have hsame (k : UInt32) : dequeueGrant n entries behavior = .ok k ↔
      enqueueGrant n entries behavior = .ok k := by
    unfold dequeueGrant enqueueGrant
    split
    · cases behavior <;> simp
    · rfl
  rcases enqueueGrant_toMove n entries behavior with ⟨k, hgrant, hk⟩ | ⟨⟨ret, hgrant⟩, hzero⟩
  · exact .inl ⟨k, (hsame k).mpr hgrant, hk⟩
  · refine .inr ⟨?_, hzero⟩
    cases hd : dequeueGrant n entries behavior with
    | error ret' => exact ⟨ret', rfl⟩
    | ok k =>
      rw [(hsame k).mp hd] at hgrant
      cases hgrant

/-! ## The calls -/

/-- **What an enqueue does to the indices.** -/
theorem Settled.enqueue (h : r.Settled) (objTable : ℕ → α) (n : UInt32) (behavior : Behavior) :
    ∃ k : UInt32, k.toNat = toMove (r.prod.mask.toNat - r.used) n.toNat behavior ∧
      (r.ringQueueSpDoEnqueue objTable n behavior).1.prod =
        { r.prod with head := r.prod.head + k, tail := r.prod.head + k } ∧
      (r.ringQueueSpDoEnqueue objTable n behavior).1.cons = r.cons ∧
      (k ≠ 0 → (r.ringQueueSpDoEnqueue objTable n behavior).2 =
        enqueueRet r.prod k (r.prod.mask + r.cons.tail - r.prod.head) behavior) := by
  have hgrant := enqueueGrant_toMove n (r.prod.mask + r.cons.tail - r.prod.head) behavior
  rw [h.freeEntries] at hgrant
  unfold ringQueueSpDoEnqueue
  rcases hgrant with ⟨k, hk, hmove⟩ | ⟨⟨ret, hret⟩, hmove⟩
  · refine ⟨k, hmove, ?_⟩
    simp only [hk]
    exact ⟨rfl, rfl, fun _ => rfl⟩
  · -- nothing is moved
    refine ⟨0, hmove.symm, ?_⟩
    simp only [hret, UInt32.add_zero]
    refine ⟨?_, trivial, fun h0 => absurd rfl h0⟩
    have hsame : r.prod = { r.prod with head := r.prod.head, tail := r.prod.tail } := rfl
    rwa [h.prod_tail] at hsame

/-- **What a dequeue does to the indices.** -/
theorem Settled.dequeue (h : r.Settled) (objTable : ℕ → α) (n : UInt32) (behavior : Behavior) :
    ∃ k : UInt32, k.toNat = toMove r.used n.toNat behavior ∧
      (r.ringQueueScDoDequeue objTable n behavior).1.prod = r.prod ∧
      (r.ringQueueScDoDequeue objTable n behavior).1.cons =
        { r.cons with head := r.cons.head + k, tail := r.cons.head + k } := by
  have hgrant := dequeueGrant_toMove n (r.prod.tail - r.cons.head) behavior
  rw [h.entries] at hgrant
  unfold ringQueueScDoDequeue
  rcases hgrant with ⟨k, hk, hmove⟩ | ⟨⟨ret, hret⟩, hmove⟩
  · refine ⟨k, hmove, ?_⟩
    simp only [hk]
    exact ⟨trivial, trivial⟩
  · refine ⟨0, hmove.symm, ?_⟩
    simp only [hret, UInt32.add_zero]
    refine ⟨trivial, ?_⟩
    have hsame : r.cons = { r.cons with head := r.cons.head, tail := r.cons.tail } := rfl
    rwa [h.cons_tail] at hsame

/-- An enqueue in a settled ring, whichever variant it is. -/
theorem Settled.call_enqueue (h : r.Settled) (variant : Variant) (behavior : Behavior)
    (objTable : ℕ → α) (n : UInt32) :
    r.call (.enqueue variant behavior objTable n) =
      some ((r.ringQueueSpDoEnqueue objTable n behavior).1, objTable,
        (r.ringQueueSpDoEnqueue objTable n behavior).2) := by
  rw [call, ringQueueMpDoEnqueue_eq h.prod_tail, ite_self]
  rfl

/-- On a settled ring every variant of dequeue is the single-consumer one. -/
theorem Settled.call_dequeue (h : r.Settled) (variant : Variant) (behavior : Behavior)
    (objTable : ℕ → α) (n : UInt32) :
    r.call (.dequeue variant behavior objTable n) =
      some (r.ringQueueScDoDequeue objTable n behavior) := by
  rw [call, ringQueueMcDoDequeue_eq h.cons_tail, ite_self]

/-- The number of positions in use after an enqueue. -/
theorem Settled.used_enqueue (h : r.Settled) {r' : RingQueue α} {k : UInt32}
    (hk : k.toNat ≤ r.prod.mask.toNat - r.used)
    (hprod : r'.prod = { r.prod with head := r.prod.head + k, tail := r.prod.head + k })
    (hcons : r'.cons = r.cons) : r'.Settled ∧ r'.used = r.used + k.toNat := by
  have hle := h.used_le
  have hlt := r.prod.mask.toNat_lt
  have hused : r'.used = r.used + k.toNat := by
    rw [used, UInt32.toNat_sub] at hle hk ⊢
    rw [used, hprod, hcons, UInt32.toNat_sub]
    simp only [UInt32.toNat_add]
    omega
  refine ⟨⟨by rw [hprod], by rw [hcons, h.cons_tail], ?_⟩, hused⟩
  rw [hused, hprod]
  show r.used + k.toNat ≤ r.prod.mask.toNat
  omega

/-- The number of positions in use after a dequeue. -/
theorem Settled.used_dequeue (h : r.Settled) {r' : RingQueue α} {k : UInt32}
    (hk : k.toNat ≤ r.used) (hprod : r'.prod = r.prod)
    (hcons : r'.cons = { r.cons with head := r.cons.head + k, tail := r.cons.head + k }) :
    r'.Settled ∧ r'.used = r.used - k.toNat := by
  have hle := h.used_le
  have hused : r'.used = r.used - k.toNat := by
    have hhead := r.cons.head.toNat_lt
    rw [used, UInt32.toNat_sub] at hk ⊢
    rw [used, hprod, hcons, UInt32.toNat_sub]
    simp only [UInt32.toNat_add]
    omega
  refine ⟨⟨by rw [hprod, h.prod_tail], by rw [hcons], ?_⟩, hused⟩
  rw [hused, hprod]
  omega

/-- A count that is not positive. -/
theorem eq_zero_of_not_one_le {count : UInt32} (h : ¬ 1 ≤ count) : count = 0 := by
  rw [← UInt32.toNat_inj]
  exact Nat.lt_one_iff.mp (UInt32.lt_iff_toNat_lt.mp (UInt32.not_le.mp h))

end RingQueue
