import PrototypeKernel.AlfQueue.Queue
import PrototypeKernel.Foundation.ReserveRingFifo

/-! # The queue as a reservation ring

`AlfQueue.discipline` states what the four operations compute, so that their interleavings are the
runs of `ReserveRing.step`. The discipline is lawful for every queue that `alf_queue_alloc()`
returns, and the straight-line operations are its calls that run alone. -/

namespace AlfQueue

open ReserveRing KernelInt

variable {α : Type*}

/-- The memory the callers of a queue share. -/
def shared (q : AlfQueue α) : Shared α where
  head
    | .producer => q.producer.head
    | .consumer => q.consumer.head
  tail
    | .producer => q.producer.tail
    | .consumer => q.consumer.tail
  ring := q.ring

/-- The queue with its shared memory replaced. -/
def withShared (q : AlfQueue α) (m : Shared α) : AlfQueue α :=
  { q with
    producer := ⟨m.head .producer, m.tail .producer⟩
    consumer := ⟨m.head .consumer, m.tail .consumer⟩
    ring := m.ring }

/-- **How the queue reserves.** `alf_mp_enqueue()` and `alf_sp_enqueue()` take all `n` positions or
return 0, `alf_mc_dequeue()` and `alf_sc_dequeue()` take up to `n` of the elements or return 0 when
there are none; all return the number of positions taken. -/
def discipline (q : AlfQueue α) : Discipline UInt32 where
  capacity := q.size.toNat
  slots := q.size.toNat
  avail
    | .producer, pHead, cTail => q.size + cTail - pHead
    | .consumer, cHead, pTail => pTail - cHead
  grant
    | .producer, n, space => if n > space then .error 0 else .ok n
    | .consumer, n, elems => if elems = 0 then .error 0 else .ok (min elems n)
  access _ head len := unrollAccesses q.mask head len
  result _ _ _ len := intOfU32 len

/-- What a queue's slots and indices are does not change its discipline. -/
@[simp] theorem discipline_withShared (q : AlfQueue α) (m : Shared α) :
    (q.withShared m).discipline = q.discipline := rfl

/-- The shared state that a queue is given is the one it has. -/
@[simp] theorem shared_withShared (q : AlfQueue α) (m : Shared α) :
    (q.withShared m).shared = m := by
  cases m
  simp only [shared, withShared, Shared.mk.injEq, and_true]
  constructor <;> funext sd <;> cases sd <;> rfl

/-- A queue that is given its own shared state is unchanged. -/
theorem withShared_shared (q : AlfQueue α) : q.withShared q.shared = q := rfl

/-- **The discipline of an allocated queue is lawful.** -/
theorem WellSized.lawful {q : AlfQueue α} (h : q.WellSized) : q.discipline.Lawful where
  slots_dvd := by
    obtain ⟨k, hk, hsize⟩ := h.pow
    show q.size.toNat ∣ 2 ^ 32
    rw [hsize]
    exact Nat.pow_dvd_pow 2 (by omega)
  capacity_le := Nat.le_refl _
  slots_le := h.le.trans (by decide)
  avail_eq sd head tail := by
    cases sd with
    | producer => simp [discipline, Discipline.room]
    | consumer => simp [discipline, Discipline.room]
  grant_le {sd req a len} hgrant := by
    cases sd with
    | producer =>
      simp only [discipline] at hgrant
      split at hgrant <;> cases hgrant
      rename_i hle
      exact UInt32.not_lt.mp hle
    | consumer =>
      simp only [discipline] at hgrant
      split at hgrant <;> cases hgrant
      exact Std.min_le_left
  access_eq sd p len hlen := by
    obtain ⟨k, hk, hsize⟩ := h.pow
    exact AlfQueue.unrollAccesses_eq hk hsize h.mask_eq p hlen

/-! ## The operations are calls that run alone -/

/-- The store helper is the copy of a producer batch. -/
theorem helperAlfEnqueueStoreUnroll_eq (q : AlfQueue α) (pHead : UInt32) (ptr : ℕ → α)
    (n : UInt32) : q.helperAlfEnqueueStoreUnroll pHead ptr n
      = q.withShared (copySlots .producer (unrollAccesses q.mask pHead n) q.shared ptr).1 := by
  rw [copySlots_producer_eq]
  rfl

/-- The load helper is the copy of a consumer batch. -/
theorem helperAlfDequeueLoadUnroll_eq (q : AlfQueue α) (cHead : UInt32) (ptr : ℕ → α)
    (elems : UInt32) : q.helperAlfDequeueLoadUnroll cHead ptr elems
      = (copySlots .consumer (unrollAccesses q.mask cHead elems) q.shared ptr).2 := by
  rw [copySlots_consumer_eq]
  rfl

/-- `alf_sp_enqueue()` is a producer call that runs alone. -/
theorem alfSpEnqueue_eq_solo (q : AlfQueue α) (ptr : ℕ → α) (n : UInt32) :
    let r := q.discipline.solo .producer n q.shared ptr
    q.alfSpEnqueue ptr n = (q.withShared r.1, r.2.2) ∧ r.2.1 = ptr := by
  unfold alfSpEnqueue Discipline.solo
  simp only [discipline, Side.other, shared]
  -- too little space leaves the queue alone; otherwise both store the same accesses
  by_cases hfull : n > q.size + q.consumer.tail - q.producer.head
  · simp only [hfull, if_true]
    exact ⟨rfl, trivial⟩
  · simp only [hfull, if_false, helperAlfEnqueueStoreUnroll_eq, copySlots_producer_eq]
    exact ⟨rfl, trivial⟩

/-- `alf_sc_dequeue()` is a consumer call that runs alone. -/
theorem alfScDequeue_eq_solo (q : AlfQueue α) (ptr : ℕ → α) (n : UInt32) :
    let r := q.discipline.solo .consumer n q.shared ptr
    q.alfScDequeue ptr n = (q.withShared r.1, r.2) := by
  unfold alfScDequeue Discipline.solo
  simp only [discipline, Side.other, shared]
  by_cases hempty : q.producer.tail - q.consumer.head = 0
  · simp only [hempty, if_true]
    rfl
  · simp only [hempty, if_false, helperAlfDequeueLoadUnroll_eq, copySlots_consumer_eq]
    rfl

/-- Alone, `alf_mp_enqueue()` does what `alf_sp_enqueue()` does. -/
theorem alfMpEnqueue_eq_alfSpEnqueue {q : AlfQueue α} (htail : q.producer.tail = q.producer.head)
    (ptr : ℕ → α) (n : UInt32) : q.alfMpEnqueue ptr n = some (q.alfSpEnqueue ptr n) := by
  unfold alfMpEnqueue alfSpEnqueue
  simp only [helperAlfEnqueueStoreUnroll, htail, ne_eq, not_true_eq_false, if_false]
  split <;> rfl

/-- Alone, `alf_mc_dequeue()` does what `alf_sc_dequeue()` does. -/
theorem alfMcDequeue_eq_alfScDequeue {q : AlfQueue α} (htail : q.consumer.tail = q.consumer.head)
    (ptr : ℕ → α) (n : UInt32) : q.alfMcDequeue ptr n = some (q.alfScDequeue ptr n) := by
  unfold alfMcDequeue alfScDequeue
  simp only [htail, ne_eq, not_true_eq_false, if_false]
  split <;> rfl

end AlfQueue
