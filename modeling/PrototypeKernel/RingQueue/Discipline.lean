import PrototypeKernel.RingQueue.Queue
import PrototypeKernel.Foundation.ReserveRingFifo

/-! # The ring queue as a reservation ring

`RingQueue.discipline` states what the four transfer routines compute, so that their interleavings
are the runs of `ReserveRing.step`. The discipline is lawful for every ring of positive size that
`ring_queue_create()` returns, and the straight-line routines are its calls that run alone. -/

namespace RingQueue

open ReserveRing KernelInt

variable {α : Type*}

/-- The arguments of a call beside its table. -/
structure Request where
  n : UInt32
  behavior : Behavior
  deriving DecidableEq, Repr

/-- The memory the callers of a ring share. -/
def shared (r : RingQueue α) : Shared α where
  head
    | .producer => r.prod.head
    | .consumer => r.cons.head
  tail
    | .producer => r.prod.tail
    | .consumer => r.cons.tail
  ring := r.ring

/-- The ring with its shared memory replaced. -/
def withShared (r : RingQueue α) (m : Shared α) : RingQueue α :=
  { r with
    prod := { r.prod with head := m.head .producer, tail := m.tail .producer }
    cons := { r.cons with head := m.head .consumer, tail := m.tail .consumer }
    ring := m.ring }

/-- **How the ring reserves.** The enqueue routines take positions of the `mask` usable ones, the
dequeue routines take positions of the elements; a fixed call takes all `n` or none. -/
def discipline (r : RingQueue α) : Discipline Request where
  capacity := r.prod.mask.toNat
  slots := r.prod.size.toNat
  avail
    | .producer, prodHead, consTail => r.prod.mask + consTail - prodHead
    | .consumer, consHead, prodTail => prodTail - consHead
  grant
    | .producer, req, freeEntries => enqueueGrant req.n freeEntries req.behavior
    | .consumer, req, entries => dequeueGrant req.n entries req.behavior
  access
    | .producer, prodHead, n => ptrsAccesses r.prod.size r.prod.mask prodHead n
    | .consumer, consHead, n => ptrsAccesses r.cons.size r.prod.mask consHead n
  result
    | .producer, req, freeEntries, n => enqueueRet r.prod n freeEntries req.behavior
    | .consumer, req, _, n => dequeueRet n req.behavior

/-- What a ring's slots and indices are does not change its discipline. -/
@[simp] theorem discipline_withShared (r : RingQueue α) (m : Shared α) :
    (r.withShared m).discipline = r.discipline := rfl

/-- The shared state that a ring is given is the one it has. -/
@[simp] theorem shared_withShared (r : RingQueue α) (m : Shared α) :
    (r.withShared m).shared = m := by
  cases m
  simp only [shared, withShared, Shared.mk.injEq, and_true]
  constructor <;> funext sd <;> cases sd <;> rfl

/-- A ring that is given its own shared state is unchanged. -/
theorem withShared_shared (r : RingQueue α) : r.withShared r.shared = r := rfl

/-! ## What a call is granted -/

/-- A batch with room is granted in full. -/
theorem enqueueGrant_of_le {n freeEntries : UInt32} (h : n ≤ freeEntries) (behavior : Behavior) :
    enqueueGrant n freeEntries behavior = .ok n :=
  if_neg (UInt32.not_lt.mpr h)

/-- A batch that is there is granted in full. -/
theorem dequeueGrant_of_le {n entries : UInt32} (h : n ≤ entries) (behavior : Behavior) :
    dequeueGrant n entries behavior = .ok n :=
  if_neg (UInt32.not_lt.mpr h)

/-- An enqueue is never granted more than the free entries. -/
theorem le_of_enqueueGrant {n freeEntries len : UInt32} {behavior : Behavior}
    (h : enqueueGrant n freeEntries behavior = .ok len) : len ≤ freeEntries := by
  unfold enqueueGrant at h
  split at h
  · cases behavior with
    | ringQueueFixed => cases h
    | ringQueueVariable =>
      simp only at h
      split at h <;> cases h
      exact UInt32.le_refl _
  · rename_i hle
    cases h
    exact UInt32.not_lt.mp hle

/-- A dequeue is never granted more than the entries. -/
theorem le_of_dequeueGrant {n entries len : UInt32} {behavior : Behavior}
    (h : dequeueGrant n entries behavior = .ok len) : len ≤ entries := by
  unfold dequeueGrant at h
  split at h
  · cases behavior with
    | ringQueueFixed => cases h
    | ringQueueVariable =>
      simp only at h
      split at h <;> cases h
      exact UInt32.le_refl _
  · rename_i hle
    cases h
    exact UInt32.not_lt.mp hle

/-- A ring has a slot. -/
theorem WellSized.pos {r : RingQueue α} (h : r.WellSized) : 0 < r.prod.size.toNat := by
  obtain ⟨k, -, hk⟩ := h.pow
  rw [hk]
  exact Nat.two_pow_pos k

/-- **The discipline of a created ring is lawful.** -/
theorem WellSized.lawful {r : RingQueue α} (h : r.WellSized) : r.discipline.Lawful where
  slots_dvd := by
    obtain ⟨k, hk, hsize⟩ := h.pow
    show r.prod.size.toNat ∣ 2 ^ 32
    rw [hsize]
    exact Nat.pow_dvd_pow 2 (by omega)
  capacity_le := by
    show r.prod.mask.toNat ≤ r.prod.size.toNat
    rw [h.mask_eq]
    omega
  slots_le := h.le.trans (by decide)
  avail_eq sd head tail := by
    cases sd with
    | producer => simp [discipline, Discipline.room]
    | consumer => simp [discipline, Discipline.room]
  grant_le {sd req a len} hgrant := by
    cases sd with
    | producer => exact le_of_enqueueGrant hgrant
    | consumer => exact le_of_dequeueGrant hgrant
  access_eq sd p len hlen := by
    obtain ⟨k, hk, hsize⟩ := h.pow
    have hpos := h.pos
    -- a batch of usable positions is smaller than the ring
    have hlen : len.toNat ≤ r.prod.size.toNat := by
      have : len.toNat ≤ r.prod.mask.toNat := hlen
      rw [h.mask_eq] at this
      omega
    cases sd with
    | producer => exact ptrsAccesses_eq hk hsize h.mask_eq p hlen
    | consumer =>
      show ptrsAccesses r.cons.size r.prod.mask (UInt32.ofNat p) len = _
      rw [h.cons_size]
      exact ptrsAccesses_eq hk hsize h.mask_eq p hlen

/-! ## The routines are calls that run alone -/

/-- `__ring_queue_sp_do_enqueue()` is a producer call that runs alone. -/
theorem ringQueueSpDoEnqueue_eq_solo (r : RingQueue α) (objTable : ℕ → α) (n : UInt32)
    (behavior : Behavior) :
    let v := r.discipline.solo .producer ⟨n, behavior⟩ r.shared objTable
    r.ringQueueSpDoEnqueue objTable n behavior = (r.withShared v.1, v.2.2) ∧ v.2.1 = objTable := by
  unfold ringQueueSpDoEnqueue Discipline.solo
  simp only [discipline, Side.other, shared]
  cases enqueueGrant n (r.prod.mask + r.cons.tail - r.prod.head) behavior with
  | error ret => exact ⟨rfl, rfl⟩
  | ok n =>
    simp only [copySlots_producer_eq]
    exact ⟨rfl, trivial⟩

/-- `__ring_queue_sc_do_dequeue()` is a consumer call that runs alone. -/
theorem ringQueueScDoDequeue_eq_solo (r : RingQueue α) (objTable : ℕ → α) (n : UInt32)
    (behavior : Behavior) :
    let v := r.discipline.solo .consumer ⟨n, behavior⟩ r.shared objTable
    r.ringQueueScDoDequeue objTable n behavior = (r.withShared v.1, v.2) := by
  unfold ringQueueScDoDequeue Discipline.solo
  simp only [discipline, Side.other, shared]
  cases dequeueGrant n (r.prod.tail - r.cons.head) behavior with
  | error ret => rfl
  | ok n =>
    simp only [copySlots_consumer_eq]
    rfl

/-- Alone, the multi-producer routine does what the single-producer routine does. -/
theorem ringQueueMpDoEnqueue_eq {r : RingQueue α} (htail : r.prod.tail = r.prod.head)
    (objTable : ℕ → α) (n : UInt32) (behavior : Behavior) :
    r.ringQueueMpDoEnqueue objTable n behavior
      = some (r.ringQueueSpDoEnqueue objTable n behavior) := by
  unfold ringQueueMpDoEnqueue ringQueueSpDoEnqueue
  simp only
  cases enqueueGrant n (r.prod.mask + r.cons.tail - r.prod.head) behavior with
  | error ret => rfl
  | ok n =>
    simp only [enqueuePtrs, htail, ne_eq, not_true_eq_false, if_false]

/-- Alone, the multi-consumer routine does what the single-consumer routine does. -/
theorem ringQueueMcDoDequeue_eq {r : RingQueue α} (htail : r.cons.tail = r.cons.head)
    (objTable : ℕ → α) (n : UInt32) (behavior : Behavior) :
    r.ringQueueMcDoDequeue objTable n behavior
      = some (r.ringQueueScDoDequeue objTable n behavior) := by
  unfold ringQueueMcDoDequeue ringQueueScDoDequeue
  simp only
  cases dequeueGrant n (r.prod.tail - r.cons.head) behavior with
  | error ret => rfl
  | ok n =>
    simp only [htail, ne_eq, not_true_eq_false, if_false]

end RingQueue
