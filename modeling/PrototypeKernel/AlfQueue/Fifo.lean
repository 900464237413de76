import PrototypeKernel.AlfQueue.Discipline
import PrototypeKernel.Foundation.CallSequence

/-! # Non-overlapping calls: a bounded FIFO list

One call at a time, in any mixture of the four operations, an `AlfQueue` is a list of at most `size`
pointers: an enqueue appends all of its pointers or none, a dequeue removes from the front. The
indices are only known modulo `2 ^ 32`, so a sequence of calls may be of any length. -/

namespace AlfQueue

open ReserveRing KernelInt CallSequence

variable {α : Type*}

/-- A call of one of the four operations, with the caller's array. -/
inductive Call (α : Type*) where
  | mpEnqueue (ptr : ℕ → α) (n : UInt32)
  | spEnqueue (ptr : ℕ → α) (n : UInt32)
  | mcDequeue (ptr : ℕ → α) (n : UInt32)
  | scDequeue (ptr : ℕ → α) (n : UInt32)

/-- Run a call. The caller gets its array back and the returned value. -/
def call (q : AlfQueue α) : Call α → Option (AlfQueue α × (ℕ → α) × ℤ)
  | .mpEnqueue ptr n => (q.alfMpEnqueue ptr n).map fun r => (r.1, ptr, r.2)
  | .spEnqueue ptr n => some ((q.alfSpEnqueue ptr n).1, ptr, (q.alfSpEnqueue ptr n).2)
  | .mcDequeue ptr n => q.alfMcDequeue ptr n
  | .scDequeue ptr n => some (q.alfScDequeue ptr n)

/-! ## The bounded list -/

/-- Enqueue into a list of at most `capacity` pointers: all `n` pointers, or none. -/
def fifoEnqueue (capacity : ℕ) (xs : List α) (ptr : ℕ → α) (n : ℕ) : List α × (ℕ → α) × ℤ :=
  if xs.length + n ≤ capacity then (xs ++ (List.range n).map ptr, ptr, n) else (xs, ptr, 0)

/-- Dequeue the first `min xs.length n` pointers into the caller's array. -/
def fifoDequeue (xs : List α) (ptr : ℕ → α) (n : ℕ) : List α × (ℕ → α) × ℤ :=
  let k := min xs.length n
  (xs.drop k, writeFront (xs.take k) ptr, k)

/-- What a call does to the bounded list and returns. -/
def fifo (capacity : ℕ) (xs : List α) : Call α → List α × (ℕ → α) × ℤ
  | .mpEnqueue ptr n | .spEnqueue ptr n => fifoEnqueue capacity xs ptr n.toNat
  | .mcDequeue ptr n | .scDequeue ptr n => fifoDequeue xs ptr n.toNat

/-! ## The refinement -/

/-- The queue `q` **represents** the list `xs`. -/
structure Represents (size : ℕ) (q : AlfQueue α) (xs : List α) : Prop where
  sized : q.WellSized
  size_eq : q.size.toNat = size
  holds : Holds q.discipline q.shared xs

/-- A new queue represents the empty list. -/
theorem represents_of_alloc {null : α} {size : UInt32} {kzalloc : Bool} {q : AlfQueue α}
    (h : alfQueueAlloc null size kzalloc = .ok q) : Represents size.toNat q [] := by
  have hsized := wellSized_of_alloc h
  obtain ⟨-, rfl⟩ := alfQueueAlloc_eq_ok.mp h
  exact ⟨hsized, rfl, Holds.init _ (fun sd => by cases sd <;> rfl) fun sd => by cases sd <;> rfl⟩

/-- Other slots and indices that hold a list make the queue represent it. -/
theorem Represents.withShared {size : ℕ} {q : AlfQueue α} {xs ys : List α}
    (h : Represents size q xs) {m : Shared α} (hm : Holds q.discipline m ys) :
    Represents size (q.withShared m) ys where
  sized := ⟨h.sized.pow, h.sized.le, h.sized.mask_eq⟩
  size_eq := h.size_eq
  holds := by rw [discipline_withShared, shared_withShared]; exact hm

/-- The room a caller computes is the room of the list. -/
theorem Represents.space {size : ℕ} {q : AlfQueue α} {xs : List α} (h : Represents size q xs) :
    (q.size + q.consumer.tail - q.producer.head).toNat = size - xs.length := by
  obtain ⟨c, hc⟩ := h.holds
  have havail := hc.avail_toNat h.sized.lawful .producer
  rw [← h.size_eq]
  exact havail

/-- The number of elements a caller computes is the length of the list. -/
theorem Represents.elems {size : ℕ} {q : AlfQueue α} {xs : List α} (h : Represents size q xs) :
    (q.producer.tail - q.consumer.head).toNat = xs.length := by
  obtain ⟨c, hc⟩ := h.holds
  exact hc.avail_toNat h.sized.lawful .consumer

/-- A queue holds at most `size` pointers. -/
theorem Represents.length_le {size : ℕ} {q : AlfQueue α} {xs : List α} (h : Represents size q xs) :
    xs.length ≤ size := by
  rw [← h.size_eq]
  exact h.holds.length_le

/-- The size of a queue is at most `ALF_MAX_SIZE`. -/
theorem Represents.size_le {size : ℕ} {q : AlfQueue α} {xs : List α} (h : Represents size q xs) :
    size ≤ 65536 := by
  rw [← h.size_eq]
  exact h.sized.le

/-- `alf_sp_enqueue()` appends all of its pointers, or none. -/
theorem Represents.alfSpEnqueue {size : ℕ} {q : AlfQueue α} {xs : List α}
    (h : Represents size q xs) (ptr : ℕ → α) (n : UInt32) :
    (q.alfSpEnqueue ptr n).2 = (fifoEnqueue size xs ptr n.toNat).2.2 ∧
      Represents size (q.alfSpEnqueue ptr n).1 (fifoEnqueue size xs ptr n.toNat).1 := by
  have hspace := h.space
  have hlen := h.length_le
  have hsize := h.size_le
  rw [(alfSpEnqueue_eq_solo q ptr n).1]
  simp only [fifoEnqueue]
  by_cases hfit : xs.length + n.toNat ≤ size
  · -- room for all `n`
    have hgrant : q.discipline.grant .producer n
        (q.discipline.avail .producer (q.shared.head .producer) (q.shared.tail .consumer))
          = .ok n := by
      refine if_neg (UInt32.not_lt.mpr (UInt32.le_iff_toNat_le.mpr ?_))
      show n.toNat ≤ (q.size + q.consumer.tail - q.producer.head).toNat
      omega
    obtain ⟨-, hholds, -, hresult⟩ := h.holds.solo_producer h.sized.lawful n ptr hgrant
    rw [if_pos hfit]
    exact ⟨hresult.trans (intOfU32_eq (by omega)), h.withShared hholds⟩
  · have hgrant : q.discipline.grant .producer n
        (q.discipline.avail .producer (q.shared.head .producer) (q.shared.tail .consumer))
          = .error 0 := by
      refine if_pos (UInt32.lt_iff_toNat_lt.mpr ?_)
      show (q.size + q.consumer.tail - q.producer.head).toNat < n.toNat
      omega
    rw [if_neg hfit, Discipline.solo_error .producer hgrant]
    exact ⟨rfl, h⟩

/-- `alf_sc_dequeue()` removes the first pointers. -/
theorem Represents.alfScDequeue {size : ℕ} {q : AlfQueue α} {xs : List α}
    (h : Represents size q xs) (ptr : ℕ → α) (n : UInt32) :
    (q.alfScDequeue ptr n).2 = (fifoDequeue xs ptr n.toNat).2 ∧
      Represents size (q.alfScDequeue ptr n).1 (fifoDequeue xs ptr n.toNat).1 := by
  have helems := h.elems
  have hlen := h.length_le
  have hsize := h.size_le
  rw [alfScDequeue_eq_solo]
  by_cases hempty : xs = []
  · have hgrant : q.discipline.grant .consumer n
        (q.discipline.avail .consumer (q.shared.head .consumer) (q.shared.tail .producer))
          = .error 0 :=
      if_pos (UInt32.toNat_inj.mp (helems.trans (by rw [hempty]; rfl)))
    rw [Discipline.solo_error .consumer hgrant]
    subst hempty
    simp [fifoDequeue, h, withShared_shared]
  · have hpos : 0 < xs.length := List.length_pos_iff.mpr hempty
    have hgrant : q.discipline.grant .consumer n
        (q.discipline.avail .consumer (q.shared.head .consumer) (q.shared.tail .producer))
          = .ok (min (q.producer.tail - q.consumer.head) n) := by
      refine if_neg fun h0 => ?_
      have : (q.producer.tail - q.consumer.head).toNat = 0 := congrArg UInt32.toNat h0
      omega
    obtain ⟨-, hholds, hptr, hresult⟩ := h.holds.solo_consumer h.sized.lawful n ptr hgrant
    -- the number taken is the smaller of what was asked for and what there is
    have hmin : (min (q.producer.tail - q.consumer.head) n).toNat = min xs.length n.toNat := by
      rw [toNat_min, helems]
    have hcode : intOfU32 (min (q.producer.tail - q.consumer.head) n)
        = (min xs.length n.toNat : ℕ) := by
      rw [intOfU32_eq (by omega), hmin]
    rw [hmin] at hholds hptr
    exact ⟨Prod.ext hptr (hresult.trans hcode), h.withShared hholds⟩

/-- Between calls, `alf_mp_enqueue()` does what `alf_sp_enqueue()` does. -/
theorem Represents.alfMpEnqueue {size : ℕ} {q : AlfQueue α} {xs : List α}
    (h : Represents size q xs) (ptr : ℕ → α) (n : UInt32) :
    q.alfMpEnqueue ptr n = some (q.alfSpEnqueue ptr n) :=
  alfMpEnqueue_eq_alfSpEnqueue (h.holds.tail_eq_head .producer) ptr n

/-- Between calls, `alf_mc_dequeue()` does what `alf_sc_dequeue()` does. -/
theorem Represents.alfMcDequeue {size : ℕ} {q : AlfQueue α} {xs : List α}
    (h : Represents size q xs) (ptr : ℕ → α) (n : UInt32) :
    q.alfMcDequeue ptr n = some (q.alfScDequeue ptr n) :=
  alfMcDequeue_eq_alfScDequeue (h.holds.tail_eq_head .consumer) ptr n

/-- An enqueue does not change the array of the caller. -/
theorem fifoEnqueue_ptr (capacity : ℕ) (xs : List α) (ptr : ℕ → α) (n : ℕ) :
    (fifoEnqueue capacity xs ptr n).2.1 = ptr := by
  unfold fifoEnqueue
  split <;> rfl

/-- **Each call refines the bounded list.** -/
theorem simulates_fifo (size : ℕ) :
    Simulates (call : AlfQueue α → _) (fifo size) (Represents size) := by
  intro q xs c h
  -- an enqueue leaves the caller's array alone
  have henqueue : ∀ ptr n, (q.alfSpEnqueue ptr n).2 = (fifoEnqueue size xs ptr n.toNat).2.2 →
      (ptr, (q.alfSpEnqueue ptr n).2) = (fifoEnqueue size xs ptr n.toNat).2 := fun ptr n hret =>
    Prod.ext (fifoEnqueue_ptr ..).symm hret
  cases c with
  | mpEnqueue ptr n =>
    obtain ⟨hret, hrep⟩ := h.alfSpEnqueue ptr n
    refine ⟨_, ?_, hrep⟩
    rw [call, h.alfMpEnqueue, Option.map_some, henqueue ptr n hret]
    rfl
  | spEnqueue ptr n =>
    obtain ⟨hret, hrep⟩ := h.alfSpEnqueue ptr n
    refine ⟨_, ?_, hrep⟩
    rw [call, henqueue ptr n hret]
    rfl
  | mcDequeue ptr n =>
    obtain ⟨hret, hrep⟩ := h.alfScDequeue ptr n
    refine ⟨_, ?_, hrep⟩
    rw [call, h.alfMcDequeue]
    exact congrArg some (Prod.ext rfl hret)
  | scDequeue ptr n =>
    obtain ⟨hret, hrep⟩ := h.alfScDequeue ptr n
    exact ⟨_, congrArg some (Prod.ext rfl hret), hrep⟩

/-! ## The observers -/

/-- `alf_queue_count()` is the number of pointers. -/
theorem Represents.alfQueueCount {size : ℕ} {q : AlfQueue α} {xs : List α}
    (h : Represents size q xs) : q.alfQueueCount = xs.length := by
  have := h.elems
  have := h.length_le
  have := h.size_le
  rw [AlfQueue.alfQueueCount, intOfU32_eq (by omega), h.elems]

/-- `alf_queue_avail_space()` is the number of free slots. -/
theorem Represents.alfQueueAvailSpace {size : ℕ} {q : AlfQueue α} {xs : List α}
    (h : Represents size q xs) : q.alfQueueAvailSpace = size - xs.length := by
  have := h.space
  have := h.length_le
  have := h.size_le
  rw [AlfQueue.alfQueueAvailSpace, intOfU32_eq (by omega), h.space]
  omega

/-- `alf_queue_empty()` tells that there is no pointer. -/
theorem Represents.alfQueueEmpty {size : ℕ} {q : AlfQueue α} {xs : List α}
    (h : Represents size q xs) : q.alfQueueEmpty ↔ xs.length = 0 := by
  have hconsumer : q.consumer.tail = q.consumer.head := h.holds.tail_eq_head .consumer
  rw [AlfQueue.alfQueueEmpty, beq_iff_eq, hconsumer, ← h.elems]
  exact Cyclic.toNat_sub_eq_zero.symm

/-- **Non-overlapping calls on an allocated queue are calls on a bounded FIFO list** of capacity
`size`, and the observers report its length, its free space and whether it is empty. -/
theorem calls_refine_fifo {null : α} {size : UInt32} {kzalloc : Bool} {q : AlfQueue α}
    (halloc : alfQueueAlloc null size kzalloc = .ok q) (calls : List (Call α)) :
    ∃ q' xs results, runAll call q calls = some (q', results) ∧
      specAll (fifo size.toNat) [] calls = (xs, results) ∧
      q'.alfQueueCount = xs.length ∧ q'.alfQueueAvailSpace = size.toNat - xs.length ∧
      (q'.alfQueueEmpty ↔ xs.length = 0) := by
  obtain ⟨q', hrun, hrep⟩ := (simulates_fifo size.toNat).runAll calls (represents_of_alloc halloc)
  exact ⟨q', _, _, hrun, rfl, hrep.alfQueueCount, hrep.alfQueueAvailSpace, hrep.alfQueueEmpty⟩

/-- Four calls on a queue of four slots, of which one is refused. -/
theorem calls_refine_fifo_four :
    ∃ q' xs results,
      runAll call four [.mpEnqueue id 3, .spEnqueue id 2, .mcDequeue id 2, .scDequeue id 2]
        = some (q', results) ∧
      specAll (fifo 4) [] [.mpEnqueue id 3, .spEnqueue id 2, .mcDequeue id 2, .scDequeue id 2]
        = (xs, results) ∧
      q'.alfQueueCount = xs.length ∧ q'.alfQueueAvailSpace = 4 - xs.length ∧
      (q'.alfQueueEmpty ↔ xs.length = 0) :=
  calls_refine_fifo (show alfQueueAlloc 0 4 true = .ok four from rfl) _

end AlfQueue
