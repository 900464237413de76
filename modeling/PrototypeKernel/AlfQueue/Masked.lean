import PrototypeKernel.AlfQueue.CopyHelpers
import PrototypeKernel.AlfQueue.Fifo

/-! # The masked forms of the observers

The comments in `alf_queue_count()` and `alf_queue_avail_space()` write a masked form beside each
value. All of the slots can be in use, so both values run from 0 up to and including `size` by
design (a new queue has the space `size`), and the mask turns `size` into 0. -/

namespace AlfQueue

open ReserveRing KernelInt CallSequence

variable {α : Type*} {size : ℕ} {q : AlfQueue α} {xs : List α}

/-- `alf_queue_count()` as its comment has it: `(p_tail - c_head) & q->mask`. -/
def alfQueueCountMasked (q : AlfQueue α) : ℤ :=
  intOfU32 ((q.producer.tail - q.consumer.head) &&& q.mask)

/-- `alf_queue_avail_space()` as its comment has it: `(q->size + c_tail - p_head) & q->mask`. -/
def alfQueueAvailSpaceMasked (q : AlfQueue α) : ℤ :=
  intOfU32 ((q.size + q.consumer.tail - q.producer.head) &&& q.mask)

/-- **The mask keeps the values below `size`, and no other that an index difference can have.** -/
theorem WellSized.intOfU32_and_mask_iff (h : q.WellSized) {d : UInt32}
    (hle : d.toNat ≤ q.size.toNat) :
    intOfU32 d = intOfU32 (d &&& q.mask) ↔ d.toNat ≠ q.size.toNat := by
  have hsize := h.le
  have hmasked := h.index_toNat d
  have hlt := h.index_lt d
  rw [intOfU32_eq (by omega), intOfU32_eq (by omega), Int.ofNat_inj, hmasked]
  constructor
  · intro heq hfull
    -- `size` itself is masked to 0
    rw [hfull, Nat.mod_self] at heq
    exact absurd heq (Nat.ne_of_gt h.pos)
  · intro hne
    rw [Nat.mod_eq_of_lt (Nat.lt_of_le_of_ne hle hne)]

/-- The masked count is the count unless the queue is full. -/
theorem Represents.alfQueueCount_eq_masked_iff (h : Represents size q xs) :
    q.alfQueueCount = q.alfQueueCountMasked ↔ xs.length ≠ size := by
  have helems := h.elems
  have hlen := h.length_le
  rw [AlfQueue.alfQueueCount, alfQueueCountMasked,
    h.sized.intOfU32_and_mask_iff (by rw [helems, h.size_eq]; exact hlen), helems, h.size_eq]

/-- The masked room is the room unless the queue is empty. -/
theorem Represents.alfQueueAvailSpace_eq_masked_iff (h : Represents size q xs) :
    q.alfQueueAvailSpace = q.alfQueueAvailSpaceMasked ↔ xs.length ≠ 0 := by
  have hspace := h.space
  have hlen := h.length_le
  have hpos := h.sized.pos
  have hsize := h.size_eq
  rw [AlfQueue.alfQueueAvailSpace, alfQueueAvailSpaceMasked,
    h.sized.intOfU32_and_mask_iff (by omega), hspace, hsize]
  omega

/-- **After any sequence of calls, both observers return their masked forms exactly when the queue
is neither empty nor full.** -/
theorem observers_eq_masked_iff {null : α} {size : UInt32} {kzalloc : Bool}
    (halloc : alfQueueAlloc null size kzalloc = .ok q) (calls : List (Call α)) :
    ∃ q' results, runAll call q calls = some (q', results) ∧
      (q'.alfQueueCount = q'.alfQueueCountMasked ∧
          q'.alfQueueAvailSpace = q'.alfQueueAvailSpaceMasked ↔
        0 < (specAll (fifo size.toNat) [] calls).1.length ∧
          (specAll (fifo size.toNat) [] calls).1.length < size.toNat) := by
  obtain ⟨q', hrun, hrep⟩ := (simulates_fifo size.toNat).runAll calls (represents_of_alloc halloc)
  refine ⟨q', _, hrun, ?_⟩
  have hlen := hrep.length_le
  rw [hrep.alfQueueCount_eq_masked_iff, hrep.alfQueueAvailSpace_eq_masked_iff]
  omega

/-- A queue of four slots with one pointer left. -/
theorem observers_eq_masked_iff_four :
    ∃ q' results, runAll call four [.spEnqueue id 3, .scDequeue id 2] = some (q', results) ∧
      (q'.alfQueueCount = q'.alfQueueCountMasked ∧
          q'.alfQueueAvailSpace = q'.alfQueueAvailSpaceMasked ↔
        0 < (specAll (fifo 4) [] [.spEnqueue id 3, .scDequeue id 2]).1.length ∧
          (specAll (fifo 4) [] [.spEnqueue id 3, .scDequeue id 2]).1.length < 4) :=
  observers_eq_masked_iff (show alfQueueAlloc 0 4 true = .ok four from rfl) _

/-- The room of a new queue is `size`, and its masked form is 0. -/
theorem not_observers_eq_masked :
    ¬ ∀ (size : UInt32) (q q' : AlfQueue ℕ) (calls : List (Call ℕ)) (results : List ((ℕ → ℕ) × ℤ)),
      alfQueueAlloc 0 size true = .ok q → runAll call q calls = some (q', results) →
        q'.alfQueueCount = q'.alfQueueCountMasked ∧
          q'.alfQueueAvailSpace = q'.alfQueueAvailSpaceMasked := by
  intro h
  have hnew := (h 4 four four [] [] rfl rfl).2
  exact absurd hnew (by decide)

end AlfQueue
