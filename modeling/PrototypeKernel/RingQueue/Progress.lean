import PrototypeKernel.RingQueue.Concurrent
import PrototypeKernel.RingQueue.Fifo
import PrototypeKernel.Foundation.ReserveRingProgress

/-! # Concurrent calls of the ring queue deliver and complete

What the order of the indices does not say yet: which pointers the concurrent transfer routines
move, and that they come to an end. With `n ≥ 1` both behaviors take batches that are not empty, so
the ring delivers exactly, and it can always be brought to rest as a bounded list. -/

namespace RingQueue

open ReserveRing TransitionSystem

variable {ι α : Type*}

/-- Calls with `n ≥ 1` take no empty batch, whichever behavior they have. -/
theorem positive (r : RingQueue α) : r.discipline.Positive fun req => req.n ≠ 0 := by
  rintro sd ⟨n, behavior⟩ avail len hn hgrant
  -- both checks grant `n`, or all there is when that is not nothing
  cases sd <;> cases behavior <;>
    simp only [discipline, enqueueGrant, dequeueGrant] at hgrant <;>
    split at hgrant <;> try split at hgrant
  all_goals
    cases hgrant
  all_goals assumption

end RingQueue
