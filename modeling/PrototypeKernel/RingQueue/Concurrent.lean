import PrototypeKernel.RingQueue.Discipline
import PrototypeKernel.Foundation.ReserveRingData
import PrototypeKernel.Foundation.ReserveRingSolo
import Mathlib.Data.Fintype.Basic

/-! # Concurrent callers of the ring queue

Any number of CPUs call `__ring_queue_mp_do_enqueue()` and `__ring_queue_mc_do_dequeue()` on one
ring, every shared access being one step of `ReserveRing.step`. The comments on `free_entries` and
`entries` say that both differences lie between 0 and `size(ring) - 1`. They do in every run that
publishes no non-empty batch past an empty one that has left its wait: a call with `n = 0` passes
the check for room, takes an empty batch and stores the tail it has seen, which may be an old one.
-/

namespace RingQueue

open ReserveRing TransitionSystem

variable {ι α : Type*}

/-- A ring that nobody has used yet. -/
def start (r : RingQueue α) : State ι Request α where
  mem := r.shared
  pc := fun _ => .idle
  pos := { head := fun _ => 0, tail := fun _ => 0 }
  sent := []
  received := []

/-- A new ring starts without calls, with all indices 0. -/
theorem start_of_create {null : α} {count flags : UInt32} {pages : Bool} {r : RingQueue α}
    (h : ringQueueCreate null count flags pages = some r) :
    (r.start : State ι Request α) = State.init null := by
  obtain ⟨-, rfl⟩ := ringQueueCreate_eq_some.mp h
  simp only [start, State.init, shared, State.mk.injEq, Shared.mk.injEq, and_true]
  constructor <;> funext sd <;> cases sd <;> rfl

/-! ## Calls that run alone -/

section Alone

variable [DecidableEq ι] {single : Side → Option ι} {r : RingQueue α} {s : State ι Request α}
  {i : ι}

/-- Undisturbed, a CPU's enqueue has the effect and the result of the single-producer one. -/
theorem runs_enqueue (hmem : s.mem = r.shared) (hready : (s.pc i).ready)
    (hallowed : single .producer = none ∨ single .producer = some i)
    (hquiet : r.prod.tail = r.prod.head) (objTable : ℕ → α) (n : UInt32) (behavior : Behavior) :
    let v := r.ringQueueSpDoEnqueue objTable n behavior
    ∃ s', Runs r.discipline single s s' ∧
      s.SoloAt s' i v.1.shared (.returned .producer objTable v.2) := by
  have hsolo := ringQueueSpDoEnqueue_eq_solo r objTable n behavior
  obtain ⟨s', hruns, hs'⟩ := runs_solo (d := r.discipline) ⟨n, behavior⟩ objTable hready hallowed
    (by rw [hmem]; exact hquiet)
  refine ⟨s', hruns, ?_⟩
  rw [hmem, hsolo.2] at hs'
  rw [hsolo.1, shared_withShared]
  exact hs'

/-- Undisturbed, a CPU's dequeue has the effect and the results of the single-consumer one. -/
theorem runs_dequeue (hmem : s.mem = r.shared) (hready : (s.pc i).ready)
    (hallowed : single .consumer = none ∨ single .consumer = some i)
    (hquiet : r.cons.tail = r.cons.head) (objTable : ℕ → α) (n : UInt32) (behavior : Behavior) :
    let v := r.ringQueueScDoDequeue objTable n behavior
    ∃ s', Runs r.discipline single s s' ∧
      s.SoloAt s' i v.1.shared (.returned .consumer v.2.1 v.2.2) := by
  obtain ⟨s', hruns, hs'⟩ := runs_solo (d := r.discipline) ⟨n, behavior⟩ objTable hready hallowed
    (by rw [hmem]; exact hquiet)
  refine ⟨s', hruns, ?_⟩
  rw [hmem] at hs'
  rw [ringQueueScDoDequeue_eq_solo, shared_withShared]
  exact hs'

end Alone

/-! ## The order of the indices -/

/-- **The indices of the ring keep their cyclic order**, and `free_entries` and `entries` are at
most `count - 1` whenever the `cmpxchg` that uses them succeeds, in every run that publishes no
non-empty batch past an empty one that has left its wait. -/
theorem concurrent_orderKept [DecidableEq ι] {null : α} {count flags : UInt32} {pages : Bool}
    {r : RingQueue α} (hcreate : ringQueueCreate null count flags pages = some r)
    (hcount : 2 ≤ count) :
    r.discipline.capacity = count.toNat - 1 ∧
      OrderKept r.discipline (fun _ => none : Side → Option ι) (Guard fun _ => none) r.start := by
  have hpos : (1 : UInt32) ≤ count := UInt32.le_trans (by decide) hcount
  have hsized := wellSized_of_create hcreate hpos
  rw [start_of_create hcreate]
  refine ⟨?_, orderKept hsized.lawful _ null⟩
  obtain ⟨-, rfl⟩ := ringQueueCreate_eq_some.mp hcreate
  exact hsized.mask_eq

/-- The indices of a ring of four slots. -/
theorem concurrent_orderKept_four :
    fourSlots.discipline.capacity = 3 ∧
      OrderKept fourSlots.discipline (fun _ => none : Side → Option (Fin 3)) (Guard fun _ => none)
        fourSlots.start :=
  concurrent_orderKept (show ringQueueCreate 0 4 0 true = some fourSlots from rfl) (by decide)

/-! ## The race with an empty batch -/

/-- CPU 0 enqueues nothing and stops before its tail store, CPU 1 enqueues one pointer, CPU 2
dequeues it, then CPU 0 stores the producer tail. -/
def staleStore : List (Action (Fin 3) Request ℕ) :=
  [.call 0 .producer ⟨0, .ringQueueFixed⟩ fun _ => 0] ++ List.replicate 5 (.run 0) ++
    [.call 1 .producer ⟨1, .ringQueueFixed⟩ fun _ => 7] ++ List.replicate 7 (.run 1) ++
    [.call 2 .consumer ⟨1, .ringQueueFixed⟩ fun _ => 0] ++ List.replicate 7 (.run 2) ++ [.run 0]

/-- The state after `staleStore`. -/
def stale : State (Fin 3) Request ℕ :=
  (runOk (step fourSlots.discipline fun _ => none) (fun s _ => s.Windowed fun _ => none)
    fourSlots.start staleStore).get (by decide)

/-- **The tail store of the empty batch breaks the order**: `prod.tail` is back at 0 while
`cons.head` is 1. -/
theorem concurrent_order_broken :
    ringQueueCreate 0 4 0 true = some fourSlots ∧
      ¬ OrderKept fourSlots.discipline (fun _ => none : Side → Option (Fin 3))
        (fun s _ => s.Windowed fun _ => none) fourSlots.start := by
  refine ⟨rfl, fun h => ?_⟩
  have hreach : Reachable (step fourSlots.discipline fun _ => none)
      (fun s _ => s.Windowed fun _ => none) fourSlots.start stale :=
    reachable_of_runOk (Option.some_get _).symm
  -- CPU 0 stored the tail 0 of its empty batch after CPU 2 had moved its head past it
  exact absurd (h stale hreach).1.pTail_le_pHead (by decide)

end RingQueue
