import PrototypeKernel.AlfQueue.Discipline
import PrototypeKernel.Foundation.ReserveRingData
import PrototypeKernel.Foundation.ReserveRingSolo
import Mathlib.Data.Fintype.Basic

/-! # Concurrent callers

Any number of CPUs use one queue. With `single sd = none` the calls of side `sd` are those of
`alf_mp_enqueue()` and `alf_mc_dequeue()`, with `single sd = some i` those of `alf_sp_enqueue()` and
`alf_sc_dequeue()` made by CPU `i` alone. Every shared access is one step of `ReserveRing.step`.

Calls with `n ≥ 1` deliver exactly. A call with `n = 0` takes an empty batch, which starts where
another batch of its side starts: both pass the wait for the tail, and when the empty one stores
last it moves the tail back. -/

namespace AlfQueue

open ReserveRing TransitionSystem

variable {ι α : Type*}

/-- A queue that nobody has used yet. -/
def start (q : AlfQueue α) : State ι UInt32 α where
  mem := q.shared
  pc := fun _ => .idle
  pos := { head := fun _ => 0, tail := fun _ => 0 }
  sent := []
  received := []

/-- An allocated queue starts without calls, with all indices 0. -/
theorem start_of_alloc {null : α} {size : UInt32} {kzalloc : Bool} {q : AlfQueue α}
    (h : alfQueueAlloc null size kzalloc = .ok q) :
    (q.start : State ι UInt32 α) = State.init null := by
  obtain ⟨-, rfl⟩ := alfQueueAlloc_eq_ok.mp h
  simp only [start, State.init, shared, State.mk.injEq, Shared.mk.injEq, and_true]
  constructor <;> funext sd <;> cases sd <;> rfl

/-! ## Calls that run alone

A call that nobody overlaps is the straight-line operation of the same name. -/

section Alone

variable [DecidableEq ι] {single : Side → Option ι} {q : AlfQueue α} {s : State ι UInt32 α} {i : ι}

/-- Undisturbed, a CPU's enqueue has the effect and the result of `alf_sp_enqueue()`. -/
theorem runs_enqueue (hmem : s.mem = q.shared) (hready : (s.pc i).ready)
    (hallowed : single .producer = none ∨ single .producer = some i)
    (hquiet : q.producer.tail = q.producer.head) (ptr : ℕ → α) (n : UInt32) :
    ∃ s', Runs q.discipline single s s' ∧
      s.SoloAt s' i (q.alfSpEnqueue ptr n).1.shared
        (.returned .producer ptr (q.alfSpEnqueue ptr n).2) := by
  have hsolo := alfSpEnqueue_eq_solo q ptr n
  obtain ⟨s', hruns, hs'⟩ := runs_solo (d := q.discipline) n ptr hready hallowed
    (by rw [hmem]; exact hquiet)
  refine ⟨s', hruns, ?_⟩
  rw [hmem, hsolo.2] at hs'
  rw [hsolo.1, shared_withShared]
  exact hs'

/-- Undisturbed, a CPU's dequeue has the effect and the results of `alf_sc_dequeue()`. -/
theorem runs_dequeue (hmem : s.mem = q.shared) (hready : (s.pc i).ready)
    (hallowed : single .consumer = none ∨ single .consumer = some i)
    (hquiet : q.consumer.tail = q.consumer.head) (ptr : ℕ → α) (n : UInt32) :
    ∃ s', Runs q.discipline single s s' ∧
      s.SoloAt s' i (q.alfScDequeue ptr n).1.shared
        (.returned .consumer (q.alfScDequeue ptr n).2.1 (q.alfScDequeue ptr n).2.2) := by
  obtain ⟨s', hruns, hs'⟩ := runs_solo (d := q.discipline) n ptr hready hallowed
    (by rw [hmem]; exact hquiet)
  refine ⟨s', hruns, ?_⟩
  rw [hmem] at hs'
  rw [alfScDequeue_eq_solo, shared_withShared]
  exact hs'

end Alone

/-! ## Exact delivery -/

/-- Calls with `n ≥ 1` take no empty batch. -/
theorem positive (q : AlfQueue α) : q.discipline.Positive fun n => n ≠ 0 := by
  intro sd n a len hn hgrant
  cases sd with
  | producer =>
    simp only [discipline] at hgrant
    split at hgrant <;> cases hgrant
    exact hn
  | consumer =>
    simp only [discipline] at hgrant
    split at hgrant <;> cases hgrant
    rename_i ha
    intro h0
    have hmin := congrArg UInt32.toNat h0
    rw [KernelInt.toNat_min] at hmin
    -- a smaller one of two non-zero numbers is not zero
    rcases Nat.min_eq_zero_iff.mp hmin with h | h
    · exact ha (UInt32.toNat_inj.mp h)
    · exact hn (UInt32.toNat_inj.mp h)

/-- **Concurrent calls with `n ≥ 1` deliver exactly**, for any number of callers on shared sides or
a single caller on its own side: the indices keep their cyclic order, a dequeue obtains the pointers
that the enqueues wrote at its positions, and none is lost, repeated or overwritten unread. -/
theorem concurrent_delivers [DecidableEq ι] {null : α} {size : UInt32} {kzalloc : Bool}
    {q : AlfQueue α}
    (halloc : alfQueueAlloc null size kzalloc = .ok q) (single : Side → Option ι)
    {s : State ι UInt32 α}
    (hreach : Reachable (step q.discipline single)
      (fun s a => s.Windowed single ∧ a.Calls fun n => n ≠ 0) q.start s) :
    s.mem.CyclicOrder size.toNat ∧ s.Delivers q.discipline := by
  rw [start_of_alloc halloc] at hreach
  have hsize : q.discipline.capacity = size.toNat := by
    obtain ⟨-, rfl⟩ := alfQueueAlloc_eq_ok.mp halloc
    rfl
  rw [← hsize]
  exact delivers_of_positive (wellSized_of_alloc halloc).lawful q.positive hreach

/-- CPU 0 enqueues two pointers while CPU 1 enqueues one, then CPU 2 dequeues all three. -/
def threePointers : List (Action (Fin 4) UInt32 ℕ) :=
  [.call 0 .producer 2 fun j => j + 5, .call 1 .producer 1 fun _ => 9, .run 0, .run 0, .run 0,
    .run 1, .run 1, .run 1] ++ List.replicate 3 (.run 1) ++ List.replicate 5 (.run 0) ++
    List.replicate 2 (.run 1) ++ [.call 2 .consumer 4 fun _ => 0] ++ List.replicate 9 (.run 2)

/-- The state after `threePointers`. -/
def delivered : State (Fin 4) UInt32 ℕ :=
  (runOk (step four.discipline fun _ => none)
    (fun s a => s.Windowed (fun _ => none) ∧ a.Calls fun n => n ≠ 0) four.start
    threePointers).get (by decide)

/-- Three pointers of two producers, delivered to two consumers. -/
theorem concurrent_delivers_three :
    delivered.received = [5, 6, 9] ∧ delivered.mem.CyclicOrder 4 ∧
      delivered.Delivers four.discipline := by
  have hreach : Reachable (step four.discipline fun _ => none)
      (fun s a => s.Windowed (fun _ => none) ∧ a.Calls fun n => n ≠ 0) four.start delivered :=
    reachable_of_runOk (Option.some_get _).symm
  exact ⟨by decide, concurrent_delivers (show alfQueueAlloc 0 4 true = .ok four from rfl) _ hreach⟩

/-! ## The race with an empty batch -/

/-- **The published tails of `alf_mp_enqueue()` and `alf_mc_dequeue()` move forward** in every run
that publishes no non-empty batch past an empty one that has left its wait, and in which no reserve
loop is open while an index advances by `2 ^ 31`. -/
theorem concurrent_tailsForward [DecidableEq ι] {null : α} {size : UInt32} {kzalloc : Bool}
    {q : AlfQueue α}
    (halloc : alfQueueAlloc null size kzalloc = .ok q) :
    TailsForward q.discipline (fun _ => none : Side → Option ι) (Guard fun _ => none) q.start := by
  rw [start_of_alloc halloc]
  exact tailsForward (wellSized_of_alloc halloc).lawful _ null

/-- The tails of a queue of four slots, with four CPUs. -/
theorem concurrent_tailsForward_four :
    TailsForward four.discipline (fun _ => none : Side → Option (Fin 4)) (Guard fun _ => none)
      four.start :=
  concurrent_tailsForward (show alfQueueAlloc 0 4 true = .ok four from rfl)

/-- CPU 0 enqueues nothing and stops before its tail store, CPU 1 enqueues one pointer. -/
def emptyRace : List (Action (Fin 4) UInt32 ℕ) :=
  [.call 0 .producer 0 fun _ => 0, .run 0, .run 0, .run 0, .run 0, .run 0,
    .call 1 .producer 1 fun _ => 7, .run 1, .run 1, .run 1, .run 1, .run 1, .run 1, .run 1]

/-- The state after `emptyRace`. -/
def raced : State (Fin 4) UInt32 ℕ :=
  (runOk (step four.discipline fun _ => none) (fun s _ => s.Windowed fun _ => none) four.start
    emptyRace).get (by decide)

/-- **The tail store of the empty batch moves the published tail back**: `producer.tail` is 1 before
it and 0 after it. -/
theorem concurrent_tail_moves_back :
    alfQueueAlloc 0 4 true = .ok four ∧
      ¬ TailsForward four.discipline (fun _ => none : Side → Option (Fin 4))
        (fun s _ => s.Windowed fun _ => none) four.start := by
  refine ⟨rfl, fun h => ?_⟩
  have hreach : Reachable (step four.discipline fun _ => none)
      (fun s _ => s.Windowed fun _ => none) four.start raced :=
    reachable_of_runOk (Option.some_get _).symm
  -- the next step of CPU 0 is the tail store, and it goes almost a full cycle forward
  have hgap := (h raced _ 0 .producer ⟨0, fun _ => 0, 0, 4, 0, 0⟩ hreach (by decide)
    rfl rfl).gap_le
  exact absurd hgap (by decide)

end AlfQueue
