import PrototypeKernel.AlfQueue.Concurrent
import PrototypeKernel.Foundation.ReserveRingProgress

/-! # A queue killed by an empty enqueue

`alf_mp_enqueue()` accepts `n = 0`. Its empty batch starts where the next batch starts, so both pass
the wait for the tail, and when the empty call stores last the published tail falls back by the
other batch. That is not a passing disturbance: the positions of the other batch are now owned by
nobody, every later enqueue waits for a tail that no call is going to store, and no dequeue finds
the queue non-empty again. -/

namespace AlfQueue

open ReserveRing TransitionSystem

variable {ι α : Type*} [DecidableEq ι]

/-! ## The race -/

/-- CPU `i` has called `alf_mp_enqueue()` with `n = 0` and has passed its wait. -/
def emptyHeld (q : AlfQueue α) (null : α) (i : ι) (ptr : ℕ → α) : State ι UInt32 α :=
  (State.init null).goto i (.storeTail .producer ⟨0, ptr, 0, q.size, 0, 0⟩)

/-- CPU `j` has enqueued one pointer meanwhile, and CPU `i` has stored its tail after that. -/
def lost (q : AlfQueue α) (null : α) (i j : ι) (ptr₀ ptr : ℕ → α) : State ι UInt32 α :=
  (State.goto {
    mem := {
      head := Function.update (fun _ => 0) .producer 1
      tail := fun _ => 0
      ring := Function.update (fun _ => null) 0 (ptr 0) }
    pc := (q.emptyHeld null i ptr₀).pc
    pos := {
      head := Function.update (fun _ => 0) .producer 1
      -- the fall by 1 counts as a move forward by almost a revolution
      tail := Function.update (fun _ => 0) .producer (2 ^ 32) }
    sent := [ptr 0]
    received := [] } j (.returned .producer ptr 1)).goto i (.returned .producer ptr₀ 0)

/-- What a call of a dead queue has seen: an enqueue has read a head behind the lost position, and a
dequeue has found nothing. -/
def DeadCall (size : UInt32) (m : Shared α) : Pc UInt32 α → Prop
  | .loadTail .producer _ _ head _ => 1 ≤ head.toNat ∧ head.toNat ≤ (m.head .producer).toNat
  | .loadTail .consumer _ _ head _ => head = 0
  | .swapHead sd b _ => sd = .producer ∧ 1 ≤ b.head.toNat ∧ b.head.toNat + b.len.toNat ≤ size.toNat
  | .copy sd b _ | .waitTail sd b => sd = .producer ∧ b.head ≠ 0
  | .storeTail .. => False
  | _ => True

/-- **The queue is dead**: `producer.tail` is back at 0 while `producer.head` is past it, nothing
has been delivered, and no call is in a position to store a tail. -/
structure Dead (size : UInt32) (s : State ι UInt32 α) : Prop where
  pTail : s.mem.tail .producer = 0
  cHead : s.mem.head .consumer = 0
  cTail : s.mem.tail .consumer = 0
  pHead_pos : 1 ≤ (s.mem.head .producer).toNat
  pHead_le : (s.mem.head .producer).toNat ≤ size.toNat
  received : s.received = []
  calls : ∀ k, DeadCall size s.mem (s.pc k)

variable {q : AlfQueue α} {s s' : State ι UInt32 α} {k : ι}

/-- A step that stores no index keeps the queue dead when the call's new place is one of a dead
queue. -/
theorem Dead.goto (h : Dead q.size s) {pc : Pc UInt32 α} (hpc : DeadCall q.size s.mem pc) :
    Dead q.size (s.goto k pc) :=
  { h with calls := State.forall_goto h.calls hpc }

/-- What the calls have seen stays true while the producer head does not fall. -/
theorem DeadCall.mono {m m' : Shared α} {pc : Pc UInt32 α} (h : DeadCall q.size m pc)
    (hle : (m.head .producer).toNat ≤ (m'.head .producer).toNat) : DeadCall q.size m' pc := by
  cases pc with
  | loadTail sd req ptr head since =>
    cases sd with
    | producer => exact ⟨h.1, h.2.trans hle⟩
    | consumer => exact h
  | _ => exact h

/-- **A dead queue stays dead**, whatever is called next. -/
theorem Dead.step (hq : q.WellSized) (h : Dead q.size s) {a : Action ι UInt32 α}
    (hstep : step q.discipline (fun _ => none) s a = some s') : Dead q.size s' := by
  -- what is known of the moving call
  have hold : ∀ {i : ι} {pc : Pc UInt32 α}, s.pc i = pc → DeadCall q.size s.mem pc :=
    fun hpc => hpc ▸ h.calls _
  cases move_of_step hstep with
  | call | refused | retry => exact h.goto trivial
  | @loadHead i sd req ptr hpc =>
    cases sd with
    | producer => exact h.goto ⟨h.pHead_pos, le_rfl⟩
    | consumer => exact h.goto h.cHead
  | @granted i sd req ptr head since len hpc hgrant =>
    cases sd with
    | producer =>
      obtain ⟨hpos, hle⟩ : 1 ≤ head.toNat ∧ head.toNat ≤ (s.mem.head .producer).toNat := hold hpc
      refine h.goto ⟨rfl, hpos, ?_⟩
      -- the space is what is left behind the head that was read
      have hspace : len.toNat ≤ (q.size + s.mem.tail .consumer - head).toNat :=
        UInt32.le_iff_toNat_le.mp (hq.lawful.grant_le hgrant)
      have hhead : head.toNat ≤ q.size.toNat := hle.trans h.pHead_le
      rw [h.cTail, UInt32.add_zero, UInt32.toNat_sub_of_le _ _ (UInt32.le_iff_toNat_le.mpr hhead)]
        at hspace
      show head.toNat + len.toNat ≤ q.size.toNat
      omega
    | consumer =>
      -- the tail of 0 leaves no element to a dequeue
      have hhead : head = 0 := hold hpc
      simp [discipline, Side.other, hhead, h.pTail] at hgrant
  | @reserve i sd b since hpc hgo =>
    obtain ⟨rfl, hpos, hfits⟩ := hold hpc
    have hhead : s.mem.head .producer = b.head := by simpa using hgo
    have hsize := hq.le
    have hnext : b.next.toNat = b.head.toNat + b.len.toNat := by
      rw [Batch.next, UInt32.toNat_add]
      omega
    refine { h with
      pHead_pos := ?_, pHead_le := ?_, calls := State.forall_goto (fun j => ?_) ?_ }
    · show 1 ≤ (Function.update s.mem.head .producer b.next .producer).toNat
      rw [Function.update_self]
      omega
    · show (Function.update s.mem.head .producer b.next .producer).toNat ≤ _
      rw [Function.update_self]
      omega
    · refine (h.calls j).mono ?_
      show _ ≤ (Function.update s.mem.head .producer b.next .producer).toNat
      rw [Function.update_self, hhead]
      omega
    · exact ⟨rfl, fun h0 => by rw [h0] at hpos; exact absurd hpos (by decide)⟩
  | @transfer i sd b n slot l hpc hget =>
    obtain ⟨rfl, hne⟩ := hold hpc
    have hput : Dead q.size { s with mem := s.mem.setSlot slot (b.ptr l) } :=
      { h with calls := fun j => (h.calls j).mono le_rfl }
    exact hput.goto ⟨rfl, hne⟩
  | @copied i sd b n hpc hget =>
    obtain ⟨rfl, hne⟩ := hold hpc
    exact h.goto ⟨rfl, hne⟩
  | @waited i sd b hpc htail =>
    -- nobody's batch starts at the tail
    obtain ⟨rfl, hne⟩ := hold hpc
    exact absurd (htail.symm.trans h.pTail) hne
  | spin => exact h
  | publish hpc => exact (hold hpc).elim

end AlfQueue
