import PrototypeKernel.Foundation.Cyclic
import Mathlib.Data.Int.Notation
import Mathlib.Data.Fintype.Defs
import Mathlib.Logic.Function.Basic

/-! # Rings shared by reservation

A bounded ring of slots is shared by producers and consumers through four free-running `u32`
indices, a head and a tail for each side. A call loads its own head and the opposite tail, decides
from the wrapping difference how many positions it takes, moves its head over them (by a
compare-and-swap, or by a plain store when its side has a single user), copies the slots one by one,
waits until its tail has reached the start of its batch and then moves the tail over the batch.

The two sides run the same protocol: a consumer takes from the positions the producers have
published, a producer from the positions the consumers have released plus the ring's capacity. So
everything below is indexed by a `Side`, and a `Discipline` holds what tells one ring implementation
from another: the difference it computes, the batch it grants, the order in which it walks the
slots and what it returns. -/

namespace ReserveRing

variable {ι Req α : Type*}

/-! ## Memory -/

/-- The two sides of a ring. -/
inductive Side where
  | producer
  | consumer
  deriving DecidableEq, Repr

/-- The opposite side. -/
def Side.other : Side → Side
  | .producer => .consumer
  | .consumer => .producer

/-- The other side of the other side is the side. -/
@[simp] theorem Side.other_other (sd : Side) : sd.other.other = sd := by cases sd <;> rfl

/-- The two sides are different. -/
@[simp] theorem Side.other_ne (sd : Side) : sd.other ≠ sd := by cases sd <;> exact nofun

/-- The shared memory: a head and a tail index for each side, and the ring's slots. -/
structure Shared (α : Type*) where
  /-- Positions up to the head are taken by calls of this side. -/
  head : Side → UInt32
  /-- Positions up to the tail are done with by this side. -/
  tail : Side → UInt32
  /-- The slots. -/
  ring : ℕ → α

/-- The unbounded positions behind the four indices. The code has only their residues. -/
structure Positions where
  /-- Position of each head. -/
  head : Side → ℕ
  /-- Position of each tail. -/
  tail : Side → ℕ

/-- Store the head index of side `sd`. -/
def Shared.setHead (m : Shared α) (sd : Side) (v : UInt32) : Shared α :=
  { m with head := Function.update m.head sd v }

/-- Store the tail index of side `sd`. -/
def Shared.setTail (m : Shared α) (sd : Side) (v : UInt32) : Shared α :=
  { m with tail := Function.update m.tail sd v }

/-- Store a slot. -/
def Shared.setSlot (m : Shared α) (slot : ℕ) (p : α) : Shared α :=
  { m with ring := Function.update m.ring slot p }

/-- Advance the head position of side `sd` by `k`. -/
def Positions.moveHead (pos : Positions) (sd : Side) (k : ℕ) : Positions :=
  { pos with head := Function.update pos.head sd (pos.head sd + k) }

/-- Advance the tail position of side `sd` by `k`. -/
def Positions.moveTail (pos : Positions) (sd : Side) (k : ℕ) : Positions :=
  { pos with tail := Function.update pos.tail sd (pos.tail sd + k) }

section Simp

variable (m : Shared α) (pos : Positions) (sd : Side) (v : UInt32) (k slot : ℕ) (p : α)

/-- `setHead` changes the head of its side. -/
@[simp] theorem Shared.setHead_head : (m.setHead sd v).head = Function.update m.head sd v := rfl
/-- `setHead` leaves the tails. -/
@[simp] theorem Shared.setHead_tail : (m.setHead sd v).tail = m.tail := rfl
/-- `setHead` leaves the slots. -/
@[simp] theorem Shared.setHead_ring : (m.setHead sd v).ring = m.ring := rfl
/-- `setTail` leaves the heads. -/
@[simp] theorem Shared.setTail_head : (m.setTail sd v).head = m.head := rfl
/-- `setTail` changes the tail of its side. -/
@[simp] theorem Shared.setTail_tail : (m.setTail sd v).tail = Function.update m.tail sd v := rfl
/-- `setTail` leaves the slots. -/
@[simp] theorem Shared.setTail_ring : (m.setTail sd v).ring = m.ring := rfl
/-- `setSlot` leaves the heads. -/
@[simp] theorem Shared.setSlot_head : (m.setSlot slot p).head = m.head := rfl
/-- `setSlot` leaves the tails. -/
@[simp] theorem Shared.setSlot_tail : (m.setSlot slot p).tail = m.tail := rfl
/-- `setSlot` changes its slot. -/
@[simp] theorem Shared.setSlot_ring :
    (m.setSlot slot p).ring = Function.update m.ring slot p := rfl

/-- `moveHead` moves the head of its side. -/
@[simp] theorem Positions.moveHead_head :
    (pos.moveHead sd k).head = Function.update pos.head sd (pos.head sd + k) := rfl

/-- `moveHead` leaves the tails. -/
@[simp] theorem Positions.moveHead_tail : (pos.moveHead sd k).tail = pos.tail := rfl
/-- `moveTail` leaves the heads. -/
@[simp] theorem Positions.moveTail_head : (pos.moveTail sd k).head = pos.head := rfl
/-- `moveTail` moves the tail of its side. -/
@[simp] theorem Positions.moveTail_tail :
    (pos.moveTail sd k).tail = Function.update pos.tail sd (pos.tail sd + k) := rfl

/-- No head moves back. -/
theorem Positions.head_le_moveHead (sd' : Side) : pos.head sd' ≤ (pos.moveHead sd k).head sd' := by
  by_cases h : sd' = sd
  · subst h; simp
  · simp [h]

/-- No tail moves back. -/
theorem Positions.tail_le_moveTail (sd' : Side) : pos.tail sd' ≤ (pos.moveTail sd k).tail sd' := by
  by_cases h : sd' = sd
  · subst h; simp
  · simp [h]

end Simp

/-! ## Calls -/

/-- A batch of positions taken by one call. -/
structure Batch (Req α : Type*) where
  /-- The request the call was made with. -/
  req : Req
  /-- The caller's pointer array: the source of a store, the target of a load. -/
  ptr : ℕ → α
  /-- The head index the call read. -/
  head : UInt32
  /-- The available positions it computed. -/
  avail : UInt32
  /-- The number of positions it takes. -/
  len : UInt32
  /-- The position behind `head` (ghost). -/
  start : ℕ

/-- The head index once the batch is taken, and the tail index once it is done with. -/
def Batch.next (b : Batch Req α) : UInt32 := b.head + b.len

/-- The pointers of the batch. -/
def Batch.ptrs (b : Batch Req α) : List α := (List.range b.len.toNat).map b.ptr

/-- Where one user of the ring stands in its current call. -/
inductive Pc (Req α : Type*) where
  /-- No call yet. -/
  | idle
  /-- About to load the own head. -/
  | loadHead (sd : Side) (req : Req) (ptr : ℕ → α)
  /-- Own head read, about to load the opposite tail. The positions at the first load (ghost) tell
  how long the reserve loop has been running. -/
  | loadTail (sd : Side) (req : Req) (ptr : ℕ → α) (head : UInt32) (since : Positions)
  /-- Batch decided, about to move the own head over it. -/
  | swapHead (sd : Side) (b : Batch Req α) (since : Positions)
  /-- Batch taken, about to do slot access number `k`. -/
  | copy (sd : Side) (b : Batch Req α) (k : ℕ)
  /-- Slots copied, waiting for the own tail to reach the batch. -/
  | waitTail (sd : Side) (b : Batch Req α)
  /-- About to move the own tail over the batch. -/
  | storeTail (sd : Side) (b : Batch Req α)
  /-- The call returned `code`, leaving `ptr` in the caller's array. -/
  | returned (sd : Side) (ptr : ℕ → α) (code : ℤ)

/-- No call is running, so a new one may start. -/
def Pc.ready : Pc Req α → Bool
  | .idle | .returned .. => true
  | _ => false

/-- The side and the first-load positions of a call inside its reserve loop. -/
def Pc.since? : Pc Req α → Option (Side × Positions)
  | .loadTail sd _ _ _ since | .swapHead sd _ since => some (sd, since)
  | _ => none

/-- The side, start and length of the batch that a call has taken and not yet published. -/
def Pc.span? : Pc Req α → Option (Side × ℕ × ℕ)
  | .copy sd b _ | .waitTail sd b | .storeTail sd b => some (sd, b.start, b.len.toNat)
  | _ => none

/-- The side of the running call. -/
def Pc.side? : Pc Req α → Option Side
  | .idle | .returned .. => none
  | .loadHead sd .. | .loadTail sd .. | .swapHead sd .. | .copy sd .. | .waitTail sd ..
  | .storeTail sd .. => some sd

/-! ## Disciplines -/

/-- What one ring implementation computes. -/
structure Discipline (Req : Type*) where
  /-- How many positions producers may be ahead of consumers. -/
  capacity : ℕ
  /-- The number of slots. -/
  slots : ℕ
  /-- Available positions, from the own head and the opposite tail. -/
  avail : Side → UInt32 → UInt32 → UInt32
  /-- The batch length granted for the available positions, or an early return. -/
  grant : Side → Req → UInt32 → Except ℤ UInt32
  /-- The slot accesses of a batch in program order: slot and index in the caller's array, from the
  head index and the length. -/
  access : Side → UInt32 → UInt32 → List (ℕ × ℕ)
  /-- The value returned after a batch, from the available positions and the length. -/
  result : Side → Req → UInt32 → UInt32 → ℤ

/-- How far the own head may be ahead of the opposite tail. -/
def Discipline.room (d : Discipline Req) : Side → ℕ
  | .producer => d.capacity
  | .consumer => 0

/-- The laws a discipline obeys so that the protocol is safe. -/
structure Discipline.Lawful (d : Discipline Req) : Prop where
  /-- The slot of a position can be read off its index. -/
  slots_dvd : d.slots ∣ 2 ^ 32
  /-- The slots outnumber the positions in use, and stay far below the index range. -/
  capacity_le : d.capacity ≤ d.slots
  slots_le : d.slots ≤ 2 ^ 31
  avail_eq : ∀ sd head tail, d.avail sd head tail = UInt32.ofNat (d.room sd) + tail - head
  grant_le : ∀ {sd req a len}, d.grant sd req a = .ok len → len ≤ a
  access_eq : ∀ sd p len, len.toNat ≤ d.capacity → d.access sd (UInt32.ofNat p) len
    = (List.range len.toNat).map fun k => ((p + k) % d.slots, k)

/-! ## States and steps -/

/-- The state of a ring and its users `ι`, with the ghost history of what went through it. -/
structure State (ι Req α : Type*) where
  /-- The shared memory. -/
  mem : Shared α
  /-- The place of each user. -/
  pc : ι → Pc Req α
  /-- The positions behind the indices (ghost). -/
  pos : Positions
  /-- The pointer taken for each position by the producers, in position order (ghost). -/
  sent : List α
  /-- The pointers of the dequeues that have moved the consumer tail, in that order (ghost). -/
  received : List α

/-- What a user may do next: start a call, or take the next step of the running one. -/
inductive Action (ι Req α : Type*) where
  | call (i : ι) (sd : Side) (req : Req) (ptr : ℕ → α)
  | run (i : ι)

/-- All indices zero, all slots `null`, no call. -/
def State.init (null : α) : State ι Req α where
  mem := { head := fun _ => 0, tail := fun _ => 0, ring := fun _ => null }
  pc := fun _ => .idle
  pos := { head := fun _ => 0, tail := fun _ => 0 }
  sent := []
  received := []

section Step

variable [DecidableEq ι]

/-- Move user `i` to `pc`. -/
def State.goto (s : State ι Req α) (i : ι) (pc : Pc Req α) : State ι Req α :=
  { s with pc := Function.update s.pc i pc }

/-- Move the head of side `sd` over the batch. -/
def State.reserve (s : State ι Req α) (sd : Side) (b : Batch Req α) : State ι Req α :=
  { s with
    mem := s.mem.setHead sd b.next
    pos := s.pos.moveHead sd (Cyclic.gap (s.mem.head sd) b.next)
    sent := match sd with
      | .producer => s.sent ++ b.ptrs
      | .consumer => s.sent }

/-- Move the tail of side `sd` over the batch. -/
def State.publish (s : State ι Req α) (sd : Side) (b : Batch Req α) : State ι Req α :=
  { s with
    mem := s.mem.setTail sd b.next
    pos := s.pos.moveTail sd (Cyclic.gap (s.mem.tail sd) b.next)
    received := match sd with
      | .producer => s.received
      | .consumer => s.received ++ b.ptrs }

/-- One slot access: a producer stores `ptr[j]` into the slot, a consumer loads it from there. -/
def State.transfer (s : State ι Req α) (i : ι) (sd : Side) (b : Batch Req α) (k slot j : ℕ) :
    State ι Req α :=
  match sd with
  | .producer =>
      State.goto { s with mem := s.mem.setSlot slot (b.ptr j) } i (.copy sd b (k + 1))
  | .consumer =>
      s.goto i (.copy sd { b with ptr := Function.update b.ptr j (s.mem.ring slot) } (k + 1))

/-- The next step of user `i`. A side with `single` user `some i` is used by `i` alone, which then
moves the head by a plain store and does not wait for the tail. -/
def State.advance (d : Discipline Req) (single : Side → Option ι) (s : State ι Req α) (i : ι) :
    Option (State ι Req α) :=
  match s.pc i with
  | .idle | .returned .. => none
  | .loadHead sd req ptr => some (s.goto i (.loadTail sd req ptr (s.mem.head sd) s.pos))
  | .loadTail sd req ptr head since =>
      let avail := d.avail sd head (s.mem.tail sd.other)
      match d.grant sd req avail with
      -- not enough available positions for the request: no index is touched
      | .error code => some (s.goto i (.returned sd ptr code))
      | .ok len =>
          some (s.goto i (.swapHead sd ⟨req, ptr, head, avail, len, since.head sd⟩ since))
  | .swapHead sd b _ =>
      if (single sd).isSome ∨ s.mem.head sd = b.head then
        some ((s.reserve sd b).goto i (.copy sd b 0))
      -- the head has moved since it was read, so the loads are made again
      else some (s.goto i (.loadHead sd b.req b.ptr))
  | .copy sd b k =>
      match (d.access sd b.head b.len)[k]? with
      | some (slot, j) => some (s.transfer i sd b k slot j)
      -- all slots copied; the only user of a side has nobody to wait for
      | none => some (s.goto i (if (single sd).isSome then .storeTail sd b else .waitTail sd b))
  | .waitTail sd b =>
      if s.mem.tail sd = b.head then some (s.goto i (.storeTail sd b)) else some s
  | .storeTail sd b =>
      some ((s.publish sd b).goto i (.returned sd b.ptr (d.result sd b.req b.avail b.len)))

/-- A call that goes on leaves the memory. -/
@[simp] theorem State.goto_mem (s : State ι Req α) (i : ι) (pc : Pc Req α) :
    (s.goto i pc).mem = s.mem := rfl

/-- A call that goes on leaves the positions. -/
@[simp] theorem State.goto_pos (s : State ι Req α) (i : ι) (pc : Pc Req α) :
    (s.goto i pc).pos = s.pos := rfl

/-- A call goes on where it is sent. -/
@[simp] theorem State.goto_pc_self (s : State ι Req α) (i : ι) (pc : Pc Req α) :
    (s.goto i pc).pc i = pc := Function.update_self ..

/-- The other calls stay where they are. -/
theorem State.goto_pc_of_ne (s : State ι Req α) {i j : ι} (h : j ≠ i) (pc : Pc Req α) :
    (s.goto i pc).pc j = s.pc j := Function.update_of_ne h ..

/-- What holds of the place of every user, and of the place a call moves to. -/
theorem State.forall_goto {P : Pc Req α → Prop} {s : State ι Req α} {i : ι} {pc : Pc Req α}
    (h : ∀ j, P (s.pc j)) (hpc : P pc) (j : ι) : P ((s.goto i pc).pc j) := by
  by_cases hj : j = i
  · subst hj
    rwa [State.goto_pc_self]
  · rw [s.goto_pc_of_ne hj]
    exact h j

/-- The step function of the ring. -/
def step (d : Discipline Req) (single : Side → Option ι) (s : State ι Req α) :
    Action ι Req α → Option (State ι Req α)
  | .call i sd req ptr =>
      if (s.pc i).ready ∧ (single sd = none ∨ single sd = some i) then
        some (s.goto i (.loadHead sd req ptr))
      else none
  | .run i => s.advance d single i

end Step

/-! ## What a step can do -/

section Moves

variable [DecidableEq ι]

/-- **The outcomes of a step**: the place the user leaves, the test it passed there, and the state
it makes. -/
inductive Move (d : Discipline Req) (single : Side → Option ι) (s : State ι Req α) :
    Action ι Req α → State ι Req α → Prop
  | call {i sd req ptr} (hready : (s.pc i).ready)
      (hallowed : single sd = none ∨ single sd = some i) :
      Move d single s (.call i sd req ptr) (s.goto i (.loadHead sd req ptr))
  | loadHead {i sd req ptr} (hpc : s.pc i = .loadHead sd req ptr) :
      Move d single s (.run i) (s.goto i (.loadTail sd req ptr (s.mem.head sd) s.pos))
  | refused {i sd req ptr head since code} (hpc : s.pc i = .loadTail sd req ptr head since)
      (hgrant : d.grant sd req (d.avail sd head (s.mem.tail sd.other)) = .error code) :
      Move d single s (.run i) (s.goto i (.returned sd ptr code))
  | granted {i sd req ptr head since len} (hpc : s.pc i = .loadTail sd req ptr head since)
      (hgrant : d.grant sd req (d.avail sd head (s.mem.tail sd.other)) = .ok len) :
      Move d single s (.run i) (s.goto i (.swapHead sd
        ⟨req, ptr, head, d.avail sd head (s.mem.tail sd.other), len, since.head sd⟩ since))
  | reserve {i sd b since} (hpc : s.pc i = .swapHead sd b since)
      (hgo : (single sd).isSome ∨ s.mem.head sd = b.head) :
      Move d single s (.run i) ((s.reserve sd b).goto i (.copy sd b 0))
  | retry {i sd b since} (hpc : s.pc i = .swapHead sd b since)
      (hgo : ¬ ((single sd).isSome ∨ s.mem.head sd = b.head)) :
      Move d single s (.run i) (s.goto i (.loadHead sd b.req b.ptr))
  | transfer {i sd b k slot j} (hpc : s.pc i = .copy sd b k)
      (hget : (d.access sd b.head b.len)[k]? = some (slot, j)) :
      Move d single s (.run i) (s.transfer i sd b k slot j)
  | copied {i sd b k} (hpc : s.pc i = .copy sd b k)
      (hget : (d.access sd b.head b.len)[k]? = none) :
      Move d single s (.run i)
        (s.goto i (if (single sd).isSome then .storeTail sd b else .waitTail sd b))
  | waited {i sd b} (hpc : s.pc i = .waitTail sd b) (htail : s.mem.tail sd = b.head) :
      Move d single s (.run i) (s.goto i (.storeTail sd b))
  | spin {i sd b} (hpc : s.pc i = .waitTail sd b) (htail : s.mem.tail sd ≠ b.head) :
      Move d single s (.run i) s
  | publish {i sd b} (hpc : s.pc i = .storeTail sd b) :
      Move d single s (.run i)
        ((s.publish sd b).goto i (.returned sd b.ptr (d.result sd b.req b.avail b.len)))

/-- **Every step is a move.** -/
theorem move_of_step {d : Discipline Req} {single : Side → Option ι} {s s' : State ι Req α}
    {a : Action ι Req α} (hstep : step d single s a = some s') : Move d single s a s' := by
  cases a with
  | call i sd req ptr =>
    obtain ⟨⟨hready, hallowed⟩, hs⟩ := Option.ite_none_right_eq_some.mp hstep
    cases hs
    exact .call hready hallowed
  | run i =>
    simp only [step, State.advance] at hstep
    -- one case per place, split by the outcome of the test made there
    cases hpc : s.pc i with
    | idle | returned =>
      rw [hpc] at hstep
      cases hstep
    | loadHead sd req ptr =>
      rw [hpc] at hstep
      cases hstep
      exact .loadHead hpc
    | loadTail sd req ptr head since =>
      rw [hpc] at hstep
      simp only at hstep
      split at hstep <;> cases hstep
      · exact .refused hpc ‹_›
      · exact .granted hpc ‹_›
    | swapHead sd b since =>
      rw [hpc] at hstep
      simp only at hstep
      split at hstep <;> cases hstep
      · exact .reserve hpc ‹_›
      · exact .retry hpc ‹_›
    | copy sd b k =>
      rw [hpc] at hstep
      simp only at hstep
      split at hstep <;> cases hstep
      · exact .transfer hpc ‹_›
      · exact .copied hpc ‹_›
    | waitTail sd b =>
      rw [hpc] at hstep
      simp only at hstep
      split at hstep <;> cases hstep
      · exact .waited hpc ‹_›
      · exact .spin hpc ‹_›
    | storeTail sd b =>
      rw [hpc] at hstep
      cases hstep
      exact .publish hpc

end Moves

/-! ## Assumptions on a run -/

/-- A reserve loop of a shared side is **fresh** while no index has moved `2 ^ 31` or more since its
first load. -/
def Pc.Fresh (single : Side → Option ι) (pos : Positions) (pc : Pc Req α) : Prop :=
  match pc.since? with
  | none => True
  | some (sd, since) => single sd = none → ∀ sd' : Side,
      pos.head sd' < since.head sd' + 2 ^ 31 ∧ pos.tail sd' < since.tail sd' + 2 ^ 31

instance [DecidableEq ι] (single : Side → Option ι) (pos : Positions) (pc : Pc Req α) :
    Decidable (pc.Fresh single pos) :=
  match h : pc.since? with
  | none => .isTrue (by rw [Pc.Fresh, h]; trivial)
  | some (sd, since) =>
    decidable_of_iff (single sd = none →
      (pos.head .producer < since.head .producer + 2 ^ 31 ∧
        pos.tail .producer < since.tail .producer + 2 ^ 31) ∧
      (pos.head .consumer < since.head .consumer + 2 ^ 31 ∧
        pos.tail .consumer < since.tail .consumer + 2 ^ 31)) (by
      rw [Pc.Fresh, h]
      exact imp_congr_right fun _ =>
        ⟨fun h sd => by cases sd; exacts [h.1, h.2], fun h => ⟨h _, h _⟩⟩)

/-- Every reserve loop is fresh: none stays between its index loads and its compare-and-swap while
an index advances by `2 ^ 31` or more. -/
def State.Windowed (single : Side → Option ι) (s : State ι Req α) : Prop :=
  ∀ i, (s.pc i).Fresh single s.pos

instance [DecidableEq ι] [Fintype ι] (single : Side → Option ι) (s : State ι Req α) :
    Decidable (s.Windowed single) :=
  inferInstanceAs (Decidable (∀ i, (s.pc i).Fresh single s.pos))

/-- **No race with an empty batch.** A step that publishes a non-empty batch finds no other call of
its side that holds an empty batch and has already passed its wait for the tail. -/
def State.RaceFree (s : State ι Req α) : Action ι Req α → Prop
  | .call .. => True
  | .run i => ∀ sd b, s.pc i = .storeTail sd b → b.len ≠ 0 →
      ∀ j b', j ≠ i → s.pc j = .storeTail sd b' → b'.len ≠ 0

/-- Only calls whose request satisfies `P` are started. -/
def Action.Calls (P : Req → Prop) : Action ι Req α → Prop
  | .call _ _ req _ => P req
  | .run _ => True

instance (P : Req → Prop) [DecidablePred P] (a : Action ι Req α) : Decidable (a.Calls P) :=
  match a with
  | .call _ _ req _ => inferInstanceAs (Decidable (P req))
  | .run _ => .isTrue trivial

end ReserveRing
