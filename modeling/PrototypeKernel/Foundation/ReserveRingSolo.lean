import PrototypeKernel.Foundation.ReserveRingIndex
import Mathlib.Data.List.Basic

/-! # Calls that run alone

When the calls of a ring do not overlap, the reserve loop succeeds at its first attempt and the tail
is where the batch starts, so a call amounts to the straight-line function `Discipline.solo`. This
file defines it and relates it to the step function: `runs_solo`. -/

namespace ReserveRing

open TransitionSystem

variable {ι Req α : Type*} {d : Discipline Req} {single : Side → Option ι}

/-! ## The straight-line call -/

/-- One slot access on the memory and the caller's array. -/
def accessSlot (sd : Side) (mp : Shared α × (ℕ → α)) (a : ℕ × ℕ) : Shared α × (ℕ → α) :=
  match sd with
  | .producer => (mp.1.setSlot a.1 (mp.2 a.2), mp.2)
  | .consumer => (mp.1, Function.update mp.2 a.2 (mp.1.ring a.1))

/-- The slot accesses of a batch, in order. -/
def copySlots (sd : Side) (accesses : List (ℕ × ℕ)) (m : Shared α) (ptr : ℕ → α) :
    Shared α × (ℕ → α) :=
  accesses.foldl (accessSlot sd) (m, ptr)

/-- The stores of a batch change the slots only. -/
theorem copySlots_producer_eq (accesses : List (ℕ × ℕ)) (m : Shared α) (ptr : ℕ → α) :
    copySlots .producer accesses m ptr
      = ({ m with ring := accesses.foldl (fun r a => Function.update r a.1 (ptr a.2)) m.ring },
          ptr) := by
  induction accesses generalizing m with
  | nil => rfl
  | cons a as ih => exact ih ..

/-- The loads of a batch change the caller's array only. -/
theorem copySlots_consumer_eq (accesses : List (ℕ × ℕ)) (m : Shared α) (ptr : ℕ → α) :
    copySlots .consumer accesses m ptr
      = (m, accesses.foldl (fun r a => Function.update r a.2 (m.ring a.1)) ptr) := by
  induction accesses generalizing ptr with
  | nil => rfl
  | cons a as ih => exact ih ..

/-- Copying leaves the tails. -/
theorem copySlots_tail (sd : Side) (accesses : List (ℕ × ℕ)) (m : Shared α) (ptr : ℕ → α) :
    (copySlots sd accesses m ptr).1.tail = m.tail := by
  cases sd
  · rw [copySlots_producer_eq]
  · rw [copySlots_consumer_eq]

/-- **A call that runs alone**: the memory it leaves, the caller's array and the returned value. -/
def Discipline.solo (d : Discipline Req) (sd : Side) (req : Req) (m : Shared α) (ptr : ℕ → α) :
    Shared α × (ℕ → α) × ℤ :=
  let head := m.head sd
  let avail := d.avail sd head (m.tail sd.other)
  match d.grant sd req avail with
  | .error code => (m, ptr, code)
  | .ok len =>
      let copied := copySlots sd (d.access sd head len) (m.setHead sd (head + len)) ptr
      (copied.1.setTail sd (head + len), copied.2, d.result sd req avail len)

/-! ## Agreement with the step function -/

section Agreement

variable [DecidableEq ι]

/-- Runs without any restriction on the scheduler. -/
abbrev Runs (d : Discipline Req) (single : Side → Option ι) (s s' : State ι Req α) : Prop :=
  Reachable (step d single) (fun _ _ => True) s s'

/-- What a stretch of steps of user `i` alone leaves: the memory `m`, the call at `pc`, the other
users where they were. -/
structure State.SoloAt (s s' : State ι Req α) (i : ι) (m : Shared α) (pc : Pc Req α) : Prop where
  mem_eq : s'.mem = m
  pc_eq : s'.pc i = pc
  others : ∀ j, j ≠ i → s'.pc j = s.pc j

omit [DecidableEq ι] in
/-- Two undisturbed parts of a call are one. -/
theorem State.SoloAt.trans {s s₁ s₂ : State ι Req α} {i : ι} {m m' : Shared α} {pc pc' : Pc Req α}
    (h₁ : s.SoloAt s₁ i m pc) (h₂ : s₁.SoloAt s₂ i m' pc') : s.SoloAt s₂ i m' pc' :=
  ⟨h₂.mem_eq, h₂.pc_eq, fun j hj => (h₂.others j hj).trans (h₁.others j hj)⟩

/-- A single step of user `i`. -/
theorem runs_step {s s' : State ι Req α} {i : ι} (hstep : s.advance d single i = some s') :
    Runs d single s s' :=
  Reachable.single trivial (show step d single s (.run i) = some s' from hstep)

/-- The copy loop, from access number `k` on. -/
theorem runs_copy (d : Discipline Req) (single : Side → Option ι) {s : State ι Req α} {i : ι}
    {sd : Side} {b : Batch Req α} {k : ℕ} (hpc : s.pc i = .copy sd b k) :
    ∃ s', Runs d single s s' ∧
      let copied := copySlots sd ((d.access sd b.head b.len).drop k) s.mem b.ptr
      s.SoloAt s' i copied.1
        (.copy sd { b with ptr := copied.2 } (max k (d.access sd b.head b.len).length)) := by
  -- induction on the number of accesses left
  obtain ⟨n, hn⟩ : ∃ n, (d.access sd b.head b.len).length - k = n := ⟨_, rfl⟩
  induction n generalizing s b k with
  | zero =>
    have hle : (d.access sd b.head b.len).length ≤ k := by omega
    refine ⟨s, .refl, ?_⟩
    rw [List.drop_eq_nil_of_le hle, max_eq_left hle]
    exact ⟨rfl, hpc, fun _ _ => rfl⟩
  | succ n ih =>
    have hlt : k < (d.access sd b.head b.len).length := by omega
    obtain ⟨⟨slot, j⟩, ha⟩ : ∃ a, (d.access sd b.head b.len)[k] = a := ⟨_, rfl⟩
    have hget : (d.access sd b.head b.len)[k]? = some (slot, j) := by
      rw [List.getElem?_eq_getElem hlt, ha]
    have hstep : s.advance d single i = some (s.transfer i sd b k slot j) := by
      simp only [State.advance, hpc, hget]
    have hdrop : (d.access sd b.head b.len).drop k
        = (slot, j) :: (d.access sd b.head b.len).drop (k + 1) := by
      rw [List.drop_eq_getElem_cons hlt, ha]
    have hmax : max k (d.access sd b.head b.len).length
        = max (k + 1) (d.access sd b.head b.len).length := by omega
    rw [hdrop, hmax]
    cases sd with
    | producer =>
      obtain ⟨s', hr, hs'⟩ := ih (s := s.transfer i .producer b k slot j) (b := b) (k := k + 1)
        (State.goto_pc_self ..) (by omega)
      exact ⟨s', (runs_step hstep).trans hr, hs'.mem_eq, hs'.pc_eq,
        fun l hl => (hs'.others l hl).trans (State.goto_pc_of_ne _ hl _)⟩
    | consumer =>
      obtain ⟨s', hr, hs'⟩ := ih (s := s.transfer i .consumer b k slot j)
        (b := { b with ptr := Function.update b.ptr j (s.mem.ring slot) }) (k := k + 1)
        (State.goto_pc_self ..) (by exact (by omega :
          (d.access .consumer b.head b.len).length - (k + 1) = n))
      exact ⟨s', (runs_step hstep).trans hr, hs'.mem_eq, hs'.pc_eq,
        fun l hl => (hs'.others l hl).trans (State.goto_pc_of_ne _ hl _)⟩

/-- **A call that runs alone is `solo`.** Started when no batch of its side is in flight and left
alone until it returns, a call leaves the memory, the array and the value of `solo`. -/
theorem runs_solo {s : State ι Req α} {i : ι} {sd : Side} (req : Req) (ptr : ℕ → α)
    (hready : (s.pc i).ready) (hallowed : single sd = none ∨ single sd = some i)
    (hquiet : s.mem.tail sd = s.mem.head sd) :
    ∃ s', Runs d single s s' ∧
      s.SoloAt s' i (d.solo sd req s.mem ptr).1
        (.returned sd (d.solo sd req s.mem ptr).2.1 (d.solo sd req s.mem ptr).2.2) := by
  -- the call, and the load of the own head
  obtain ⟨since, s₁, hr₁, hs₁⟩ : ∃ since s₁, Runs d single s s₁ ∧
      s.SoloAt s₁ i s.mem (.loadTail sd req ptr (s.mem.head sd) since) := by
    have hcall : Runs d single s (s.goto i (.loadHead sd req ptr)) :=
      Reachable.single (a := .call i sd req ptr) trivial (by simp [step, hready, hallowed])
    have hload : (s.goto i (.loadHead sd req ptr)).advance d single i
        = some ((s.goto i (.loadHead sd req ptr)).goto i
            (.loadTail sd req ptr (s.mem.head sd) s.pos)) := by
      simp only [State.advance, State.goto_pc_self]
      rfl
    refine ⟨s.pos, _, hcall.trans (runs_step hload), rfl, State.goto_pc_self .., fun j hj => ?_⟩
    rw [State.goto_pc_of_ne _ hj, State.goto_pc_of_ne _ hj]
  cases hgrant : d.grant sd req (d.avail sd (s.mem.head sd) (s.mem.tail sd.other)) with
  | error code =>
    have hrefuse : s₁.advance d single i = some (s₁.goto i (.returned sd ptr code)) := by
      simp only [State.advance, hs₁.pc_eq, hs₁.mem_eq, hgrant]
    refine ⟨_, hr₁.trans (runs_step hrefuse), ?_⟩
    simp only [Discipline.solo, hgrant]
    exact ⟨hs₁.mem_eq, State.goto_pc_self .., fun j hj =>
      (State.goto_pc_of_ne _ hj _).trans (hs₁.others j hj)⟩
  | ok len =>
    obtain ⟨b, hb⟩ : ∃ b : Batch Req α, b = ⟨req, ptr, s.mem.head sd,
      d.avail sd (s.mem.head sd) (s.mem.tail sd.other), len, since.head sd⟩ := ⟨_, rfl⟩
    -- the head is where it was read, so the swap succeeds
    obtain ⟨s₂, hr₂, hs₂⟩ : ∃ s₂, Runs d single s s₂ ∧
        s.SoloAt s₂ i (s.mem.setHead sd (s.mem.head sd + len)) (.copy sd b 0) := by
      have hload : s₁.advance d single i = some (s₁.goto i (.swapHead sd b since)) := by
        simp only [State.advance, hs₁.pc_eq, hs₁.mem_eq, hgrant, hb]
      have hswap : (s₁.goto i (.swapHead sd b since)).advance d single i = some
          (((s₁.goto i (.swapHead sd b since)).reserve sd b).goto i (.copy sd b 0)) := by
        simp only [State.advance, State.goto_pc_self]
        rw [if_pos (.inr (by rw [State.goto_mem, hs₁.mem_eq, hb]))]
      refine ⟨_, hr₁.trans ((runs_step hload).trans (runs_step hswap)), ?_, State.goto_pc_self ..,
        fun j hj => ?_⟩
      · simp only [State.goto_mem, State.reserve, hs₁.mem_eq, Batch.next, hb]
      · rw [State.goto_pc_of_ne _ hj]
        exact (State.goto_pc_of_ne _ hj _).trans (hs₁.others j hj)
    obtain ⟨s₃, hr₃, hs₃⟩ := runs_copy d single hs₂.pc_eq
    obtain ⟨b', hb'⟩ : ∃ b' : Batch Req α, b' = { b with ptr := (copySlots sd
      ((d.access sd b.head b.len).drop 0) s₂.mem b.ptr).2 } := ⟨_, rfl⟩
    have hpc₃ := hs₃.pc_eq
    rw [← hb'] at hpc₃
    have hend : (d.access sd b'.head b'.len)[max 0 (d.access sd b.head b.len).length]? = none := by
      rw [hb', List.getElem?_eq_none (Nat.le_max_right ..)]
    have htail : s₃.mem.tail sd = b'.head := by
      rw [hs₃.mem_eq, copySlots_tail, hs₂.mem_eq, Shared.setHead_tail, hquiet, hb', hb]
    -- the tail is where the batch starts, so there is nothing to wait for
    obtain ⟨s₄, hr₄, hs₄⟩ : ∃ s₄, Runs d single s₃ s₄ ∧
        s₃.SoloAt s₄ i s₃.mem (.storeTail sd b') := by
      by_cases hsingle : (single sd).isSome
      · have hskip : s₃.advance d single i = some (s₃.goto i (.storeTail sd b')) := by
          simp only [State.advance, hpc₃, hend, if_pos hsingle]
        exact ⟨_, runs_step hskip, rfl, State.goto_pc_self ..,
          fun j hj => State.goto_pc_of_ne _ hj _⟩
      · have hleave : s₃.advance d single i = some (s₃.goto i (.waitTail sd b')) := by
          simp only [State.advance, hpc₃, hend, if_neg hsingle]
        have hwait : (s₃.goto i (.waitTail sd b')).advance d single i
            = some ((s₃.goto i (.waitTail sd b')).goto i (.storeTail sd b')) := by
          simp only [State.advance, State.goto_pc_self, State.goto_mem, htail, if_pos]
        refine ⟨_, (runs_step hleave).trans (runs_step hwait), rfl, State.goto_pc_self ..,
          fun j hj => ?_⟩
        rw [State.goto_pc_of_ne _ hj, State.goto_pc_of_ne _ hj]
    have hstore : s₄.advance d single i = some ((s₄.publish sd b').goto i
        (.returned sd b'.ptr (d.result sd b'.req b'.avail b'.len))) := by
      simp only [State.advance, hs₄.pc_eq]
    refine ⟨_, (hr₂.trans hr₃).trans (hr₄.trans (runs_step hstore)),
      (hs₂.trans (hs₃.trans hs₄)).trans ⟨?_, ?_, fun j hj => State.goto_pc_of_ne _ hj _⟩⟩
    · simp only [State.goto_mem, State.publish, hs₄.mem_eq, hs₃.mem_eq, hs₂.mem_eq,
        Discipline.solo, hgrant, Batch.next, hb', hb, List.drop_zero]
    · rw [State.goto_pc_self]
      simp only [hs₂.mem_eq, Discipline.solo, hgrant, hb', hb, List.drop_zero]

end Agreement

end ReserveRing
