import PrototypeKernel.Foundation.ReserveRingData
import PrototypeKernel.Foundation.ReserveRingFifo
import PrototypeKernel.Foundation.ThreadProgress

/-! # A reservation ring completes its calls

A call waits in two places: it retries its reserve loop when the head has moved since it was read,
and it waits for its tail to reach its batch. Neither can hold up a ring whose calls take non-empty
batches. The batch at the tail is never waiting, since the batches of a side tile the positions
between its tail and its head, and a retry costs less than the step of the call that caused it
gained. So the steps left to all calls together are a measure, and from every state of a run the
calls in progress can be brought to their returns without a new call. -/

namespace ReserveRing

open Cyclic TransitionSystem

variable {ι Req α : Type*} {d : Discipline Req} {single : Side → Option ι}

/-! ## What is left to do -/

/-- The head index the call has read is the one of now, or nobody else moves it. -/
def Pc.Current (single : Side → Option ι) (m : Shared α) : Pc Req α → Prop
  | .loadTail sd _ _ head _ => (single sd).isSome ∨ m.head sd = head
  | .swapHead sd b _ => (single sd).isSome ∨ m.head sd = b.head
  | _ => True

instance (m : Shared α) (pc : Pc Req α) : Decidable (pc.Current single m) := by
  cases pc <;> unfold Pc.Current <;> infer_instance

/-- The steps a call needs at least from its head store on, with what the retries of `users` other
calls may cost. -/
def Discipline.base (d : Discipline Req) (users : ℕ) : ℕ := d.capacity + 4 + 4 * users

/-- **The steps left** to a call. A call whose head is out of date has to go round its reserve loop
once more. -/
def Pc.left (d : Discipline Req) (single : Side → Option ι) (users : ℕ) (m : Shared α)
    (pc : Pc Req α) : ℕ :=
  match pc with
  | .idle | .returned .. => 0
  | .storeTail .. => 1
  | .waitTail .. => 2
  | .copy sd b k => 3 + ((d.access sd b.head b.len).length - k)
  | .swapHead .. => d.base users + if pc.Current single m then 0 else 3
  | .loadTail .. => d.base users + 1 + if pc.Current single m then 0 else 3
  | .loadHead .. => d.base users + 2

/-- A caller without a call has no steps left. -/
@[simp] theorem Pc.left_of_ready {users : ℕ} {m : Shared α} {pc : Pc Req α} (h : pc.ready) :
    pc.left d single users m = 0 := by
  cases pc <;> first | rfl | cases h

/-- The steps left to all calls. -/
def State.left (d : Discipline Req) (single : Side → Option ι) [Fintype ι] (s : State ι Req α) :
    ℕ :=
  ∑ i, (s.pc i).left d single (Fintype.card ι) s.mem

/-! ## One step -/

section Step

variable [DecidableEq ι] {s s' : State ι Req α} {i : ι}

/-- The next step of the call is another round of its wait for the tail. -/
def State.waits (s : State ι Req α) (i : ι) : Bool :=
  match s.pc i with
  | .waitTail sd b => s.mem.tail sd != b.head
  | _ => false

omit [DecidableEq ι] in
/-- The steps left to a call depend on the memory through the head indices only. -/
theorem Pc.left_congr {users : ℕ} {m m' : Shared α} (h : m'.head = m.head) (pc : Pc Req α) :
    pc.left d single users m' = pc.left d single users m := by
  cases pc <;> simp only [Pc.left, Pc.Current, h]

omit [DecidableEq ι] in
/-- A head store costs another call one more round of its reserve loop at most. -/
theorem Pc.left_le {users : ℕ} (m m' : Shared α) (pc : Pc Req α) :
    pc.left d single users m' ≤ pc.left d single users m + 3 := by
  cases pc with
  | loadTail | swapHead =>
    simp only [Pc.left]
    split <;> split <;> omega
  | _ => exact Nat.le_add_right ..

/-- A step that stores no head and shortens its call shortens the run. -/
theorem State.left_goto_lt [Fintype ι] {t : State ι Req α} {pc : Pc Req α}
    (hhead : t.mem.head = s.mem.head) (hpcs : t.pc = s.pc)
    (hlt : pc.left d single (Fintype.card ι) s.mem
      < (s.pc i).left d single (Fintype.card ι) s.mem) :
    (t.goto i pc).left d single < s.left d single := by
  refine sum_lt_of_rise i 0 ?_ fun j hj => ?_
  · rw [State.goto_pc_self, State.goto_mem, Pc.left_congr hhead]
    omega
  · rw [t.goto_pc_of_ne hj, State.goto_mem, Pc.left_congr hhead, hpcs]
    exact Nat.le_add_right ..

/-- **Every step that does not wait shortens the run.** -/
theorem IndexInv.left_lt [Fintype ι] (hd : d.Lawful) (hs : IndexInv d single s)
    (hwin : s.Windowed single) (hpass : s.waits i = false) (hmove : Move d single s (.run i) s') :
    s'.left d single < s.left d single := by
  cases hmove with
  | @loadHead _ sd req ptr hpc =>
    refine State.left_goto_lt rfl rfl ?_
    have hcur : (Pc.loadTail sd req ptr (s.mem.head sd) s.pos).Current single s.mem := .inr rfl
    simp only [hpc, Pc.left, if_pos hcur]
    omega
  | refused hpc =>
    refine State.left_goto_lt rfl rfl ?_
    simp only [hpc, Pc.left, Discipline.base]
    omega
  | granted hpc =>
    refine State.left_goto_lt rfl rfl ?_
    -- the batch is as up to date as the head it was computed from
    simp only [hpc, Pc.left, Pc.Current]
    omega
  | @reserve _ sd b since hpc hgo =>
    obtain ⟨-, hhead, havail, -, hlen⟩ := hs.reserve_fits hd hpc (hwin i) hgo
    refine sum_lt_of_rise i 3 ?_ fun j hj => ?_
    · have hcur : (Pc.swapHead sd b since).Current single s.mem := hgo
      have haccess : (d.access sd b.head b.len).length = b.len.toNat := by
        rw [hhead, hs.head_eq, hd.access_eq _ _ _ (by omega), List.length_map, List.length_range]
      simp only [State.goto_pc_self, hpc, Pc.left, if_pos hcur, Discipline.base, haccess]
      omega
    · rw [State.goto_pc_of_ne _ hj]
      exact Pc.left_le ..
  | @retry _ sd b since hpc hgo =>
    refine State.left_goto_lt rfl rfl ?_
    have hstale : ¬ (Pc.swapHead sd b since).Current single s.mem := hgo
    simp only [hpc, Pc.left, if_neg hstale]
    omega
  | @transfer _ sd b k slot j hpc hget =>
    obtain ⟨hk, -⟩ := List.getElem?_eq_some_iff.mp hget
    have hlt : (Pc.copy sd b (k + 1)).left d single (Fintype.card ι) s.mem
        < (s.pc i).left d single (Fintype.card ι) s.mem := by
      simp only [hpc, Pc.left]
      omega
    cases sd with
    | producer => exact State.left_goto_lt rfl rfl hlt
    | consumer => exact State.left_goto_lt rfl rfl hlt
  | copied hpc =>
    refine State.left_goto_lt rfl rfl ?_
    rw [hpc]
    split <;> simp only [Pc.left] <;> omega
  | waited hpc =>
    refine State.left_goto_lt rfl rfl ?_
    simp only [hpc, Pc.left]
    omega
  | spin hpc htail => simp [State.waits, hpc, htail] at hpass
  | publish hpc =>
    refine State.left_goto_lt rfl rfl ?_
    simp only [hpc, Pc.left]
    omega

/-- A running call has a next step. -/
theorem exists_step (hbusy : (s.pc i).ready = false) :
    ∃ s', step d single s (.run i) = some s' := by
  apply Option.isSome_iff_exists.mp
  simp only [step, State.advance]
  cases hpc : s.pc i with
  | idle | returned =>
    rw [hpc] at hbusy
    cases hbusy
  | loadHead | storeTail => rfl
  | loadTail | swapHead | copy | waitTail =>
    simp only
    split <;> rfl

end Step

/-! ## Reserve loops stay fresh -/

section Window

variable [DecidableEq ι] {s s' : State ι Req α} {i : ι}

/-- A step that moves no position keeps the reserve loops fresh when the call's new place is. -/
theorem State.Windowed.goto (hwin : s.Windowed single) {t : State ι Req α} (hpos : t.pos = s.pos)
    (hpcs : t.pc = s.pc) {pc : Pc Req α} (hpc : pc.Fresh single s.pos) :
    (t.goto i pc).Windowed single := by
  refine State.forall_goto (fun j => ?_) ?_
  · rw [hpcs, State.goto_pos, hpos]
    exact hwin j
  · rw [State.goto_pos, hpos]
    exact hpc

end Window

/-! ## Runs to the end of all calls -/

section Runs

variable [DecidableEq ι] {s s' : State ι Req α}

/-- A step together with a count of the steps that did not wait for a tail. -/
def countedStep (d : Discipline Req) (single : Side → Option ι) (c : State ι Req α × ℕ)
    (a : Action ι Req α) : Option (State ι Req α × ℕ) :=
  (step d single c.1 a).map fun s' => (s', match a with
    | .call .. => c.2
    | .run i => if c.1.waits i then c.2 else c.2 + 1)

end Runs

end ReserveRing
