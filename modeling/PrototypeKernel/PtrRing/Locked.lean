import PrototypeKernel.PtrRing.Concurrent
import PrototypeKernel.Foundation.ThreadProgress

/-! # Any number of producers and consumers

`ptr_ring_produce()` and `ptr_ring_full()` run under `producer_lock`, `ptr_ring_consume()`,
`ptr_ring_empty()` and `PTR_RING_PEEK_CALL()` under `consumer_lock`; the variants for interrupts and
bottom halves differ in the kind of the lock only. Any number of CPUs call them on one ring that is
not resized. Each attempt at a lock and each access inside is a step, so calls at the two ends
overlap as those of the two threads of `spscStep` do. That is what the locks are for: every run is a
run of one producer and one consumer. -/

namespace PtrRing.Locked

open TransitionSystem

variable {ι E : Type*}

/-! ## Calls -/

/-- A call. `ptr_ring_empty()` looks at the first pointer, as `PTR_RING_PEEK_CALL()` does. -/
inductive Op (E : Type*) where
  | produce (ptr : E)
  | consume
  | full
  | peek
  deriving DecidableEq, Repr

/-- The end whose lock a call takes. -/
def Op.side : Op E → End
  | .produce _ | .full => .producer
  | .consume | .peek => .consumer

/-- The argument of a call that moves a pointer. -/
def Op.arg? : Op E → Option (Option E)
  | .produce ptr => some (some ptr)
  | .consume => some none
  | .full | .peek => none

/-- Where a CPU stands. -/
inductive Thread (E : Type*) where
  | idle
  /-- In `spin_lock()`. -/
  | lock (op : Op E)
  /-- In the part under the lock. -/
  | inside (op : Op E)
  /-- In a test of a slot, with the index loaded. -/
  | test (op : Op E) (i : ℕ)
  /-- About to release the lock. `res` is the pointer moved, or the entry of the slot tested. -/
  | unlock (op : Op E) (res : Option E)

/-- The end whose lock a CPU holds. -/
def Thread.holds? : Thread E → Option End
  | .inside op | .test op _ | .unlock op _ => some op.side
  | _ => none

/-- The ring with the calls under the two locks, the holders of the locks, the CPUs, and (ghost) the
pointers moved at each end with the CPU that moved them. -/
structure State (ι E : Type*) where
  inner : PtrRing.State E
  lock : End → Option ι
  thread : ι → Thread E
  done : End → List (ι × E)

/-- What happens next: the start of a call, or a step of the running one. -/
inductive Action (ι E : Type*) where
  | call (i : ι) (op : Op E)
  | run (i : ι) (slotFirst : Bool)
  deriving DecidableEq, Repr

/-- A step of a running call. -/
def Action.IsRun : Action ι E → Prop
  | .call .. => False
  | .run .. => True

/-- A new ring that nobody uses yet. -/
def start (r : PtrRing E) : State ι E := ⟨spscStart r, fun _ => none, fun _ => .idle, fun _ => []⟩

section Step

variable [DecidableEq ι]

/-- CPU `i` goes on at `t`. -/
def State.goto (s : State ι E) (i : ι) (t : Thread E) : State ι E :=
  { s with thread := Function.update s.thread i t }

/-- `spin_lock()` succeeds. -/
def State.take (s : State ι E) (i : ι) (op : Op E) : State ι E :=
  { s with
    lock := Function.update s.lock op.side (some i)
    -- the call that moves a pointer starts
    inner := match op.arg? with
      | some arg => s.inner.goto op.side (.loadIndex arg)
      | none => s.inner }

/-- `spin_unlock()`. -/
def State.release (s : State ι E) (e : End) : State ι E :=
  { s with lock := Function.update s.lock e none }

/-- The call at end `e` has moved `ptr`. -/
def State.log (s : State ι E) (e : End) (i : ι) (ptr : E) : State ι E :=
  { s with done := Function.update s.done e (s.done e ++ [(i, ptr)]) }

/-- Where CPU `i` goes when the call at its end leaves `pc`. -/
def State.after (s : State ι E) (i : ι) (op : Op E) : Pc E → State ι E
  | .refuse => s.goto i (.unlock op none)
  | .finish ptr => (s.log op.side i ptr).goto i (.unlock op (some ptr))
  | _ => s

/-- The next step of CPU `i`. -/
def State.advance (s : State ι E) (i : ι) (slotFirst : Bool) : Option (State ι E) :=
  match s.thread i with
  | .idle => none
  | .lock op =>
      if (s.lock op.side).isSome then some s else some ((s.take i op).goto i (.inside op))
  | .inside op =>
      match op.arg? with
      | some _ => (s.inner.advance op.side slotFirst).map fun inner =>
          { s with inner := inner }.after i op (s.inner.pc op.side)
      | none => some (s.goto i (.test op (s.inner.ring.index op.side)))
  | .test op k => (s.inner.ring.load k).map fun entry => s.goto i (.unlock op entry)
  | .unlock op _ => some ((s.release op.side).goto i .idle)

/-- The CPU can make a call. -/
def Thread.ready : Thread E → Bool
  | .idle => true
  | _ => false

/-- The step function of the CPUs. -/
def step (s : State ι E) : Action ι E → Option (State ι E)
  | .call i op => if (s.thread i).ready then some (s.goto i (.lock op)) else none
  | .run i slotFirst => s.advance i slotFirst

end Step

/-! ## What a step can do -/

section Moves

variable [DecidableEq ι]

/-- **The outcomes of a step** of CPU `i`. -/
inductive Move (s : State ι E) (i : ι) : State ι E → Prop
  | call {op} (hready : (s.thread i).ready) : Move s i (s.goto i (.lock op))
  | spin {op} (hpc : s.thread i = .lock op) (hheld : (s.lock op.side).isSome) : Move s i s
  | take {op} (hpc : s.thread i = .lock op) (hfree : s.lock op.side = none) :
      Move s i ((s.take i op).goto i (.inside op))
  | inside {op arg slotFirst inner} (hpc : s.thread i = .inside op) (harg : op.arg? = some arg)
      (hinner : s.inner.advance op.side slotFirst = some inner) :
      Move s i ({ s with inner := inner }.after i op (s.inner.pc op.side))
  | index {op} (hpc : s.thread i = .inside op) (harg : op.arg? = none) :
      Move s i (s.goto i (.test op (s.inner.ring.index op.side)))
  | test {op k} (hpc : s.thread i = .test op k) :
      Move s i (s.goto i (.unlock op (s.inner.ring.queue k)))
  | unlock {op res} (hpc : s.thread i = .unlock op res) :
      Move s i ((s.release op.side).goto i .idle)

/-- The CPU that an action is about. -/
def Action.cpu : Action ι E → ι
  | .call i _ | .run i _ => i

/-- **Every step is a move.** -/
theorem move_of_step {s s' : State ι E} {a : Action ι E} (hs : step s a = some s') :
    Move s a.cpu s' := by
  cases a with
  | call i op =>
    obtain ⟨hready, hs⟩ := Option.ite_none_right_eq_some.mp hs
    cases hs
    exact .call hready
  | run i slotFirst =>
    simp only [step, State.advance] at hs
    cases hpc : s.thread i with
    | idle =>
      rw [hpc] at hs
      cases hs
    | lock op =>
      rw [hpc] at hs
      simp only at hs
      split at hs <;> cases hs
      · exact .spin hpc ‹_›
      · exact .take hpc (Option.not_isSome_iff_eq_none.mp ‹_›)
    | inside op =>
      rw [hpc] at hs
      simp only at hs
      split at hs
      · obtain ⟨inner, hinner, rfl⟩ := Option.map_eq_some_iff.mp hs
        exact .inside hpc ‹_› hinner
      · cases hs
        exact .index hpc ‹_›
    | test op k =>
      rw [hpc] at hs
      obtain ⟨entry, hload, rfl⟩ := Option.map_eq_some_iff.mp hs
      obtain ⟨-, rfl⟩ := load_eq_some.mp hload
      exact .test hpc
    | unlock op res =>
      rw [hpc] at hs
      cases hs
      exact .unlock hpc

end Moves

/-! ## What a step under a lock changes -/

section Frame

variable {s s' : PtrRing.State E} {e : End}

/-- A step at one end leaves the call, the index and the results of the other end alone. -/
theorem frame_of_move (hmove : PtrRing.Move s e s') {e' : End} (he : e' ≠ e) :
    s'.pc e' = s.pc e' ∧ s'.ring.index e' = s.ring.index e' ∧ s'.returned e' = s.returned e' := by
  have hgoto : ∀ (t : PtrRing.State E) pc, t.pc = s.pc → (t.goto e pc).pc e' = s.pc e' := by
    intro t pc ht
    rw [← ht]
    exact Function.update_of_ne he ..
  have hindex : ∀ i, (s.ring.setIndex i e).index e' = s.ring.index e' := by
    intro i
    cases e <;> cases e' <;> first | rfl | exact absurd rfl he
  cases hmove with
  | indexFirst | storeIndex | wrap => exact ⟨hgoto _ _ rfl, hindex _, rfl⟩
  | slotFirst | storeSlot => exact ⟨hgoto _ _ rfl, by cases e' <;> rfl, rfl⟩
  | finish => exact ⟨hgoto _ _ rfl, rfl, Function.update_of_ne he ..⟩
  | _ => exact ⟨hgoto _ _ rfl, rfl, rfl⟩

/-- A call comes to its end by a refusal, or by its last step, which logs its pointer. -/
theorem own_of_move (hmove : PtrRing.Move s e s') :
    match s.pc e with
    | .refuse => s'.pc e = .idle ∧ s'.returned e = s.returned e
    | .finish ptr => s'.pc e = .idle ∧ s'.returned e = s.returned e ++ [ptr]
    | _ => s'.pc e ≠ .idle ∧ s'.returned e = s.returned e := by
  have hgoto : ∀ (t : PtrRing.State E) pc, (t.goto e pc).pc e = pc := fun t pc =>
    Function.update_self ..
  cases hmove with
  | finish hpc =>
    rw [hpc]
    exact ⟨hgoto _ _, Function.update_self ..⟩
  | refuse hpc =>
    rw [hpc]
    exact ⟨hgoto _ _, rfl⟩
  | loadIndex hpc | refused hpc | passed hpc | loadIndexAgain hpc | slotFirst hpc | indexFirst hpc
    | storeIndex hpc | storeSlot hpc | loadIndexWrap hpc | past hpc | inside hpc | wrap hpc =>
    rw [hpc]
    exact ⟨by rw [hgoto]; exact nofun, rfl⟩

end Frame

/-! ## The locks -/

/-- **What the locks keep**: the holder of a lock is the CPU that is inside, alone, and a call runs
at an end exactly while a CPU is inside with it. -/
structure LockInv (s : State ι E) : Prop where
  lock_iff : ∀ i e, (s.thread i).holds? = some e ↔ s.lock e = some i
  busy : ∀ i op, s.thread i = .inside op → op.arg?.isSome → s.inner.pc op.side ≠ .idle
  inside : ∀ e, s.inner.pc e ≠ .idle →
    ∃ i op, s.thread i = .inside op ∧ op.arg?.isSome ∧ op.side = e
  test : ∀ i op k, s.thread i = .test op k →
    op.arg? = none ∧ k = s.inner.ring.index op.side
  done : ∀ e, (s.done e).map Prod.snd = s.inner.returned e

/-- At the start both locks are free. -/
theorem LockInv.start (r : PtrRing E) : LockInv (Locked.start r : State ι E) where
  lock_iff _ _ := ⟨nofun, nofun⟩
  busy _ _ h := nomatch h
  inside _ h := absurd rfl h
  test _ _ _ h := nomatch h
  done _ := rfl

section Preservation

variable [DecidableEq ι] {s s' : State ι E} {i : ι}

omit [DecidableEq ι] in
/-- **Mutual exclusion.** -/
theorem LockInv.exclusive (h : LockInv s) {i j : ι} {e : End}
    (hi : (s.thread i).holds? = some e) (hj : (s.thread j).holds? = some e) : i = j := by
  rw [h.lock_iff] at hi hj
  rw [hi] at hj
  exact Option.some.inj hj

omit [DecidableEq ι] in
/-- No call runs at an end whose lock is free. -/
theorem LockInv.idle_of_free (h : LockInv s) {e : End} (hfree : s.lock e = none) :
    s.inner.pc e = .idle := by
  by_contra hne
  obtain ⟨i, op, hi, -, rfl⟩ := h.inside e hne
  have hlock := (h.lock_iff i op.side).mp (by rw [hi]; rfl)
  rw [hfree] at hlock
  cases hlock

/-- A step of a CPU that moves no pointer and keeps its lock. -/
theorem LockInv.goto (h : LockInv s) {t : Thread E} (hholds : t.holds? = (s.thread i).holds?)
    (hbefore : ∀ op, s.thread i = .inside op → op.arg? = none)
    (hafter : ∀ op, t = .inside op → op.arg? = none)
    (htest : ∀ op k, t = .test op k → op.arg? = none ∧ k = s.inner.ring.index op.side) :
    LockInv (s.goto i t) := by
  have hself : (s.goto i t).thread i = t := Function.update_self ..
  have hother : ∀ j, j ≠ i → (s.goto i t).thread j = s.thread j :=
    fun j hj => Function.update_of_ne hj ..
  refine ⟨fun j e => ?_, fun j op hj harg => ?_, fun e he => ?_, fun j op k hj => ?_, h.done⟩
  · by_cases hji : j = i
    · rw [hji, hself, hholds]
      exact h.lock_iff i e
    · rw [hother j hji]
      exact h.lock_iff j e
  · by_cases hji : j = i
    · rw [hji, hself] at hj
      rw [hafter op hj] at harg
      cases harg
    · rw [hother j hji] at hj
      exact h.busy j op hj harg
  · obtain ⟨j, op, hj, harg, hside⟩ := h.inside e he
    refine ⟨j, op, ?_, harg, hside⟩
    rw [hother j, hj]
    rintro rfl
    rw [hbefore op hj] at harg
    cases harg
  · by_cases hji : j = i
    · rw [hji, hself] at hj
      exact htest op k hj
    · rw [hother j hji] at hj
      exact h.test j op k hj

/-- `spin_lock()` keeps the locks in order. -/
theorem LockInv.take (h : LockInv s) {op : Op E} (hpc : s.thread i = .lock op)
    (hfree : s.lock op.side = none) : LockInv ((s.take i op).goto i (.inside op)) := by
  have hself : ((s.take i op).goto i (.inside op)).thread i = .inside op :=
    Function.update_self ..
  have hother : ∀ j, j ≠ i → ((s.take i op).goto i (.inside op)).thread j = s.thread j :=
    fun j hj => Function.update_of_ne hj ..
  -- the call that starts is the only change inside
  have hinner : ∀ e, e ≠ op.side → (s.take i op).inner.pc e = s.inner.pc e := by
    intro e he
    simp only [State.take]
    split
    · exact Function.update_of_ne he ..
    · rfl
  have hring : (s.take i op).inner.ring = s.inner.ring := by
    simp only [State.take]
    split <;> rfl
  have hreturned : (s.take i op).inner.returned = s.inner.returned := by
    simp only [State.take]
    split <;> rfl
  have hidle := h.idle_of_free hfree
  refine ⟨fun j e => ?_, fun j op' hj harg => ?_, fun e he => ?_, fun j op' k hj => ?_,
    fun e => ?_⟩
  · show _ ↔ Function.update s.lock op.side (some i) e = some j
    by_cases hji : j = i
    · subst hji
      rw [hself]
      by_cases he : e = op.side
      · rw [he, Function.update_self]
        exact ⟨fun _ => rfl, fun _ => rfl⟩
      · rw [Function.update_of_ne he, ← h.lock_iff j e, hpc]
        exact ⟨fun h => absurd (Option.some.inj h).symm he, nofun⟩
    · rw [hother j hji]
      by_cases he : e = op.side
      · rw [he, Function.update_self, h.lock_iff, hfree]
        exact ⟨nofun, fun h => absurd (Option.some.inj h).symm hji⟩
      · rw [Function.update_of_ne he]
        exact h.lock_iff j e
  · by_cases hji : j = i
    · rw [hji, hself] at hj
      cases hj
      obtain ⟨arg, harg⟩ := Option.isSome_iff_exists.mp harg
      show (s.take i op).inner.pc op.side ≠ .idle
      simp only [State.take, harg, PtrRing.State.goto_pc_self]
      exact nofun
    · rw [hother j hji] at hj
      have hne : op'.side ≠ op.side := by
        intro heq
        have hlock := (h.lock_iff j op'.side).mp (by rw [hj]; rfl)
        rw [heq, hfree] at hlock
        cases hlock
      show (s.take i op).inner.pc op'.side ≠ .idle
      rw [hinner _ hne]
      exact h.busy j op' hj harg
  · by_cases hside : e = op.side
    · subst hside
      refine ⟨i, op, hself, ?_, rfl⟩
      by_contra hnone
      have hnone := Option.not_isSome_iff_eq_none.mp hnone
      have he : (s.take i op).inner.pc op.side ≠ .idle := he
      simp only [State.take, hnone] at he
      exact he hidle
    · have he : (s.take i op).inner.pc e ≠ .idle := he
      rw [hinner e hside] at he
      obtain ⟨j, op', hj, harg, hside'⟩ := h.inside e he
      refine ⟨j, op', ?_, harg, hside'⟩
      rw [hother j, hj]
      rintro rfl
      rw [hpc] at hj
      cases hj
  · show op'.arg? = none ∧ k = (s.take i op).inner.ring.index op'.side
    rw [hring]
    by_cases hji : j = i
    · rw [hji, hself] at hj
      cases hj
    · rw [hother j hji] at hj
      exact h.test j op' k hj
  · show (s.done e).map Prod.snd = (s.take i op).inner.returned e
    rw [hreturned]
    exact h.done e

/-- `spin_unlock()` keeps the locks in order. -/
theorem LockInv.unlock (h : LockInv s) {op : Op E} {res : Option E}
    (hpc : s.thread i = .unlock op res) : LockInv ((s.release op.side).goto i .idle) := by
  have hself : ((s.release op.side).goto i .idle).thread i = .idle := Function.update_self ..
  have hother : ∀ j, j ≠ i → ((s.release op.side).goto i .idle).thread j = s.thread j :=
    fun j hj => Function.update_of_ne hj ..
  have hlock := (h.lock_iff i op.side).mp (by rw [hpc]; rfl)
  refine ⟨fun j e => ?_, fun j op' hj harg => ?_, fun e he => ?_, fun j op' k hj => ?_, h.done⟩
  · show _ ↔ Function.update s.lock op.side none e = some j
    by_cases hji : j = i
    · subst hji
      rw [hself]
      by_cases he : e = op.side
      · rw [he, Function.update_self]
        exact ⟨nofun, nofun⟩
      · rw [Function.update_of_ne he, ← h.lock_iff j e, hpc]
        exact ⟨nofun, fun h => absurd (Option.some.inj h).symm he⟩
    · rw [hother j hji]
      by_cases he : e = op.side
      · rw [he, Function.update_self, h.lock_iff, hlock]
        exact ⟨fun h => absurd (Option.some.inj h).symm hji, nofun⟩
      · rw [Function.update_of_ne he]
        exact h.lock_iff j e
  · by_cases hji : j = i
    · rw [hji, hself] at hj
      cases hj
    · rw [hother j hji] at hj
      exact h.busy j op' hj harg
  · obtain ⟨j, op', hj, harg, hside⟩ := h.inside e he
    refine ⟨j, op', ?_, harg, hside⟩
    rw [hother j, hj]
    rintro rfl
    rw [hpc] at hj
    cases hj
  · by_cases hji : j = i
    · rw [hji, hself] at hj
      cases hj
    · rw [hother j hji] at hj
      exact h.test j op' k hj

omit [DecidableEq ι] in
/-- A test of a slot at the other end is not disturbed. -/
theorem LockInv.test_frame (h : LockInv s) {op op' : Op E} {inner : PtrRing.State E} {j : ι} {k : ℕ}
    (hpc : s.thread i = .inside op) (hmove : PtrRing.Move s.inner op.side inner) (hji : j ≠ i)
    (hj : s.thread j = .test op' k) : op'.arg? = none ∧ k = inner.ring.index op'.side := by
  have hne : op'.side ≠ op.side := fun heq => hji <| h.exclusive (e := op.side)
    (by rw [hj]; exact congrArg some heq) (by rw [hpc]; rfl)
  rw [(frame_of_move hmove hne).2.1]
  exact h.test j op' k hj

omit [DecidableEq ι] in
/-- A step of a call that goes on. -/
theorem LockInv.stay (h : LockInv s) {op : Op E} {inner : PtrRing.State E}
    (hpc : s.thread i = .inside op) (harg : op.arg?.isSome)
    (hmove : PtrRing.Move s.inner op.side inner) (hbusy : inner.pc op.side ≠ .idle)
    (hreturned : inner.returned op.side = s.inner.returned op.side) :
    LockInv { s with inner := inner } := by
  refine ⟨h.lock_iff, fun j op' hj harg' => ?_, fun e he => ?_, fun j op' k hj => ?_, fun e => ?_⟩
  · by_cases hside : op'.side = op.side
    · rw [hside]
      exact hbusy
    · show inner.pc op'.side ≠ .idle
      rw [(frame_of_move hmove hside).1]
      exact h.busy j op' hj harg'
  · by_cases hside : e = op.side
    · exact ⟨i, op, hpc, harg, hside.symm⟩
    · have he : inner.pc e ≠ .idle := he
      rw [(frame_of_move hmove hside).1] at he
      exact h.inside e he
  · refine h.test_frame hpc hmove ?_ hj
    rintro rfl
    rw [hpc] at hj
    cases hj
  · show (s.done e).map Prod.snd = inner.returned e
    by_cases hside : e = op.side
    · rw [hside, hreturned]
      exact h.done op.side
    · rw [(frame_of_move hmove hside).2.2]
      exact h.done e

/-- The last step of a call. -/
theorem LockInv.leave (h : LockInv s) {op : Op E} {inner : PtrRing.State E} {res : Option E}
    {done : End → List (ι × E)} (hpc : s.thread i = .inside op)
    (hmove : PtrRing.Move s.inner op.side inner) (hidle : inner.pc op.side = .idle)
    (hdone : (done op.side).map Prod.snd = inner.returned op.side)
    (hdone_other : ∀ e, e ≠ op.side → done e = s.done e) :
    LockInv (State.goto { s with inner := inner, done := done } i (.unlock op res)) := by
  have hself : (State.goto { s with inner := inner, done := done } i (.unlock op res)).thread i
      = .unlock op res := Function.update_self ..
  have hother : ∀ j, j ≠ i →
      (State.goto { s with inner := inner, done := done } i (.unlock op res)).thread j
        = s.thread j := fun j hj => Function.update_of_ne hj ..
  refine ⟨fun j e => ?_, fun j op' hj harg' => ?_, fun e he => ?_, fun j op' k hj => ?_,
    fun e => ?_⟩
  · by_cases hji : j = i
    · rw [hji, hself, ← show (s.thread i).holds? = (Thread.unlock op res).holds? by rw [hpc]; rfl]
      exact h.lock_iff i e
    · rw [hother j hji]
      exact h.lock_iff j e
  · by_cases hji : j = i
    · rw [hji, hself] at hj
      cases hj
    · rw [hother j hji] at hj
      have hne : op'.side ≠ op.side := fun heq => hji <| h.exclusive (e := op.side)
        (by rw [hj]; exact congrArg some heq) (by rw [hpc]; rfl)
      show inner.pc op'.side ≠ .idle
      rw [(frame_of_move hmove hne).1]
      exact h.busy j op' hj harg'
  · have he : inner.pc e ≠ .idle := he
    have hside : e ≠ op.side := by
      rintro rfl
      exact he hidle
    rw [(frame_of_move hmove hside).1] at he
    obtain ⟨j, op', hj, harg', hside'⟩ := h.inside e he
    refine ⟨j, op', ?_, harg', hside'⟩
    rw [hother j, hj]
    rintro rfl
    rw [hpc] at hj
    cases hj
    exact hside hside'.symm
  · by_cases hji : j = i
    · rw [hji, hself] at hj
      cases hj
    · rw [hother j hji] at hj
      exact h.test_frame hpc hmove hji hj
  · show (done e).map Prod.snd = inner.returned e
    by_cases hside : e = op.side
    · rw [hside]
      exact hdone
    · rw [hdone_other e hside, (frame_of_move hmove hside).2.2]
      exact h.done e

/-- A step inside keeps the locks in order. -/
theorem LockInv.advance (h : LockInv s) {op : Op E} {inner : PtrRing.State E}
    (hpc : s.thread i = .inside op) (harg : op.arg?.isSome)
    (hmove : PtrRing.Move s.inner op.side inner) :
    LockInv ({ s with inner := inner }.after i op (s.inner.pc op.side)) := by
  have hown := own_of_move hmove
  have hdone := h.done op.side
  cases hcall : s.inner.pc op.side with
  | refuse =>
    rw [hcall] at hown
    exact h.leave hpc hmove hown.1 (by rw [hown.2]; exact hdone) fun _ _ => rfl
  | finish ptr =>
    rw [hcall] at hown
    refine h.leave hpc hmove hown.1 ?_ fun e he => Function.update_of_ne he ..
    rw [Function.update_self, List.map_append, hdone, hown.2]
    rfl
  | _ =>
    rw [hcall] at hown
    exact h.stay hpc harg hmove hown.1 hown.2

/-- **Every step keeps the locks in order.** -/
theorem LockInv.step (h : LockInv s) {a : Action ι E} (hs : step s a = some s') : LockInv s' := by
  cases move_of_step hs with
  | call hready =>
    have hidle : s.thread a.cpu = .idle := by
      cases hpc : s.thread a.cpu <;> rw [hpc] at hready <;> first | rfl | cases hready
    exact h.goto (by rw [hidle]; rfl) (by rw [hidle]; exact nofun) nofun nofun
  | spin => exact h
  | take hpc hfree => exact h.take hpc hfree
  | inside hpc harg hinner =>
    exact h.advance hpc (by rw [harg]; rfl) (move_of_advance hinner)
  | @index op hpc harg =>
    refine h.goto (by rw [hpc]; rfl) (fun op' hop => ?_) nofun fun op' k hop => ?_
    · rw [hpc] at hop
      cases hop
      exact harg
    · cases hop
      exact ⟨harg, rfl⟩
  | test hpc => exact h.goto (by rw [hpc]; rfl) (by rw [hpc]; exact nofun) nofun nofun
  | unlock hpc => exact h.unlock hpc

end Preservation

/-! ## Runs -/

section Runs

variable [DecidableEq ι] {s s' : State ι E}

omit [DecidableEq ι] in
/-- A call under its lock starts as a call of the thread at its end does. -/
theorem spscStep_take {op : Op E} {arg : Option E} (harg : op.arg? = some arg)
    (hidle : s.inner.pc op.side = .idle) :
    ∃ a, spscStep s.inner a = some (s.inner.goto op.side (.loadIndex arg)) := by
  cases op with
  | produce ptr =>
    cases harg
    have hidle : s.inner.pc .producer = .idle := hidle
    exact ⟨.produce ptr, by simp [spscStep, hidle, PtrRing.Pc.ready, Op.side]⟩
  | consume =>
    cases harg
    have hidle : s.inner.pc .consumer = .idle := hidle
    exact ⟨.consume, by simp [spscStep, hidle, PtrRing.Pc.ready, Op.side]⟩
  | full | peek => cases harg

/-- **Every run under the locks is a run of one producer and one consumer**, in which the calls at
an end are those of the CPUs, in the order in which they take the lock. -/
theorem refines_spsc {r : PtrRing E}
    (hreach : Reachable step (fun _ _ => True) (start r) s) :
    LockInv s ∧ Reachable spscStep (fun _ _ => True) (spscStart r) s.inner := by
  refine hreach.invariant (P := fun s =>
    LockInv s ∧ Reachable spscStep (fun _ _ => True) (spscStart r) s.inner) ⟨.start r, .refl⟩ ?_
  rintro s a s' ⟨h, hinner⟩ - hs
  refine ⟨h.step hs, ?_⟩
  cases move_of_step hs with
  | @take op hpc hfree =>
    -- the lock is free, so no call runs at this end
    show Reachable spscStep (fun _ _ => True) (spscStart r) (s.take a.cpu op).inner
    simp only [State.take]
    split
    · obtain ⟨b, hb⟩ := spscStep_take ‹_› (h.idle_of_free hfree)
      exact hinner.tail trivial hb
    · exact hinner
  | @inside op arg slotFirst inner hpc harg hadvance =>
    have hinner' : ({ s with inner := inner }.after a.cpu op (s.inner.pc op.side)).inner
        = inner := by
      cases s.inner.pc op.side <;> rfl
    rw [hinner']
    exact hinner.tail (a := .run op.side slotFirst) trivial hadvance
  | _ => exact hinner

omit [DecidableEq ι] in
/-- The invariant of the two threads, in every state they reach. -/
theorem inv_of_reachable {cacheBytes size : ℕ} {r : PtrRing E} (hsize : 0 < size)
    (hinit : ptrRingInit cacheBytes size true = .ok r) {t : PtrRing.State E}
    (hreach : Reachable spscStep (fun _ _ => True) (spscStart r) t) : Inv size t :=
  hreach.invariant (.start hsize hinit) fun _ _ _ h _ hs => h.step hs

/-- **What the callers of a ring of `size` slots rely on.** -/
structure Serves (size : ℕ) (s : State ι E) : Prop where
  /-- One CPU at a time holds a lock. -/
  exclusive : ∀ i j e, (s.thread i).holds? = some e → (s.thread j).holds? = some e → i = j
  /-- Under the locks the ring has one producer and one consumer. -/
  delivers : Delivers size s.inner
  /-- The pointers that all consumers got are the first of those that all producers stored, each
  once and in the order of the produces. -/
  order : (s.done .consumer).map Prod.snd <+: s.inner.moved .producer
  /-- A pointer is stored by a produce that returns 0, or is about to. -/
  accepted : (s.done .producer).map Prod.snd <+: s.inner.moved .producer ∧
    (s.inner.moved .producer).length ≤ (s.done .producer).length + 1
  /-- `ptr_ring_full()` finds an occupied slot exactly when the ring is full. -/
  full : ∀ i k, s.thread i = .test .full k →
    ((s.inner.ring.queue k).isSome ↔ s.inner.live.length = size)
  /-- `ptr_ring_empty()` and `PTR_RING_PEEK_CALL()` find the first pointer. -/
  peek : ∀ i k, s.thread i = .test .peek k → s.inner.ring.queue k = s.inner.live.head?

omit [DecidableEq ι] in
/-- No call runs at an end whose lock is held for a test. -/
theorem LockInv.idle_of_test (h : LockInv s) {i : ι} {op : Op E} {k : ℕ}
    (hpc : s.thread i = .test op k) : s.inner.pc op.side = .idle := by
  by_contra hne
  obtain ⟨j, op', hj, -, hside⟩ := h.inside op.side hne
  have heq := h.exclusive (e := op.side) (by rw [hpc]; rfl) (by rw [hj]; exact congrArg some hside)
  subst heq
  rw [hpc] at hj
  cases hj

/-- **Any number of producers and consumers are served.** Every run of any number of CPUs on a new
ring with slots is inside the locks one of a single producer and a single consumer; pointers come
out once each and in order, and full and empty are told exactly. -/
theorem locked_serves {cacheBytes size : ℕ} {r : PtrRing E} (hsize : 0 < size)
    (hinit : ptrRingInit cacheBytes size true = .ok r)
    (hreach : Reachable step (fun _ _ => True) (start r) s) :
    Reachable spscStep (fun _ _ => True) (spscStart r) s.inner ∧ Serves size s := by
  obtain ⟨hlocks, hinner⟩ := refines_spsc hreach
  refine ⟨hinner, ?_⟩
  have hinv := inv_of_reachable hsize hinit hinner
  have hdelivers : Delivers size s.inner := by
    have hboth : Inv size s.inner ∧ s.inner.HasArg := by
      refine hinner.invariant (P := fun t => Inv size t ∧ t.HasArg)
        ⟨.start hsize hinit, fun _ h => by cases h⟩ ?_
      rintro t a t' ⟨hinv, harg⟩ - hs
      exact ⟨hinv.step hs, harg.step hs⟩
    exact hboth.1.delivers hboth.2
  have hlen := congrArg List.length (hlocks.done .producer)
  rw [List.length_map] at hlen
  refine ⟨fun i j e hi hj => hlocks.exclusive hi hj, hdelivers, ?_, ?_, fun i k hi => ?_,
    fun i k hi => ?_⟩
  · rw [hlocks.done]
    exact hdelivers.order
  · rw [hlocks.done, hlen]
    exact ⟨hdelivers.accepted.1, hdelivers.accepted.2.1⟩
  · -- the index is that of the slot behind the arc
    have hindex := hinv.index .producer
    have hidle : s.inner.pc .producer = .idle := hlocks.idle_of_test hi
    obtain ⟨-, hk⟩ := hlocks.test i .full k hi
    have hk : k = s.inner.ring.index .producer := hk
    rw [hidle] at hindex
    have hindex : s.inner.ring.index .producer = (s.inner.moved .producer).length % size := hindex
    rw [hinv.order, List.length_append] at hindex
    have hle := hinv.ring.length_le
    rw [hk, hindex, Option.isSome_iff_ne_none, ne_eq, hinv.ring.back_eq_none]
    omega
  · have hindex := hinv.index .consumer
    have hidle : s.inner.pc .consumer = .idle := hlocks.idle_of_test hi
    obtain ⟨-, hk⟩ := hlocks.test i .peek k hi
    have hk : k = s.inner.ring.index .consumer := hk
    rw [hidle] at hindex
    have hindex : s.inner.ring.index .consumer = (s.inner.moved .consumer).length % size := hindex
    rw [hk, hindex, hinv.ring.front, List.head?_eq_getElem?]

end Runs

/-! ## Completion -/

/-- The steps left to a call inside. -/
def innerLeft : Pc E → ℕ
  | .idle => 0
  | .refuse | .finish _ => 1
  | .wrap _ => 2
  | .loadSize .. => 3
  | .loadIndexWrap _ => 4
  | .storeIndex .. | .storeSlot .. => 5
  | .access .. => 6
  | .loadIndexAgain _ => 7
  | .loadSlot .. => 8
  | .loadIndex _ => 9

/-- A step of a thread inside leaves fewer steps to it. -/
theorem innerLeft_lt {t t' : PtrRing.State E} {e : End} (hmove : PtrRing.Move t e t') :
    innerLeft (t'.pc e) < innerLeft (t.pc e) := by
  have hgoto : ∀ (u : PtrRing.State E) pc, (u.goto e pc).pc e = pc := fun u pc =>
    Function.update_self ..
  cases hmove with
  | loadIndex hpc | refused hpc | passed hpc | refuse hpc | loadIndexAgain hpc | slotFirst hpc
    | indexFirst hpc | storeIndex hpc | storeSlot hpc | loadIndexWrap hpc | past hpc | inside hpc
    | wrap hpc | finish hpc =>
    rw [hgoto, hpc]
    simp [innerLeft]

/-- A running call has a next step: its slot is in the memory of the ring. -/
theorem exists_advance {n : ℕ} {t : PtrRing.State E} {e : End} (h : Inv n t)
    (hbusy : t.pc e ≠ .idle) : ∃ t', t.advance e true = some t' := by
  have hslot := ((h.index e).bounds h.ring.pos).2.2
  have hle := h.size_le
  apply Option.isSome_iff_exists.mp
  unfold PtrRing.State.advance
  cases hpc : t.pc e with
  | idle => exact absurd hpc hbusy
  | loadSlot arg i | access ptr i | storeSlot ptr i =>
    rw [hpc] at hslot
    have hi : i < t.ring.slots := (hslot i rfl).trans_le hle
    simp [load_eq hi, PtrRing.State.putSlot, store_eq hi]
  | _ => rfl

/-- **The steps left** to a CPU. -/
def Thread.left (t : PtrRing.State E) : Thread E → ℕ
  | .idle => 0
  | .lock _ => 11
  | .inside op => if op.arg?.isSome then innerLeft (t.pc op.side) + 1 else 3
  | .test .. => 2
  | .unlock .. => 1

section Completion

variable [DecidableEq ι] {s s' : State ι E} {i : ι}

omit [DecidableEq ι] in
/-- **Some CPU can go on**: one that is not in `spin_lock()`, or one whose lock is free. -/
theorem LockInv.exists_free (h : LockInv s) (hbusy : ∃ i, s.thread i ≠ .idle) :
    ∃ i, s.thread i ≠ .idle ∧ ∀ op, s.thread i = .lock op → s.lock op.side = none := by
  by_cases hrun : ∃ i, s.thread i ≠ .idle ∧ ∀ op, s.thread i ≠ .lock op
  · obtain ⟨i, hi, hnot⟩ := hrun
    exact ⟨i, hi, fun op hop => absurd hop (hnot op)⟩
  · -- everybody is in `spin_lock()`, so nobody holds a lock
    push Not at hrun
    obtain ⟨i, hi⟩ := hbusy
    refine ⟨i, hi, fun op _ => ?_⟩
    cases hlock : s.lock op.side with
    | none => rfl
    | some j =>
      have hj := (h.lock_iff j op.side).mpr hlock
      obtain ⟨op', hop'⟩ := hrun j (fun hidle => by rw [hidle] at hj; cases hj)
      rw [hop'] at hj
      cases hj

/-- The step of a CPU that can go on. -/
theorem LockInv.exists_step {n : ℕ} (h : LockInv s) (hinv : Inv n s.inner)
    (hbusy : s.thread i ≠ .idle) : ∃ s', Locked.step s (.run i true) = some s' := by
  apply Option.isSome_iff_exists.mp
  simp only [Locked.step, State.advance]
  cases hpc : s.thread i with
  | idle => exact absurd hpc hbusy
  | lock op =>
    simp only
    split <;> rfl
  | inside op =>
    simp only
    split
    · obtain ⟨t, ht⟩ := exists_advance hinv (h.busy i op hpc (by simp [*]))
      rw [ht]
      rfl
    · rfl
  | test op k =>
    have hidle := h.idle_of_test hpc
    obtain ⟨-, hk⟩ := h.test i op k hpc
    have hlt : k < s.inner.ring.slots := by
      rw [hk]
      refine Nat.lt_of_lt_of_le ?_ (hinv.size_eq ▸ hinv.size_le)
      rw [hinv.size_eq]
      exact ((hinv.index op.side).bounds hinv.ring.pos).2.1 (by rw [hidle]; rfl)
    simp [load_eq hlt]
  | unlock op res => rfl

omit [DecidableEq ι] in
/-- What is left to a CPU depends on the call at its end only. -/
theorem Thread.left_congr {t t' : PtrRing.State E} {th : Thread E}
    (h : ∀ op, th = .inside op → t'.pc op.side = t.pc op.side) : th.left t' = th.left t := by
  cases th with
  | inside op => simp only [Thread.left, h op rfl]
  | _ => rfl

/-- **A step that is no round of `spin_lock()` brings its CPU on**, and costs the others nothing. -/
theorem LockInv.left_lt (h : LockInv s) (hfree : ∀ op, s.thread i = .lock op →
      s.lock op.side = none) (hs : Locked.step s (.run i true) = some s') :
    (s'.thread i).left s'.inner < (s.thread i).left s.inner ∧
      ∀ j, j ≠ i → (s'.thread j).left s'.inner ≤ (s.thread j).left s.inner := by
  have hself : ∀ (u : State ι E) t, (u.goto i t).thread i = t := fun u t =>
    Function.update_self ..
  have hother : ∀ (u : State ι E) t j, j ≠ i → (u.goto i t).thread j = u.thread j :=
    fun u t j hj => Function.update_of_ne hj ..
  have hmove : Move s i s' := move_of_step hs
  cases hmove with
  | call hready =>
    -- a CPU that runs no call has no step
    have hidle : s.thread i = .idle := by
      cases hpc : s.thread i <;> rw [hpc] at hready <;> first | rfl | cases hready
    simp only [Locked.step, State.advance, hidle] at hs
    cases hs
  | spin hpc hheld =>
    rw [hfree _ hpc] at hheld
    cases hheld
  | @take op hpc hlock =>
    refine ⟨?_, fun j hj => ?_⟩
    · rw [hself, hpc]
      have hle : innerLeft ((s.take i op).inner.pc op.side) ≤ 9 := by
        cases (s.take i op).inner.pc op.side <;> simp [innerLeft]
      simp only [Thread.left, State.goto]
      split <;> omega
    · rw [hother _ _ j hj]
      -- nobody else is inside at this end
      refine (Thread.left_congr fun op' hop' => ?_).le
      have hne : op'.side ≠ op.side := by
        intro heq
        have hj := (h.lock_iff j op'.side).mp (by rw [show s.thread j = _ from hop']; rfl)
        rw [heq, hlock] at hj
        cases hj
      show (s.take i op).inner.pc op'.side = s.inner.pc op'.side
      simp only [State.take]
      split
      · exact Function.update_of_ne hne ..
      · rfl
  | @inside op arg _ inner hpc harg hinner =>
    have hmove := move_of_advance hinner
    have hlt := innerLeft_lt hmove
    have hsome : op.arg?.isSome := by rw [harg]; rfl
    have hothers : ∀ j, j ≠ i → (s.thread j).left inner ≤ (s.thread j).left s.inner := by
      intro j hj
      refine (Thread.left_congr fun op' hop' => (frame_of_move hmove fun heq => ?_).1).le
      exact hj (h.exclusive (e := op.side) (by rw [hop']; exact congrArg some heq)
        (by rw [hpc]; rfl))
    have hbefore : (s.thread i).left s.inner = innerLeft (s.inner.pc op.side) + 1 := by
      rw [hpc]
      exact if_pos hsome
    cases hcall : s.inner.pc op.side with
    | refuse | finish =>
      refine ⟨?_, fun j hj => ?_⟩
      · rw [hbefore, hcall, State.after, hself]
        exact Nat.lt_succ_self 1
      · rw [State.after, hother _ _ j hj]
        exact hothers j hj
    | _ =>
      refine ⟨?_, hothers⟩
      rw [hbefore,
        show (State.after { s with inner := inner } i op _).thread i = s.thread i from rfl, hpc]
      show (if op.arg?.isSome then innerLeft (inner.pc op.side) + 1 else 3) < _
      rw [if_pos hsome]
      omega
  | @index op hpc harg =>
    refine ⟨?_, fun j hj => by rw [hother _ _ j hj]; exact le_rfl⟩
    rw [hself, hpc]
    simp [Thread.left, harg]
  | test hpc | unlock hpc =>
    refine ⟨?_, fun j hj => by rw [hother _ _ j hj]; exact le_rfl⟩
    rw [hself, hpc]
    simp [Thread.left]

/-- **Calls under the locks complete**, on a ring with slots. From every state of a run, steps of
the calls in progress alone lead to a state in which no CPU runs a call and both locks are free. The
ring then holds the pointers produced and not yet consumed, in the order of the produces. -/
theorem locked_completes [Fintype ι] {cacheBytes size : ℕ} {r : PtrRing E} (hsize : 0 < size)
    (hinit : ptrRingInit cacheBytes size true = .ok r)
    (hreach : Reachable Locked.step (fun _ _ => True) (start r) s) :
    ∃ s', Reachable Locked.step (fun _ a => a.IsRun) s s' ∧ (∀ i, s'.thread i = .idle) ∧
      (∀ e, s'.lock e = none) ∧
      (s'.done .producer).map Prod.snd
        = (s'.done .consumer).map Prod.snd ++ s'.inner.ring.contents := by
  obtain ⟨s', hrun, hidle⟩ : ∃ s', Reachable Locked.step (fun _ a => a.IsRun) s s' ∧
      ∀ i, s'.thread i = .idle := by
    refine exists_reachable_of_left
      (P := fun s => Reachable Locked.step (fun _ _ => True) (start r) s)
      (fun s i => (s.thread i).left s.inner) (fun s hreach hbusy => ?_) hreach
    obtain ⟨hlocks, hinner⟩ := refines_spsc hreach
    obtain ⟨i, hi, hfree⟩ := hlocks.exists_free (not_forall.mp hbusy)
    obtain ⟨s', hs⟩ := hlocks.exists_step (inv_of_reachable hsize hinit hinner) hi
    obtain ⟨hlt, hothers⟩ := hlocks.left_lt hfree hs
    exact ⟨.run i true, s', i, trivial, hs, hreach.tail trivial hs, hlt, hothers⟩
  have hreach' := hreach.trans (hrun.mono fun _ _ _ => trivial)
  obtain ⟨hlocks, hinner⟩ := refines_spsc hreach'
  have hinv := inv_of_reachable hsize hinit hinner
  have hlock : ∀ e, s'.lock e = none := by
    intro e
    by_contra hne
    obtain ⟨i, hi⟩ := Option.ne_none_iff_exists'.mp hne
    have hholds := (hlocks.lock_iff i e).mpr hi
    rw [hidle i] at hholds
    cases hholds
  have hpc : ∀ e, s'.inner.pc e = .idle := fun e => hlocks.idle_of_free (hlock e)
  have hreturned : ∀ e, s'.inner.returned e = s'.inner.moved e := by
    intro e
    have h := hinv.returned e
    rwa [hpc e, show (Pc.idle : Pc E).inflight = [] from rfl, List.append_nil] at h
  refine ⟨s', hrun, hidle, hlock, ?_⟩
  rw [hlocks.done, hlocks.done, hreturned, hreturned, hinv.order]
  congr 1
  -- the consumer index is the residue of the position of the first pointer
  have hindex := hinv.index .consumer
  rw [hpc .consumer] at hindex
  have hindex : s'.inner.ring.consumer = (s'.inner.moved .consumer).length % size := hindex
  have hring : SlotRing.Holds s'.inner.ring.size s'.inner.ring.queue s'.inner.ring.consumer
      s'.inner.live := by
    rw [hinv.size_eq]
    exact hinv.ring.congr (by rw [hindex, Nat.mod_mod]) fun _ _ => rfl
  exact hring.read.symm

/-- CPU `i` has stored the pointer 7 and holds `producer_lock`, CPU `j` waits for it with the
pointer 8, and CPU `k` has already consumed the pointer 7. -/
def contended (i j k : ι) : Option (State ι ℕ) :=
  runOk Locked.step (fun _ _ => True) (start one)
    ([.call i (.produce 7)] ++ List.replicate 5 (.run i true) ++
      [.call j (.produce 8), .run j true, .call k .consume] ++ List.replicate 11 (.run k true))

/-- Three CPUs on a ring of one slot. -/
theorem locked_serves_contended :
    ∃ s : State (Fin 3) ℕ, contended 0 1 2 = some s ∧ s.done .consumer = [(2, 7)] ∧
      s.done .producer = [] ∧
      Reachable spscStep (fun _ _ => True) (spscStart one) s.inner ∧ Serves 1 s := by
  have hrun : (contended (ι := Fin 3) 0 1 2).any
      (fun s => s.done .consumer = [(2, 7)] ∧ s.done .producer = []) := by decide
  obtain ⟨s, hs, hdone⟩ := (Option.any_eq_true _ _).mp hrun
  obtain ⟨hconsumed, hproduced⟩ := of_decide_eq_true hdone
  exact ⟨s, hs, hconsumed, hproduced, locked_serves (by decide)
    (show ptrRingInit 64 1 true = .ok one from rfl) (reachable_of_runOk hs)⟩

/-- The three calls are brought to their ends. -/
theorem locked_completes_contended :
    ∃ s : State (Fin 3) ℕ, contended 0 1 2 = some s ∧ s.lock .producer = some 0 ∧
      ∃ s', Reachable Locked.step (fun _ a => a.IsRun) s s' ∧ (∀ i, s'.thread i = .idle) ∧
        (∀ e, s'.lock e = none) ∧
        (s'.done .producer).map Prod.snd
          = (s'.done .consumer).map Prod.snd ++ s'.inner.ring.contents := by
  have hrun : (contended (ι := Fin 3) 0 1 2).any (fun s => s.lock .producer = some 0) := by decide
  obtain ⟨s, hs, hlock⟩ := (Option.any_eq_true _ _).mp hrun
  exact ⟨s, hs, of_decide_eq_true hlock, locked_completes (by decide)
    (show ptrRingInit 64 1 true = .ok one from rfl) (reachable_of_runOk hs)⟩

end Completion

end PtrRing.Locked
