import PrototypeKernel.QMempool.Sequential

/-! # Every element in every interleaving

Calls on all CPUs interleave, the slab may fail at any time, and any assertion may fire. An element
that the slab has handed out is still in one place, a caller's hands, a queue, or those of a call
that runs or has stopped at an assertion, with one exception: a refill in which the slab fails after
two elements or more drops the last of them. The dropped elements are counted by such refills. -/

namespace QMempool

open TransitionSystem

variable {N : ℕ} {E Q : Type*} {localqSz sharedqSz : ℕ} {wait : UInt32}

/-! ## Refills that the slab cuts short -/

/-- The call goes on although the slab has failed in the middle of its refill. -/
def Pc.cutShort : Pc E → Pc E → ℕ
  | .slabPartial .., .allocRet _ => 1
  | _, _ => 0

/-- The element that such a refill drops. -/
def Pc.dropped : Pc E → Pc E → List E
  | .slabPartial _ elems j, .allocRet _ => (elems (j - 1)).toList
  | _, _ => []

/-- What a refill has collected are elements. -/
def Pc.Given : Pc E → Prop
  | .slabElem _ elems _ j | .slabPartial _ elems j => ∀ k, k < j → (elems k).isSome
  | _ => True

/-- A freed element is one that a caller holds. -/
def State.Owned (s : State N E Q) : Action N E → Prop
  | .free _ elem _ => ∃ e ∈ s.held, elem = some e
  | _ => True

instance [DecidableEq E] (s : State N E Q) : (a : Action N E) → Decidable (s.Owned a)
  | .alloc .. | .run .. => isTrue trivial
  | .free _ elem _ => inferInstanceAs (Decidable (∃ e ∈ s.held, elem = some e))

section Step

variable [DecidableEq E]

/-- A step of the pool together with a count of the refills that the slab has cut short. -/
def countedStep (ops : QueueOps Q E) (wait : UInt32) (p : State N E Q × ℕ) (a : Action N E) :
    Option (State N E Q × ℕ) :=
  (step ops wait p.1 a).map fun s' => (s', match a with
    | .run c _ => p.2 + (p.1.pc c).cutShort (s'.pc c)
    | _ => p.2)

/-! ## Moves -/

variable {slab : Option E} {v v' : View E}

/-- A step keeps what the caller has been given. -/
theorem Move.given (hm : Move localqSz sharedqSz wait slab v v') (h : v.pc.Given) :
    v'.pc.Given := by
  cases hm with
  | first => exact fun k hk => absurd hk (Nat.not_lt_zero k)
  | enq => exact fun k hk => absurd hk (Nat.not_lt_zero k)
  | @elemNull elem elems i j =>
    intro k hk
    rw [Function.update_of_ne (Nat.ne_of_lt hk)]
    exact h k hk
  | @elem e elem elems i j =>
    intro k hk
    by_cases hkj : k = j
    · rw [hkj, Function.update_self]
      rfl
    · rw [Function.update_of_ne hkj]
      exact h k (by omega)
  | _ => trivial

/-- One element is dropped by each refill that is cut short. -/
theorem Move.length_dropped (hm : Move localqSz sharedqSz wait slab v v') (h : v.pc.Given) :
    (v.pc.dropped v'.pc).length = v.pc.cutShort v'.pc := by
  cases hm with
  | @partialEnq slab elem elems sh own held out k hpos hroom =>
    obtain ⟨e, he⟩ := Option.isSome_iff_exists.mp (h k (Nat.lt_succ_self k))
    simp [Pc.dropped, Pc.cutShort, he]
  | _ => rfl

omit [DecidableEq E] in
/-- A step that does not cut a refill short drops nothing. -/
theorem Pc.dropped_of_ne {pc : Pc E} (h : ∀ elem elems j, pc ≠ .slabPartial elem elems j)
    (pc' : Pc E) : pc.dropped pc' = [] := by
  unfold Pc.dropped
  split
  · exact absurd rfl (h _ _ _)
  · rfl

/-- **A move conserves the elements**, with the dropped one. -/
theorem Move.conserves_dropped (hm : Move localqSz sharedqSz wait slab v v') (e : E)
    (hle : v.pc.transit.count (some e) ≤ v.out.count e) :
    v'.count e + (v.pc.dropped v'.pc).count e + v.out.count e = v.count e + v'.out.count e := by
  by_cases hpartial : ∃ elem elems j, v.pc = .slabPartial elem elems j
  · obtain ⟨elem, elems, j, hpc⟩ := hpartial
    cases hm with
    | @partialEnq slab elem elems sh own held out k hpos hroom =>
      -- the enqueue leaves out the last entry
      have hlast : entries elems (k + 1) = entries elems k ++ [elems k] := by
        rw [entries, List.range_succ, List.map_append]
        rfl
      simp only [View.count, Pc.transit, Pc.dropped, hlast, Nat.add_sub_cancel, count_toList,
        List.count_append, List.count_cons, List.count_nil]
      omega
    | partialBug => simp [View.count, Pc.transit, Pc.dropped]
    | _ => cases hpc
  · have hgiven : ∀ elem elems j, v.pc ≠ .slabPartial elem elems j :=
      fun elem elems j hpc => hpartial ⟨elem, elems, j, hpc⟩
    rw [Pc.dropped_of_ne hgiven, List.count_nil, Nat.add_zero]
    exact hm.conserves hgiven e hle

/-! ## The invariant -/

/-- The state in which the `dropped` elements are with their callers. -/
def State.keep (t : State N E Q) (dropped : List E) : State N E Q :=
  { t with held := t.held ++ dropped }

/-- Every element that the slab has handed out is in exactly one place, once, or is one of the
`dropped` ones. -/
structure PlacedBut (dropped : List E) (t : State N E (BoundedList E)) : Prop where
  placed : Placed (t.keep dropped)
  given : ∀ c, (t.pc c).Given

variable {t t' : State N E (BoundedList E)} {c : Fin N} {dropped : List E}

omit [DecidableEq E] in
/-- Dropped elements have been handed out by the slab. -/
theorem State.keep_out (t : State N E Q) (dropped : List E) : (t.keep dropped).out = t.out := rfl

/-- A dropped element counts as one that is held. -/
theorem State.view_keep_count (t : State N E (BoundedList E)) (dropped : List E) (c : Fin N)
    (e : E) : ((t.keep dropped).view c).count e = (t.view c).count e + dropped.count e := by
  simp only [View.count, State.view, State.keep, List.count_append]
  omega

omit [DecidableEq E] in
/-- Dropped elements change nothing for the other CPUs. -/
theorem State.Frame.keep (h : t.Frame c t') (dropped dropped' : List E) :
    (t.keep dropped).Frame c (t'.keep dropped') :=
  ⟨h.pc, h.localq, h.shared_cap, h.local_cap⟩

/-- The elements of a new pool are in the shared queue. -/
theorem PlacedBut.start {es : List E} (hes : es.Nodup) :
    PlacedBut [] (startLists (N := N) localqSz sharedqSz es) :=
  ⟨Placed.start hes, fun _ => trivial⟩

/-- A step of a running call. -/
theorem PlacedBut.run {slab : Option E} (h : PlacedBut dropped t) (hframe : t.Frame c t')
    (hm : Move localqSz sharedqSz wait slab (t.view c) (t'.view c)) :
    PlacedBut (dropped ++ (t.pc c).dropped (t'.pc c)) t' := by
  refine ⟨h.placed.of_frame (hframe.keep _ _) (hm.nodup h.placed.nodup) fun e => ?_,
    fun c' => hframe.forall_pc h.given (hm.given (h.given c)) c'⟩
  have hle := h.placed.view_count_le c e
  rw [State.view_keep_count, State.keep_out] at hle
  have hcons : (t'.view c).count e + ((t.pc c).dropped (t'.pc c)).count e + t.out.count e
      = (t.view c).count e + t'.out.count e := by
    refine hm.conserves_dropped e ?_
    simp only [View.count, State.view] at hle ⊢
    omega
  rw [State.view_keep_count, State.view_keep_count, State.keep_out, State.keep_out,
    List.count_append]
  omega

/-- **Each step accounts for every element**, whatever the other CPUs do. -/
theorem PlacedBut.step {a : Action N E} {n n' : ℕ} (h : PlacedBut dropped t)
    (hn : dropped.length = n) (hbase : BaseInv localqSz sharedqSz t) (hlocal : bulk ≤ localqSz)
    (hsize : sharedqSz < 2 ^ 32 - 1) (howned : t.Owned a)
    (hs : countedStep listOps wait (t, n) a = some (t', n')) :
    ∃ dropped', dropped'.length = n' ∧ PlacedBut dropped' t' := by
  obtain ⟨t₁, hs₁, heq⟩ := Option.map_eq_some_iff.mp hs
  obtain ⟨rfl, rfl⟩ := Prod.mk.inj heq
  cases a with
  | alloc c gfp stack =>
    obtain ⟨hidle, rfl⟩ := step_alloc_eq_some.mp hs₁
    refine ⟨dropped, hn, h.placed.alloc hidle gfp stack, fun c' => ?_⟩
    exact (State.frame_goto _).forall_pc h.given (by rw [State.goto_pc_self]; trivial) c'
  | free c elem stack =>
    obtain ⟨e, he, rfl⟩ := howned
    obtain ⟨hidle, rfl⟩ := step_free_eq_some.mp hs₁
    have hfree := h.placed.free hidle (List.mem_append_left _ he) stack
    refine ⟨dropped, hn, ?_, fun c' => ?_⟩
    · -- the element that is taken out of the held ones is not a dropped one
      rw [State.unhold, Option.elim_some, State.keep, List.erase_append_left _ he] at hfree
      exact hfree
    · exact (State.frame_ghost ..).forall_pc h.given (by rw [State.goto_pc_self]; trivial) c'
  | run c slab =>
    obtain ⟨hmove, hframe⟩ := hbase.move hlocal hsize hs₁
    refine ⟨_, ?_, h.run hframe hmove⟩
    rw [List.length_append, hn]
    exact congrArg (n + ·) (hmove.length_dropped (h.given c))

end Step

/-! ## Every interleaving -/

section Runs

variable [DecidableEq E]

/-- Related pools that have counted the same. -/
def CountedRel (p : State N E (QueuePtr E) × ℕ) (q : State N E (BoundedList E) × ℕ) : Prop :=
  Rel p.1 q.1 ∧ p.2 = q.2

/-- A counted step of the code is a counted step over lists. -/
theorem CountedRel.step {p p' : State N E (QueuePtr E) × ℕ} {q : State N E (BoundedList E) × ℕ}
    {a : Action N E} (h : CountedRel p q) (howned : p.1.Owned a)
    (hs : countedStep ptrOps wait p a = some p') :
    ∃ q', countedStep listOps wait q a = some q' ∧ q.1.Owned a ∧ CountedRel p' q' := by
  obtain ⟨hrel, hn⟩ := h
  obtain ⟨s', hs', rfl⟩ := Option.map_eq_some_iff.mp hs
  have hstep := step_rel hrel wait a
  rw [hs'] at hstep
  cases ht : QMempool.step listOps wait q.1 a with
  | none => rw [ht] at hstep; cases hstep
  | some t' =>
    rw [ht] at hstep
    cases hstep with
    | some hrel' =>
      refine ⟨_, by rw [countedStep, ht, Option.map_some], ?_, hrel', ?_⟩
      · cases a with
        | free c elem stack => simpa only [State.Owned, hrel.held] using howned
        | _ => trivial
      · simp only [hn, hrel.pc, hrel'.pc]

end Runs

end QMempool
