import PrototypeKernel.QMempool.Places

/-! # Calls that do not overlap

With one call at a time, the shared queue that an allocation has seen empty is still empty when the
allocation refills it, so a refill always finds room. What is left of the assertions is the one
about `gfp_mask`, which is a condition on the caller. -/

namespace QMempool

open TransitionSystem

variable {N : ℕ} {E Q : Type*} {localqSz sharedqSz : ℕ} {wait : UInt32}

/-! ## Runs of calls that do not overlap -/

/-- The slab is asked for an element in the middle of a refill. -/
def Pc.refilling : Pc E → Bool
  | .slabElem .. => true
  | _ => false

/-- The next action is one of a sequence of calls that do not overlap: a call starts when no other
runs, a freed element is one that a caller holds, and the slab does not refuse one in the middle of
a refill. -/
def State.Sequential (s : State N E Q) : Action N E → Prop
  | .alloc .. => ∀ c, (s.pc c).ready
  | .free _ elem _ => (∀ c, (s.pc c).ready) ∧ ∃ e ∈ s.held, elem = some e
  | .run c slab => (s.pc c).refilling → slab.isSome

instance [DecidableEq E] (s : State N E Q) (a : Action N E) : Decidable (s.Sequential a) := by
  cases a <;> unfold State.Sequential <;> infer_instance

/-- An allocation starts with a `gfp_mask` that does not allow it to sleep. -/
def Action.atomic (wait : UInt32) : Action N E → Bool
  | .alloc _ gfp _ => gfp &&& wait = 0
  | _ => true

/-- What a running call knows when no other call runs: `gfp_mask` does not allow to sleep, and a
refill has put the batches of the previous rounds into an empty shared queue. -/
def Pc.Alone (wait : UInt32) (shared : List (Option E)) : Pc E → Prop
  | .allocLocal gfp _ | .allocShared gfp _ => gfp &&& wait = 0
  | .slabFirst gfp _ => gfp &&& wait = 0 ∧ shared = []
  | .slabElem _ _ i _ | .slabEnq _ _ i => shared.length = bulk * i
  | .slabPartial .. | .bug .. => False
  | _ => True

/-- **The invariant of calls that do not overlap.** -/
structure SeqInv (wait : UInt32) (t : State N E (BoundedList E)) : Prop where
  single : ∀ c c', t.pc c ≠ .idle → t.pc c' ≠ .idle → c = c'
  alone : ∀ c, (t.pc c).Alone wait t.sharedq.items

section Steps

variable [DecidableEq E] {t t' : State N E (BoundedList E)} {c : Fin N}

/-- With one call at a time no assertion fires. -/
theorem Move.alone {slab : Option E} {v v' : View E}
    (hm : Move localqSz sharedqSz wait slab v v') (hroom : bulk * refillMultiplier ≤ sharedqSz)
    (hok : v.pc.Ok localqSz v.own) (hslab : v.pc.refilling → slab.isSome)
    (halone : v.pc.Alone wait v.shared) : v'.pc.Alone wait v'.shared := by
  have h16 : bulk = 16 := rfl
  have h2 : refillMultiplier = 2 := rfl
  cases hm <;>
    simp [Pc.Alone, Pc.Ok, Pc.refilling, length_entries, h16, h2] at hroom hok hslab halone ⊢
  case gfpBug hgfp => exact hgfp halone.1
  case first => exact halone.2
  all_goals omega

omit [DecidableEq E] in
/-- A step of CPU `c` while no other CPU runs a call. -/
theorem SeqInv.of_frame (hframe : t.Frame c t') (hothers : ∀ c', c' ≠ c → t.pc c' = .idle)
    (halone : (t'.pc c).Alone wait t'.sharedq.items) : SeqInv wait t' := by
  have hidle : ∀ c', c' ≠ c → t'.pc c' = .idle := by
    intro c' hc
    rw [hframe.pc c' hc, hothers c' hc]
  refine ⟨fun c₁ c₂ h₁ h₂ => ?_, fun c' => ?_⟩
  · rw [not_imp_comm.mp (hidle c₁) h₁, not_imp_comm.mp (hidle c₂) h₂]
  · by_cases hc : c' = c
    · rwa [hc]
    · rw [hidle c' hc]
      trivial

/-- **Each step of calls that do not overlap keeps both invariants.** -/
theorem SeqInv.step {a : Action N E} (h : SeqInv wait t) (hplaced : Placed t)
    (hbase : BaseInv localqSz sharedqSz t) (hlocal : bulk ≤ localqSz)
    (hsize : sharedqSz < 2 ^ 32 - 1) (hroom : bulk * refillMultiplier ≤ sharedqSz)
    (hseq : t.Sequential a) (hatomic : a.atomic wait)
    (hs : QMempool.step listOps wait t a = some t') : SeqInv wait t' ∧ Placed t' := by
  cases a with
  | alloc c gfp stack =>
    obtain ⟨hidle, rfl⟩ := step_alloc_eq_some.mp hs
    refine ⟨SeqInv.of_frame (State.frame_goto _) (fun c' _ => Pc.ready_iff.mp (hseq c')) ?_,
      hplaced.alloc hidle gfp stack⟩
    rw [State.goto_pc_self]
    have hgfp : gfp &&& wait = 0 := of_decide_eq_true hatomic
    exact hgfp
  | free c elem stack =>
    obtain ⟨hready, e, he, rfl⟩ := hseq
    obtain ⟨hidle, rfl⟩ := step_free_eq_some.mp hs
    refine ⟨SeqInv.of_frame (State.frame_ghost ..) (fun c' _ => Pc.ready_iff.mp (hready c')) ?_,
      hplaced.free hidle he stack⟩
    rw [State.goto_pc_self]
    trivial
  | run c slab =>
    obtain ⟨hmove, hframe⟩ := hbase.move hlocal hsize hs
    -- a CPU that takes a step runs a call, so it is the only one that does
    have hbusy : t.pc c ≠ .idle := by
      intro hidle
      simp only [QMempool.step, State.advance, hidle, reduceCtorEq] at hs
    have hgiven : ∀ elem elems j, t.pc c ≠ .slabPartial elem elems j := by
      intro elem elems j hpc
      have halone := h.alone c
      rw [hpc] at halone
      exact halone
    refine ⟨SeqInv.of_frame hframe (fun c' hc => ?_)
      (hmove.alone hroom (hbase.calls c) hseq (h.alone c)), hplaced.run hframe hmove hgiven⟩
    by_contra hbusy'
    exact hc (h.single c' c hbusy' hbusy)

end Steps

/-! ## Accounting -/

/-- The elements that a list of events gives back to the slab. -/
def freed (events : List (Event N E)) : List (Option E) :=
  events.filterMap fun
    | .elemFree elem => some elem
    | _ => none

/-- **All is accounted for** in a state where the queues hold `shared` and `own`. -/
structure Accounted [DecidableEq E] (localqSz sharedqSz : ℕ) (pool : Qmempool N E)
    (s : State N E (QueuePtr E)) (shared : List (Option E)) (own : Fin N → List (Option E)) :
    Prop where
  sharedq : QueueRel s.sharedq ⟨sharedqSz, shared⟩
  localq : ∀ c, QueueRel (s.localq c) ⟨localqSz, own c⟩
  /-- No assertion has fired. -/
  noBug : ∀ c, (s.pc c).bug? = none
  /-- An element is handed out at most once. -/
  once : s.out.Nodup
  /-- An element that is handed out is in exactly one place. -/
  place : ∀ e, s.held.count e + shared.count (some e) + ∑ c, (own c).count (some e) +
    ∑ c, (s.pc c).transit.count (some e) = s.out.count e
  /-- Between two calls that place is a caller or a queue. -/
  between : (∀ c, (s.pc c).ready) →
    ∀ e, s.held.count e + shared.count (some e) + ∑ c, (own c).count (some e) = s.out.count e
  /-- An allocation does not return an element that a caller holds. -/
  fresh : ∀ c e, s.pc c = .allocRet (some e) → e ∉ s.held
  /-- Destruction gives the elements in the queues back to the slab, each once. -/
  destroy : (∀ c, (s.pc c).ready) → ∃ events, qmempoolDestroy (pool.withQueues s) = some events ∧
    freed events = (List.finRange N).flatMap own ++ shared

/-- The elements freed in two parts of the events. -/
theorem freed_append (xs ys : List (Event N E)) : freed (xs ++ ys) = freed xs ++ freed ys :=
  List.filterMap_append

/-- Freed elements are freed. -/
theorem freed_elemFree (xs : List (Option E)) : freed (N := N) (xs.map .elemFree) = xs := by
  simp [freed, List.filterMap_map]

/-- The elements freed by a loop are those of its rounds. -/
theorem freed_flatMap {ι : Type*} (is : List ι) (f : ι → List (Event N E)) :
    freed (is.flatMap f) = is.flatMap fun i => freed (f i) :=
  List.filterMap_flatMap

/-- The elements that a destruction frees. -/
theorem exists_destroy {pool : Qmempool N E} {s : State N E (QueuePtr E)}
    {shared : List (Option E)} {own : Fin N → List (Option E)}
    (hshared : QueueRel s.sharedq ⟨sharedqSz, shared⟩)
    (hown : ∀ c, QueueRel (s.localq c) ⟨localqSz, own c⟩) :
    ∃ events, qmempoolDestroy (pool.withQueues s) = some events ∧
      freed events = (List.finRange N).flatMap own ++ shared := by
  obtain ⟨q, hq, hrep⟩ := hshared
  have hdestroy : qmempoolDestroy (pool.withQueues s) = _ := qmempoolDestroy_eq rfl hown hq hrep
  refine ⟨_, hdestroy, ?_⟩
  simp only [freed_append, freed_flatMap, freed_elemFree]
  simp [freed]

section Accounting

variable [DecidableEq E]

/-- The invariants account for all. -/
theorem accounted_of_invariants {pool : Qmempool N E} {s : State N E (QueuePtr E)}
    {t : State N E (BoundedList E)} (hrel : Rel s t) (hbase : BaseInv localqSz sharedqSz t)
    (hseq : SeqInv wait t) (hplaced : Placed t) :
    Accounted localqSz sharedqSz pool s t.sharedq.items fun c => (t.localq c).items := by
  have hshared : QueueRel s.sharedq ⟨sharedqSz, t.sharedq.items⟩ := by
    rw [← hbase.shared_cap]
    exact hrel.shared
  have hown : ∀ c, QueueRel (s.localq c) ⟨localqSz, (t.localq c).items⟩ := fun c => by
    rw [← hbase.local_cap c]
    exact hrel.local_ c
  -- the sum of `Placed` is split into queues and calls
  have hplace : ∀ e, s.held.count e + t.sharedq.items.count (some e) +
      ∑ c, (t.localq c).items.count (some e) + ∑ c, (s.pc c).transit.count (some e)
        = s.out.count e := by
    intro e
    rw [hrel.held, hrel.out, hrel.pc, ← hplaced.count e, Finset.sum_add_distrib]
    omega
  refine ⟨hshared, hown, fun c => ?_, ?_, hplace, fun hready e => ?_, fun c e hpc hheld => ?_,
    fun _ => exists_destroy hshared hown⟩
  · have halone := hseq.alone c
    rw [← hrel.pc] at halone
    cases hpc : s.pc c <;> first | rfl | (rw [hpc] at halone; exact halone.elim)
  · rw [hrel.out]
    exact hplaced.nodup
  · have htransit : ∑ c, (s.pc c).transit.count (some e) = 0 :=
      Finset.sum_eq_zero fun c _ => by
        rw [Pc.ready_iff.mp (hready c)]
        rfl
    rw [← hplace e, htransit, Nat.add_zero]
  · -- the call has the element in its hands, so a caller that held it would make two of it
    have hle := hplaced.view_count_le c e
    have hone := List.nodup_iff_count_le_one.mp hplaced.nodup e
    rw [hrel.held] at hheld
    have hpos := List.count_pos_iff.mpr hheld
    rw [State.view, ← hrel.pc, hpc] at hle
    simp only [View.count, Pc.transit, List.count_singleton_self] at hle
    omega

end Accounting

/-! ## Every run -/

section Runs

variable [DecidableEq E]

/-- **Calls that do not overlap account for every element.** No assertion fires, every element that
the slab has handed out is in exactly one place, and destruction gives back what the queues hold.
The slab hands out distinct elements, and no `gfp_mask` allows to sleep. -/
theorem sequential_accounted {env : CreateEnv N E} {localqSz sharedqSz prealloc gfpMask : UInt32}
    {pool : Qmempool N E} {events : List (Event N E)}
    (hcreate : qmempoolCreate env localqSz sharedqSz prealloc gfpMask = some (some pool, events))
    (hslab : (allocated events).Nodup) {s : State N E (QueuePtr E)}
    (hreach : Reachable (step ptrOps wait) (fun s a => s.Sequential a ∧ a.atomic wait)
      (pool.start (allocated events)) s) :
    ∃ shared own, Accounted localqSz.toNat sharedqSz.toNat pool s shared own := by
  obtain ⟨hsizes, hcreated, -⟩ := created_of_create hcreate
  obtain ⟨-, hsize⟩ := hcreated.bounds
  -- the guard reads nothing in which related pools differ
  have hguard : ∀ (s : State N E (QueuePtr E)) (t : State N E (BoundedList E)) (a : Action N E),
      Rel s t → s.Sequential a ∧ a.atomic wait → t.Sequential a ∧ a.atomic wait := by
    intro s t a hrel ha
    cases a <;> simpa only [State.Sequential, hrel.pc, hrel.held] using ha
  obtain ⟨t, hreach, hrel⟩ := refines_lists hguard hcreated.rel hreach
  have hinv : SeqInv wait t ∧ Placed t := by
    refine hreach.invariant' (P := fun t => SeqInv wait t ∧ Placed t)
      ⟨⟨fun _ _ h => absurd rfl h, fun _ => trivial⟩, .start hslab⟩ ?_
    rintro t a t' hreach ⟨hseq, hplaced⟩ ⟨ha, hatomic⟩ hs
    exact hseq.step hplaced (BaseInv.reachable hcreated hsizes.bulk_le hreach) hsizes.bulk_le hsize
      hsizes.refill_le ha hatomic hs
  exact ⟨_, _, accounted_of_invariants hrel
    (BaseInv.reachable hcreated hsizes.bulk_le hreach) hinv.1 hinv.2⟩

/-- Two CPUs: an allocation that refills the local queue, and a free on the other CPU. -/
def allocThenFree : List (Action 2 ℕ) :=
  [.alloc 0 0 fun _ => none, .run 0 none, .run 0 none, .run 0 none, .run 0 none,
    .free 1 (some 0) fun _ => none, .run 1 none]

/-- Two CPUs allocate and free, one call at a time. -/
theorem sequential_accounted_two :
    ∃ pool events s, qmempoolCreate (.plenty 2) 16 32 4 0 = some (some pool, events) ∧
      createAndRun (.plenty 2) 16 32 4 0x10 (fun s a => s.Sequential a ∧ a.atomic 0x10)
        allocThenFree = some s ∧
      ∃ shared own, Accounted 16 32 pool s shared own := by
  have hrun : (createAndRun (.plenty 2) 16 32 4 0x10 (fun s a => s.Sequential a ∧ a.atomic 0x10)
      allocThenFree).isSome := by decide +kernel
  have hslab : (qmempoolCreate (.plenty 2) 16 32 4 0).all fun r => (allocated r.2).Nodup := by
    decide +kernel
  obtain ⟨s, hs⟩ := Option.isSome_iff_exists.mp hrun
  obtain ⟨pool, events, hcreate, hreach⟩ := reachable_of_createAndRun hs
  rw [hcreate] at hslab
  exact ⟨pool, events, s, hcreate, hs,
    sequential_accounted hcreate (of_decide_eq_true hslab) hreach⟩

/-- **A `gfp_mask` that allows to sleep is an error of the caller**: one call, on an empty pool. -/
theorem sequential_sleep_bug :
    ∃ pool events s, qmempoolCreate (.plenty 1) 16 32 0 0 = some (some pool, events) ∧
      Reachable (step ptrOps 0x10) (fun s a => s.Sequential a) (pool.start (allocated events)) s ∧
      (s.pc 0).bug? = some .gfpWait := by
  have hrun : (createAndRun (.plenty 1) 16 32 0 0x10 (fun s a => s.Sequential a)
      [.alloc 0 0x10 fun _ => none, .run 0 none, .run 0 none, .run 0 none]).any
        (fun s => (s.pc 0).bug? = some .gfpWait) := by decide +kernel
  obtain ⟨s, hs, hbug⟩ := (Option.any_eq_true _ _).mp hrun
  obtain ⟨pool, events, hcreate, hreach⟩ := reachable_of_createAndRun hs
  exact ⟨pool, events, s, hcreate, hreach, of_decide_eq_true hbug⟩

end Runs

end QMempool
