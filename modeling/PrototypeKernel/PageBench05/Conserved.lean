import PrototypeKernel.PageBench05.RefCounts

/-! # What is left of the pages

When both CPUs have returned, the pages that no step has dropped are in the rings, and
`ptr_ring_cleanup()` frees those with a single reference. -/

namespace PageBench05.Experiment3

open TransitionSystem

variable {Page : Type*} {cfg : Config Page} {s s' : State Page} {c : Cpu}

/-! ## The end of a benchmark -/

/-- Both CPUs have returned. -/
def Finished (s : State Page) : Prop := ∀ c, (s.pc c).done

/-- A CPU that has returned holds no page. -/
theorem Pc.hand_of_done {pc : Pc Page} (h : pc.done) : pc.hand = [] := by
  cases pc <;> first | rfl | cases h

/-- A CPU that has returned has finished its pass, unless it was refused. -/
theorem Pc.passed_of_done {pc : Pc Page} (h : pc.done) (hnot : pc ≠ .refused) : pc.passed := by
  cases pc with
  | refused => exact absurd rfl hnot
  | returned => rfl
  | enter | passConsume | passTest | passInc | passProduce | moveConsume | moveRef | moveProduce
  | drainConsume | drainDec | drainTest => cases h

/-- How a benchmark ends: it is refused with its pages as they were, or `queue1` is empty. -/
structure Ends (cfg : Config Page) (s : State Page) : Prop where
  big : cfg.TooBig → s.queue = cfg.prefill ∧ s.refCnt = (fun _ => 1) ∧
    ∀ c, s.pc c = .enter ∨ s.pc c = .refused
  small : ¬ cfg.TooBig → ∀ c, s.pc c ≠ .refused
  empty : ¬ cfg.TooBig → Finished s → s.queue .queue1 = []

/-- At the start no CPU has been refused and none has returned. -/
theorem ends_init (cfg : Config Page) : Ends cfg (init cfg) where
  big _ := ⟨rfl, rfl, fun _ => .inl rfl⟩
  small _ _ h := by cases h
  empty _ hfin := by cases hfin .enq

/-- A step that goes on from the pass or from the measuring loop. -/
theorem Ends.goto (h : Ends cfg s) (hbig : ¬ cfg.TooBig) {pc : Pc Page} (hpcs : s'.pc = s.pc)
    (hnot : pc ≠ .refused) (hdone : pc.done → s'.queue .queue1 = []) : Ends cfg (s'.goto c pc) where
  big hbig' := absurd hbig' hbig
  small _ c' hpc := by
    by_cases hc : c' = c
    · rw [hc, State.goto_pc_self] at hpc
      exact hnot hpc
    · rw [State.goto_pc_of_ne hc, hpcs] at hpc
      exact h.small hbig c' hpc
  empty _ hfin := by
    have hself := hfin c
    rw [State.goto_pc_self] at hself
    exact hdone hself

variable [DecidableEq Page]

/-- Every step keeps how a benchmark can end. -/
theorem Ends.step (h : Ends cfg s) (hs : step cfg s c = some s') : Ends cfg s' := by
  by_cases hbig : cfg.TooBig
  · obtain ⟨hqueue, hrefs, hpcs⟩ := h.big hbig
    have hother : ∀ {pc : Pc Page}, s.pc c = pc → pc ≠ .enter → pc ≠ .refused → False := by
      intro pc hpc henter hrefused
      rcases hpcs c with hc | hc
      · exact henter (hpc ▸ hc)
      · exact hrefused (hpc ▸ hc)
    cases move_of_step hs with
    | refuse hpc _ =>
      refine ⟨fun _ => ⟨hqueue, hrefs, fun c' => ?_⟩, absurd hbig, absurd hbig⟩
      by_cases hc : c' = c
      · rw [hc, State.goto_pc_self]
        exact .inr rfl
      · rw [State.goto_pc_of_ne hc]
        exact hpcs c'
    | start _ hsmall => exact absurd hbig hsmall
    | passEmpty hpc | passTake hpc | passEnd hpc | passMark hpc | passInc hpc | passPut hpc
    | passFull hpc | moveTake hpc | moveEmpty hpc | moveDone hpc | moveRef hpc | movePut hpc
    | moveFull hpc | drainTake hpc | drainEmpty hpc | drainDec hpc | drainTest _ hpc =>
      exact (hother hpc (fun h => by cases h) fun h => by cases h).elim
  · cases move_of_step hs with
    | refuse _ hbig' => exact absurd hbig' hbig
    | drainEmpty hpc hqueue => exact h.goto hbig rfl (fun h => by cases h) fun _ => hqueue
    | start | passEmpty | passTake | passEnd | passMark | passInc | passPut | passFull | moveTake
    | moveEmpty | moveDone | moveRef | movePut | moveFull | drainTake | drainDec | drainTest =>
      exact h.goto hbig rfl (fun h => by cases h) fun h => by cases h

/-! ## The pages that are dropped -/

/-- **The branches that drop no page**: a pass does not end with a page, a ring that is produced to
has room, and `queue1` is empty when it is drained. -/
def KeepsPagesAt (cfg : Config Page) (s : State Page) (c : Cpu) : Pc Page → Prop
  | .passTest page => s.priv page ≠ inited
  | .passProduce _ => (s.queue .queue1).length < cfg.qSize
  | .moveProduce _ _ => (s.queue c.target).length < cfg.qSize
  | .drainConsume _ => s.queue .queue1 = []
  | .drainTest _ _ => False
  | .enter | .passConsume | .passInc _ | .moveConsume _ | .moveRef _ _ | .drainDec _ _ | .refused
  | .returned _ => True

/-- The step of `c` drops no page. -/
def KeepsPages (cfg : Config Page) (s : State Page) (c : Cpu) : Prop :=
  KeepsPagesAt cfg s c (s.pc c)

instance (cfg : Config Page) (s : State Page) (c : Cpu) :
    (pc : Pc Page) → Decidable (KeepsPagesAt cfg s c pc)
  | .passTest _ => inferInstanceAs (Decidable (_ ≠ _))
  | .passProduce _ => inferInstanceAs (Decidable (_ < _))
  | .moveProduce _ _ => inferInstanceAs (Decidable (_ < _))
  | .drainConsume _ => inferInstanceAs (Decidable (_ = _))
  | .drainTest _ _ => inferInstanceAs (Decidable False)
  | .enter | .passConsume | .passInc _ | .moveConsume _ | .moveRef _ _ | .drainDec _ _ | .refused
  | .returned _ => inferInstanceAs (Decidable True)

instance (cfg : Config Page) (s : State Page) (c : Cpu) : Decidable (KeepsPages cfg s c) :=
  inferInstanceAs (Decidable (KeepsPagesAt cfg s c (s.pc c)))

/-- A step in such a branch drops no page. -/
theorem dropped_of_keepsPages (hok : KeepsPages cfg s c) (hs : step cfg s c = some s') :
    s'.dropped = s.dropped := by
  unfold KeepsPages at hok
  cases move_of_step hs with
  | passEnd hpc hmarked =>
    rw [hpc] at hok
    exact absurd hmarked hok
  | passFull hpc hfull =>
    rw [hpc] at hok
    exact absurd hok (Nat.not_lt.mpr hfull)
  | moveFull hpc hfull =>
    rw [hpc] at hok
    exact absurd hok (Nat.not_lt.mpr hfull)
  | drainTest lines hpc =>
    rw [hpc] at hok
    exact hok.elim
  | refuse | start | passEmpty | passTake | passMark | passInc | passPut | moveTake | moveEmpty
  | moveDone | moveRef | movePut | drainTake | drainEmpty | drainDec => rfl

/-- The places of the pages, in every run. -/
theorem total_eq_of_reachable {ok : State Page → Cpu → Prop}
    (h : Reachable (step cfg) ok (init cfg) s) (p : Page) : s.total p = cfg.pages.count p :=
  h.invariant ((inv_init cfg).places p) fun _ _ _ hs _ hstep => (total_step hstep p).trans hs

/-- When both CPUs have returned, a page is in a ring or dropped. -/
theorem perm_pages_of_finished {ok : State Page → Cpu → Prop}
    (h : Reachable (step cfg) ok (init cfg) s) (hfin : Finished s) :
    (s.queue .queue1 ++ s.queue .queue2 ++ s.dropped).Perm cfg.pages := by
  refine List.perm_iff_count.mpr fun p => ?_
  rw [← total_eq_of_reachable h p, State.total, Pc.hand_of_done (hfin .enq),
    Pc.hand_of_done (hfin .deq)]
  simp [List.count_append, Nat.add_assoc]

/-- **A run loses no page if and only if it drops none.** -/
theorem inRings_iff {ok : State Page → Cpu → Prop} (h : Reachable (step cfg) ok (init cfg) s)
    (hfin : Finished s) : InRings cfg s ↔ s.dropped = [] := by
  have hperm := perm_pages_of_finished h hfin
  constructor
  · intro hrings
    have hlen := hperm.length_eq
    have hlen' := hrings.length_eq
    rw [List.length_append] at hlen
    exact List.length_eq_zero_iff.mp (by omega)
  · intro hdropped
    rwa [hdropped, List.append_nil] at hperm

/-- In a run whose steps drop no page, none is dropped. -/
theorem dropped_eq_nil_of_reachable (h : Reachable (step cfg) (KeepsPages cfg) (init cfg) s) :
    s.dropped = [] :=
  h.invariant (P := fun s => s.dropped = []) rfl fun _ _ _ hs hok hstep =>
    (dropped_of_keepsPages hok hstep).trans hs

/-! ## The pages that are freed -/

/-- `ptr_ring_cleanup()` frees a page at most once, and all of those with a single reference. -/
theorem released_destructorPutPage (xs : List Page) (s : Cleanup Page) (hnodup : xs.Nodup) :
    ∃ freed, (xs.foldl destructorPutPage s).released = s.released ++ freed ∧ freed.Sublist xs ∧
      ((∀ p ∈ xs, s.refCnt p = 1) → freed = xs) := by
  induction xs generalizing s with
  | nil => exact ⟨[], (List.append_nil _).symm, List.Sublist.slnil, fun _ => rfl⟩
  | cons x xs ih =>
    obtain ⟨hx, hxs⟩ := List.nodup_cons.mp hnodup
    obtain ⟨freed, hfreed, hsub, hall⟩ := ih (destructorPutPage s x) hxs
    have hrefs : ∀ p ∈ xs, (destructorPutPage s x).refCnt p = s.refCnt p := by
      intro p hp
      have hne : p ≠ x := fun heq => hx (heq ▸ hp)
      unfold destructorPutPage
      dsimp only
      split <;> exact Function.update_of_ne hne ..
    rw [List.foldl_cons, hfreed]
    by_cases hone : s.refCnt x = 1
    · have hput : (destructorPutPage s x).released = s.released ++ [x] := by
        unfold destructorPutPage
        dsimp only
        rw [Function.update_self, if_pos (by rw [hone]; rfl)]
      refine ⟨x :: freed, by rw [hput, List.append_assoc]; rfl, hsub.cons_cons x, fun h => ?_⟩
      rw [hall fun p hp => (hrefs p hp).trans (h p (List.mem_cons_of_mem x hp))]
    · have hput : (destructorPutPage s x).released = s.released := by
        unfold destructorPutPage
        dsimp only
        rw [Function.update_self, if_neg (by omega)]
      exact ⟨freed, by rw [hput], hsub.cons x, fun h => absurd (h x List.mem_cons_self) hone⟩

/-- No page is freed twice. -/
theorem nodup_released {ok : State Page → Cpu → Prop} (h : Reachable (step cfg) ok (init cfg) s) :
    (cleanup s).released.Nodup := by
  have hnodup : (s.queue .queue1 ++ s.queue .queue2).Nodup := by
    refine List.nodup_iff_count_le_one.mpr fun p => ?_
    have hle := List.nodup_iff_count_le_one.mp cfg.nodup p
    have htotal := total_eq_of_reachable h p
    rw [State.total, Config.pages] at htotal
    rw [List.count_append]
    omega
  obtain ⟨freed, hfreed, hsub, -⟩ := released_destructorPutPage _ ⟨s.refCnt, [], []⟩ hnodup
  rw [cleanup, hfreed, List.nil_append]
  exact hsub.nodup hnodup

/-- The pages of a finished benchmark have a single reference, if the references are right. -/
theorem refCnt_of_finished (hinv : Inv cfg s) (hends : Ends cfg s) (hfin : Finished s) :
    ∀ p ∈ s.queue .queue1 ++ s.queue .queue2, s.refCnt p = 1 := by
  intro p hp
  by_cases hbig : cfg.TooBig
  · rw [(hends.big hbig).2.1]
  · have hpassed := Pc.passed_of_done (hfin .enq) (hends.small hbig .enq)
    rw [hends.empty hbig hfin, List.nil_append] at hp
    exact hinv.refCounts hpassed .queue2 p hp

/-! ## The main result -/

/-- **What a benchmark keeps.** In a run in which no pass tests a page that the other CPU has moved,
the references are right once both passes are over. A run in which no step drops a page loses none,
and no page is freed twice. In a run with both of these, the cleanup frees every page. -/
theorem experiment3_keeps (cfg : Config Page) :
    (∀ s, Reachable (step cfg) (TestsOwn cfg) (init cfg) s → (∀ c, (s.pc c).passed) →
      RefCounts s) ∧
    (∀ s, Reachable (step cfg) (KeepsPages cfg) (init cfg) s → Finished s →
      InRings cfg s ∧ (cleanup s).released.Nodup) ∧
    ∀ s, Reachable (step cfg) (fun s c => TestsOwn cfg s c ∧ KeepsPages cfg s c) (init cfg) s →
      Finished s → (cleanup s).released.Perm cfg.pages := by
  refine ⟨fun s hreach hpassed => ?_, fun s hreach hfin => ?_, fun s hreach hfin => ?_⟩
  · have hinv : Inv cfg s := hreach.invariant (inv_init cfg) fun _ _ _ h hok hs => h.step hok hs
    exact hinv.refCounts (hpassed .enq)
  · exact ⟨(inRings_iff hreach hfin).mpr (dropped_eq_nil_of_reachable hreach),
      nodup_released hreach⟩
  · have hinv : Inv cfg s := hreach.invariant (inv_init cfg) fun _ _ _ h hok hs => h.step hok.1 hs
    have hends : Ends cfg s := hreach.invariant (ends_init cfg) fun _ _ _ h _ hs => h.step hs
    have hdropped : s.dropped = [] := hreach.invariant (P := fun s => s.dropped = []) rfl
      fun _ _ _ hs hok hstep => (dropped_of_keepsPages hok.2 hstep).trans hs
    have hperm : (s.queue .queue1 ++ s.queue .queue2).Perm cfg.pages :=
      (inRings_iff hreach hfin).mpr hdropped
    obtain ⟨freed, hfreed, -, hall⟩ := released_destructorPutPage _ ⟨s.refCnt, [], []⟩
      (hperm.nodup_iff.mpr cfg.nodup)
    rw [cleanup, hfreed, List.nil_append, hall (refCnt_of_finished hinv hends hfin)]
    exact hperm

/-- Two loops over a ring with the page 0 and one with the page 1. -/
def onePage : Config ℕ where
  prefill
    | .queue1 => [0]
    | .queue2 => [1]
  qSize := 2
  loops := 2
  nodup := by decide
  fits r := by cases r <;> decide

/-- A schedule in which each pass ends at an empty ring, and so does each drain. -/
def keepingSchedule : List Cpu :=
  [.enq, .enq, .deq, .deq, .enq, .enq, .enq, .deq, .enq, .deq, .enq, .enq, .enq, .enq, .deq, .deq,
    .enq, .deq, .deq, .deq, .deq]

/-- A run that drops nothing: both pages are moved through the rings and freed. -/
theorem experiment3_keeps_onePage :
    ∃ s, Reachable (step onePage) (fun s c => TestsOwn onePage s c ∧ KeepsPages onePage s c)
        (init onePage) s ∧ Finished s ∧ (cleanup s).released.Perm [0, 1] := by
  have hrun : (runOk (step onePage) (fun s c => TestsOwn onePage s c ∧ KeepsPages onePage s c)
      (init onePage) keepingSchedule).map (fun s => (s.pc .enq, s.pc .deq)) =
      some (.returned 1, .returned 2) := by decide
  obtain ⟨s, hs, hpc⟩ := Option.map_eq_some_iff.mp hrun
  obtain ⟨henq, hdeq⟩ := Prod.mk.inj hpc
  have hfin : Finished s := by
    rintro (_ | _)
    · rw [henq]
      rfl
    · rw [hdeq]
      rfl
  have hreach := reachable_of_runOk hs
  exact ⟨s, hreach, hfin, (experiment3_keeps onePage).2.2 s hreach hfin⟩

/-- Two loops over rings of two pages. -/
def twoPages : Config ℕ where
  prefill
    | .queue1 => [0, 1]
    | .queue2 => [2, 3]
  qSize := 4
  loops := 2
  nodup := by decide
  fits r := by cases r <;> decide

/-- The enqueuing CPU runs up to its drain, then the other one makes its pass. -/
def lateSchedule : List Cpu := List.replicate 19 .enq ++ List.replicate 11 .deq

/-- **Pages are lost, and get a third reference.** The enqueuing CPU drops the page at which its
pass ends and those that it drains; the late pass takes two pages that were moved for new ones. -/
theorem not_experiment3_keeps :
    (∃ s, Reachable (step twoPages) (fun _ _ => True) (init twoPages) s ∧
      (∀ c, (s.pc c).passed) ∧ ¬ RefCounts s) ∧
    ∃ s, Reachable (step twoPages) (fun _ _ => True) (init twoPages) s ∧ Finished s ∧
      ¬ InRings twoPages s := by
  constructor
  · have hrun : (runOk (step twoPages) (fun _ _ => True) (init twoPages) lateSchedule).map
        (fun s => ((s.pc .enq).passed, (s.pc .deq).passed, s.queue .queue1, s.refCnt 3)) =
        some (true, true, [3], 3) := by decide
    obtain ⟨s, hs, heq⟩ := Option.map_eq_some_iff.mp hrun
    simp only [Prod.mk.injEq] at heq
    obtain ⟨henq, hdeq, hqueue, href⟩ := heq
    refine ⟨s, reachable_of_runOk hs, fun c => by cases c <;> assumption, fun hrefs => ?_⟩
    have h := hrefs .queue1 3 (by rw [hqueue]; exact List.mem_singleton_self 3)
    rw [href] at h
    exact absurd h (by decide)
  · have hrun : (runOk (step twoPages) (fun _ _ => True) (init twoPages)
        (lateSchedule ++ List.replicate 6 .enq ++ List.replicate 2 .deq)).map
        (fun s => ((s.pc .enq).done, (s.pc .deq).done, s.queue .queue1, s.queue .queue2)) =
        some (true, true, [], []) := by decide
    obtain ⟨s, hs, heq⟩ := Option.map_eq_some_iff.mp hrun
    simp only [Prod.mk.injEq] at heq
    obtain ⟨henq, hdeq, hqueue1, hqueue2⟩ := heq
    refine ⟨s, reachable_of_runOk hs, fun c => by cases c <;> assumption, fun hrings => ?_⟩
    rw [InRings, hqueue1, hqueue2] at hrings
    exact absurd hrings.length_eq (by decide)

end PageBench05.Experiment3
