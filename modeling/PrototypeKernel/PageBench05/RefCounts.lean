import PrototypeKernel.PageBench05.Places
import Mathlib.Data.List.Nodup

/-! # The references of the pages

The pages of `queue1` that no pass has reached are its first ones, with a single reference. When a
CPU has finished its pass there are none of them left, and from then on every page in a ring has the
references of the ring. A pass must not reach a page that the other CPU has moved to `queue1`
already: it would give this page a third reference. -/

namespace PageBench05.Experiment3

variable {Page : Type*} {cfg : Config Page} {s s' : State Page} {c c' : Cpu}
  {r : Ring} {page p : Page} {rest : List Page} {n : ℤ}

/-! ## Where a page and a CPU stand -/

/-- The page was in `queue1` at the start and is not marked. -/
def Fresh (cfg : Config Page) (s : State Page) (p : Page) : Prop :=
  s.priv p ≠ inited ∧ p ∈ cfg.prefill .queue1

/-- The pass is over for the page, and it has `n` references. -/
def Settled (cfg : Config Page) (s : State Page) (p : Page) (n : ℤ) : Prop :=
  ¬ Fresh cfg s p ∧ s.refCnt p = n

/-- No page of `queue1` is fresh. -/
def NoFresh (cfg : Config Page) (s : State Page) : Prop :=
  ∀ p ∈ s.queue .queue1, ¬ Fresh cfg s p

/-- What is true where a CPU stands. -/
def HandOk (cfg : Config Page) (s : State Page) (c : Cpu) : Pc Page → Prop
  | .enter | .passConsume | .refused => True
  | .passTest page => Fresh cfg s page ∧ s.refCnt page = 1 ∨ Settled cfg s page 2 ∧ NoFresh cfg s
  | .passInc page => Settled cfg s page 1
  | .passProduce page => Settled cfg s page 2
  | .moveRef _ page => NoFresh cfg s ∧ Settled cfg s page c.source.refs
  | .moveProduce _ page => NoFresh cfg s ∧ Settled cfg s page c.target.refs
  | .moveConsume _ | .drainConsume _ | .drainDec _ _ | .drainTest _ _ | .returned _ =>
    NoFresh cfg s

/-- Whether a page is fresh depends on its mark. -/
theorem fresh_congr (h : s'.priv p = s.priv p) : Fresh cfg s' p ↔ Fresh cfg s p := by
  rw [Fresh, Fresh, h]

/-- Whether a page is settled depends on its mark and its references. -/
theorem settled_congr (h : s'.refCnt p = s.refCnt p ∧ s'.priv p = s.priv p) :
    Settled cfg s' p n ↔ Settled cfg s p n := by
  rw [Settled, Settled, fresh_congr h.2, h.1]

/-- What is true of a CPU's hand depends on its page. -/
theorem HandOk.congr {pc : Pc Page} (h : HandOk cfg s c pc)
    (hpage : ∀ p ∈ pc.hand, s'.refCnt p = s.refCnt p ∧ s'.priv p = s.priv p)
    (hfresh : NoFresh cfg s → NoFresh cfg s') : HandOk cfg s' c pc := by
  cases pc with
  | enter | passConsume | refused => trivial
  | moveConsume | drainConsume | drainDec | drainTest | returned => exact hfresh h
  | passTest page =>
    have hframe := hpage page List.mem_cons_self
    obtain ⟨hfr, href⟩ | ⟨hset, hno⟩ := h
    · exact .inl ⟨(fresh_congr hframe.2).mpr hfr, hframe.1.trans href⟩
    · exact .inr ⟨(settled_congr hframe).mpr hset, hfresh hno⟩
  | passInc page | passProduce page => exact (settled_congr (hpage page List.mem_cons_self)).mpr h
  | moveRef i page | moveProduce i page =>
    exact ⟨hfresh h.1, (settled_congr (hpage page List.mem_cons_self)).mpr h.2⟩

/-- The CPU that a step moves stands where it was sent. -/
@[simp]
theorem State.goto_pc_self (s : State Page) (c : Cpu) (pc : Pc Page) :
    (s.goto c pc).pc c = pc := Function.update_self ..

/-- The other CPU stands where it was. -/
theorem State.goto_pc_of_ne (h : c' ≠ c) (pc : Pc Page) : (s.goto c pc).pc c' = s.pc c' :=
  Function.update_of_ne h ..

/-! ## What a step keeps -/

/-- A ring keeps some of its pages, and those that are added have its references. -/
def Keeps (cfg : Config Page) (s s' : State Page) (r : Ring) : Prop :=
  ∃ added, (s'.queue r).Sublist (s.queue r ++ added) ∧ ∀ p ∈ added, Settled cfg s' p r.refs

/-- An unchanged ring keeps its pages. -/
theorem keeps_of_eq (h : s'.queue r = s.queue r) : Keeps cfg s s' r :=
  ⟨[], by rw [h, List.append_nil], fun p hp => by cases hp⟩

/-- Taking the first page of a ring adds no page to any ring. -/
theorem keeps_take {pc : Pc Page} (h : s.queue r = page :: rest) (r' : Ring) :
    Keeps cfg s ((s.setQueue r rest).goto c pc) r' := by
  by_cases hr : r' = r
  · subst hr
    refine ⟨[], ?_, fun p hp => by cases hp⟩
    rw [List.append_nil, h]
    show (Function.update s.queue r' rest r').Sublist _
    rw [Function.update_self]
    exact List.sublist_cons_self page rest
  · exact keeps_of_eq (Function.update_of_ne hr _ _)

/-- A settled page is put into its ring. -/
theorem keeps_put {pc : Pc Page} (h : Settled cfg s page r.refs) (r' : Ring) :
    Keeps cfg s ((s.setQueue r (s.queue r ++ [page])).goto c pc) r' := by
  by_cases hr : r' = r
  · subst hr
    refine ⟨[page], ?_, fun p hp => ?_⟩
    · show (Function.update s.queue r' _ r').Sublist _
      rw [Function.update_self]
    · cases List.mem_singleton.mp hp
      exact h
  · exact keeps_of_eq (Function.update_of_ne hr _ _)

/-! ## The invariant -/

variable [DecidableEq Page]

/-- **The invariant**: a page is in one place, and the fresh pages are the first ones of `queue1`.
-/
structure Inv (cfg : Config Page) (s : State Page) : Prop where
  places : ∀ p, s.total p = cfg.pages.count p
  queue : ∀ r, ∀ p ∈ s.queue r,
    Settled cfg s p r.refs ∨ r = .queue1 ∧ Fresh cfg s p ∧ s.refCnt p = 1
  order : (s.queue .queue1).Pairwise fun p q => Fresh cfg s q → Fresh cfg s p
  hands : ∀ c, HandOk cfg s c (s.pc c)

/-- The invariant at the start: every page of `queue1` is fresh. -/
theorem inv_init (cfg : Config Page) : Inv cfg (init cfg) := by
  have hfresh : ∀ p ∈ cfg.prefill .queue1, Fresh cfg (init cfg) p := fun p hp =>
    ⟨Nat.zero_ne_one, hp⟩
  refine ⟨fun p => ?_, fun r p hp => ?_, ?_, fun c => trivial⟩
  · simp [State.total, init, Config.pages, Pc.hand]
  · cases r with
    | queue1 => exact .inr ⟨rfl, hfresh p hp, rfl⟩
    | queue2 => exact .inl ⟨fun h => List.disjoint_of_nodup_append cfg.nodup h.2 hp, rfl⟩
  · exact List.Pairwise.imp_of_mem (fun hp _ _ _ => hfresh _ hp)
      (List.pairwise_of_forall fun _ _ => trivial)

/-! ## A page is in one place -/

/-- No page is in two places. -/
theorem Inv.total_le_one (h : Inv cfg s) (p : Page) : s.total p ≤ 1 := by
  rw [h.places]
  exact List.nodup_iff_count_le_one.mp cfg.nodup p

/-- A page in a ring is in no hand. -/
theorem Inv.not_mem_hand (h : Inv cfg s) (hp : p ∈ s.queue r) (c : Cpu) : p ∉ (s.pc c).hand := by
  intro hhand
  have hle := h.total_le_one p
  have hqueue := List.count_pos_iff.mpr hp
  have hhand := List.count_pos_iff.mpr hhand
  unfold State.total at hle
  cases r <;> cases c <;> omega

/-- The two CPUs have different pages. -/
theorem Inv.not_mem_hand_of_ne (h : Inv cfg s) (hc : c' ≠ c) (hp : p ∈ (s.pc c').hand) :
    p ∉ (s.pc c).hand := by
  intro hhand
  have hle := h.total_le_one p
  have hhand' := List.count_pos_iff.mpr hp
  have hhand := List.count_pos_iff.mpr hhand
  unfold State.total at hle
  cases c <;> cases c' <;> first | exact hc rfl | omega

/-! ## Every step -/

/-- **A step that keeps its rings keeps the invariant**, if where its CPU stands is right. -/
theorem Inv.of_keeps (h : Inv cfg s) (htotal : ∀ p, s'.total p = s.total p)
    (hframe : ∀ p, p ∉ (s.pc c).hand → s'.refCnt p = s.refCnt p ∧ s'.priv p = s.priv p)
    (hpc : ∀ c', c' ≠ c → s'.pc c' = s.pc c') (hqueue : ∀ r, Keeps cfg s s' r)
    (hhand : (NoFresh cfg s → NoFresh cfg s') → HandOk cfg s' c (s'.pc c)) : Inv cfg s' := by
  -- the pages in the rings are not the one of the CPU
  have hring : ∀ r, ∀ p ∈ s.queue r, (Fresh cfg s' p ↔ Fresh cfg s p) ∧
      s'.refCnt p = s.refCnt p := by
    intro r p hp
    obtain ⟨href, hpriv⟩ := hframe p (h.not_mem_hand hp c)
    exact ⟨by rw [Fresh, Fresh, hpriv], href⟩
  have hfresh : NoFresh cfg s → NoFresh cfg s' := by
    intro hno p hp
    obtain ⟨added, hsub, hadded⟩ := hqueue .queue1
    rcases List.mem_append.mp (hsub.subset hp) with hp | hp
    · rw [(hring _ p hp).1]
      exact hno p hp
    · exact (hadded p hp).1
  refine ⟨fun p => (htotal p).trans (h.places p), fun r p hp => ?_, ?_, fun c' => ?_⟩
  · obtain ⟨added, hsub, hadded⟩ := hqueue r
    rcases List.mem_append.mp (hsub.subset hp) with hp | hp
    · obtain ⟨hiff, href⟩ := hring r p hp
      rw [Settled, hiff, href]
      exact h.queue r p hp
    · exact .inl (hadded p hp)
  · obtain ⟨added, hsub, hadded⟩ := hqueue .queue1
    refine List.Pairwise.sublist hsub (List.pairwise_append.mpr ⟨?_, ?_, fun p _ q hq hfq =>
      absurd hfq (hadded q hq).1⟩)
    · refine h.order.imp_of_mem fun hp hq hpq => ?_
      rw [(hring _ _ hp).1, (hring _ _ hq).1]
      exact hpq
    · exact List.Pairwise.imp_of_mem (fun _ hq _ hfq => absurd hfq (hadded _ hq).1)
        (List.pairwise_of_forall fun _ _ => trivial)
  · by_cases hc : c' = c
    · rw [hc]
      exact hhand hfresh
    · rw [hpc c' hc]
      exact (h.hands c').congr (fun p hp => hframe p (h.not_mem_hand_of_ne hc hp)) hfresh

/-- `page_ref_add` changes the references of its page. -/
theorem State.addRef_refCnt_self (s : State Page) (page : Page) (n : ℤ) :
    (s.addRef page n).refCnt page = s.refCnt page + n := Function.update_self ..

/-- A change of the reference count of the page in the hand. -/
theorem Inv.addRef (h : Inv cfg s) {pc : Pc Page}
    (htotal : ∀ p, ((s.addRef page n).goto c pc).total p = s.total p)
    (hhand : (s.pc c).hand = [page])
    (hpc : (NoFresh cfg s → NoFresh cfg ((s.addRef page n).goto c pc)) →
      HandOk cfg ((s.addRef page n).goto c pc) c pc) : Inv cfg ((s.addRef page n).goto c pc) := by
  refine h.of_keeps htotal (fun p hp => ⟨?_, rfl⟩) (fun c' hc => State.goto_pc_of_ne hc pc)
    (fun r => keeps_of_eq rfl) ?_
  · rw [hhand, List.mem_singleton] at hp
    exact Function.update_of_ne hp ..
  · rw [State.goto_pc_self]
    exact hpc

/-- A step that goes on with the same rings and pages. -/
theorem Inv.goto (h : Inv cfg s) (s' : State Page) {pc : Pc Page} (hqueue : s'.queue = s.queue)
    (href : s'.refCnt = s.refCnt) (hpriv : s'.priv = s.priv) (hpcs : s'.pc = s.pc)
    (htotal : ∀ p, (s'.goto c pc).total p = s.total p)
    (hpc : (NoFresh cfg s → NoFresh cfg (s'.goto c pc)) → HandOk cfg (s'.goto c pc) c pc) :
    Inv cfg (s'.goto c pc) := by
  refine h.of_keeps (c := c) htotal (fun p _ => ⟨congrFun href p, congrFun hpriv p⟩)
    (fun c' hc => ?_) (fun r => keeps_of_eq (congrFun hqueue r)) ?_
  · rw [State.goto_pc_of_ne hc, hpcs]
  · rw [State.goto_pc_self]
    exact hpc

/-- A page is taken out of a ring. -/
theorem Inv.take (h : Inv cfg s) {pc : Pc Page} (hqueue : s.queue r = page :: rest)
    (htotal : ∀ p, ((s.setQueue r rest).goto c pc).total p = s.total p)
    (hpc : (NoFresh cfg s → NoFresh cfg ((s.setQueue r rest).goto c pc)) →
      HandOk cfg ((s.setQueue r rest).goto c pc) c pc) :
    Inv cfg ((s.setQueue r rest).goto c pc) := by
  refine h.of_keeps (c := c) htotal (fun p _ => ⟨rfl, rfl⟩)
    (fun c' hc => State.goto_pc_of_ne hc pc) (keeps_take hqueue) ?_
  rw [State.goto_pc_self]
  exact hpc

/-- A page with the references of a ring is put into it. -/
theorem Inv.put (h : Inv cfg s) {pc : Pc Page} (hset : Settled cfg s page r.refs)
    (htotal : ∀ p, ((s.setQueue r (s.queue r ++ [page])).goto c pc).total p = s.total p)
    (hpc : (NoFresh cfg s → NoFresh cfg ((s.setQueue r (s.queue r ++ [page])).goto c pc)) →
      HandOk cfg ((s.setQueue r (s.queue r ++ [page])).goto c pc) c pc) :
    Inv cfg ((s.setQueue r (s.queue r ++ [page])).goto c pc) := by
  refine h.of_keeps (c := c) htotal (fun p _ => ⟨rfl, rfl⟩)
    (fun c' hc => State.goto_pc_of_ne hc pc) (keeps_put hset) ?_
  rw [State.goto_pc_self]
  exact hpc

/-- Behind a page that is not fresh there is no fresh one. -/
theorem Inv.noFresh_tail (h : Inv cfg s) {pc : Pc Page}
    (hqueue : s.queue .queue1 = page :: rest) (hpage : ¬ Fresh cfg s page) :
    NoFresh cfg ((s.setQueue .queue1 rest).goto c pc) := by
  intro p hp hfresh
  have horder := h.order
  rw [hqueue, List.pairwise_cons] at horder
  have hp : p ∈ Function.update s.queue .queue1 rest .queue1 := hp
  rw [Function.update_self] at hp
  exact hpage (horder.1 p hp hfresh)

/-- The measuring loop gives a page the references of the other ring. -/
theorem refs_source_add (c : Cpu) : c.source.refs + c.refChange = c.target.refs := by
  cases c <;> rfl

/-- The page that a pass is about to test. -/
def Pc.tested : Pc Page → Option Page
  | .passTest page => some page
  | _ => none

/-- A pass tests a page that is marked or that was in `queue1` at the start: not one that the other
CPU has moved there. -/
def TestsOwn (cfg : Config Page) (s : State Page) (c : Cpu) : Prop :=
  ∀ page ∈ (s.pc c).tested, s.priv page = inited ∨ page ∈ cfg.prefill .queue1

instance (cfg : Config Page) (s : State Page) (c : Cpu) : Decidable (TestsOwn cfg s c) :=
  inferInstanceAs (Decidable (∀ _ ∈ _, _))

/-- **Every step keeps the invariant**, but for a pass that reaches a page of the other CPU. -/
theorem Inv.step (h : Inv cfg s) (hok : TestsOwn cfg s c) (hs : step cfg s c = some s') :
    Inv cfg s' := by
  have htotal := total_step hs
  have hhand := h.hands c
  cases move_of_step hs with
  | refuse hpc _ => exact h.goto _ rfl rfl rfl rfl htotal fun _ => trivial
  | start hpc _ => exact h.goto _ rfl rfl rfl rfl htotal fun _ => trivial
  | passEmpty hpc hqueue =>
    refine h.goto _ rfl rfl rfl rfl htotal fun _ p hp => ?_
    have hp : p ∈ s.queue .queue1 := hp
    rw [hqueue] at hp
    cases hp
  | @passTake page rest hpc hqueue =>
    refine h.take hqueue htotal fun _ => ?_
    obtain hset | ⟨-, hfresh, href⟩ := h.queue .queue1 page (hqueue ▸ List.mem_cons_self)
    · exact .inr ⟨hset, h.noFresh_tail hqueue hset.1⟩
    · exact .inl ⟨hfresh, href⟩
  | @passEnd page hpc hmarked =>
    rw [hpc] at hhand
    obtain ⟨hfresh, -⟩ | ⟨-, hno⟩ := hhand
    · exact absurd hmarked hfresh.1
    · exact h.goto (s.drop page) rfl rfl rfl rfl htotal fun _ => hno
  | @passMark page hpc hmarked =>
    have hown := (hok page (by rw [hpc]; rfl)).resolve_left hmarked
    rw [hpc] at hhand
    obtain ⟨-, href⟩ | ⟨hset, -⟩ := hhand
    · refine h.of_keeps htotal (fun p hp => ⟨rfl, ?_⟩) (fun c' hc => State.goto_pc_of_ne hc _)
        (fun r => keeps_of_eq rfl) fun _ => ?_
      · rw [hpc, Pc.hand, List.mem_singleton] at hp
        exact Function.update_of_ne hp ..
      · rw [State.goto_pc_self]
        exact ⟨fun hfresh => hfresh.1 (Function.update_self ..), href⟩
    · exact absurd ⟨hmarked, hown⟩ hset.1
  | @passInc page hpc =>
    rw [hpc] at hhand
    refine h.addRef htotal (by rw [hpc]; rfl) fun _ => ⟨hhand.1, ?_⟩
    show (s.addRef page 1).refCnt page = 2
    rw [State.addRef_refCnt_self, hhand.2]
    rfl
  | @passPut page hpc hroom =>
    rw [hpc] at hhand
    exact h.put hhand htotal fun _ => trivial
  | @passFull page hpc _ => exact h.goto (s.drop page) rfl rfl rfl rfl htotal fun _ => trivial
  | @moveTake i page rest hpc _ hqueue =>
    rw [hpc] at hhand
    have hmem : page ∈ s.queue c.source := hqueue ▸ List.mem_cons_self
    refine h.take hqueue htotal fun hfresh => ?_
    obtain hset | ⟨hsource, hfr, -⟩ := h.queue c.source page hmem
    · exact ⟨hfresh hhand, hset⟩
    · exact absurd hfr (hhand page (hsource ▸ hmem))
  | moveEmpty hpc _ _ =>
    rw [hpc] at hhand
    exact h.goto (s.print _) rfl rfl rfl rfl htotal fun hfresh => hfresh hhand
  | moveDone hpc _ =>
    rw [hpc] at hhand
    exact h.goto _ rfl rfl rfl rfl htotal fun hfresh => hfresh hhand
  | @moveRef i page hpc =>
    rw [hpc] at hhand
    refine h.addRef htotal (by rw [hpc]; rfl) fun hfresh => ⟨hfresh hhand.1, hhand.2.1, ?_⟩
    show (s.addRef page c.refChange).refCnt page = c.target.refs
    rw [State.addRef_refCnt_self, hhand.2.2, refs_source_add]
  | @movePut i page hpc hroom =>
    rw [hpc] at hhand
    exact h.put hhand.2 htotal fun hfresh => hfresh hhand.1
  | @moveFull i page hpc _ =>
    rw [hpc] at hhand
    exact h.goto ((s.print _).drop page) rfl rfl rfl rfl htotal fun hfresh => hfresh hhand.1
  | @drainTake cnt page rest hpc hqueue =>
    rw [hpc] at hhand
    exact h.take hqueue htotal fun hfresh => hfresh hhand
  | drainEmpty hpc _ =>
    rw [hpc] at hhand
    exact h.goto _ rfl rfl rfl rfl htotal fun hfresh => hfresh hhand
  | drainDec hpc =>
    rw [hpc] at hhand
    refine h.addRef htotal (by rw [hpc]; rfl) fun hfresh => ?_
    exact hfresh hhand
  | @drainTest cnt page lines hpc =>
    rw [hpc] at hhand
    refine h.goto ({ s with lines }.drop page) rfl rfl rfl rfl htotal fun hfresh => ?_
    exact hfresh hhand

/-- A CPU that has finished its pass leaves no fresh page. -/
theorem Inv.noFresh (h : Inv cfg s) (hpassed : (s.pc c).passed) : NoFresh cfg s := by
  have hhand := h.hands c
  cases hpc : s.pc c <;> rw [hpc] at hhand hpassed
  case moveConsume | drainConsume | drainDec | drainTest | returned => exact hhand
  case moveRef | moveProduce => exact hhand.1
  all_goals cases hpassed

/-- **The references are right as soon as one CPU has finished its pass.** -/
theorem Inv.refCounts (h : Inv cfg s) (hpassed : (s.pc c).passed) : RefCounts s := by
  intro r p hp
  obtain hset | ⟨rfl, hfresh, -⟩ := h.queue r p hp
  · exact hset.2
  · exact absurd hfresh (h.noFresh hpassed p hp)

end PageBench05.Experiment3
