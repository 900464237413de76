import PrototypeKernel.PageBench05.Experiment3
import Mathlib.Data.List.Perm.Basic

/-! # Where the pages are

A page is in a ring, in the hand of a CPU, or dropped. Each step keeps the number of these places.
-/

namespace PageBench05.Experiment3

variable {Page : Type*} {cfg : Config Page} {s s' empty full : State Page} {c c' : Cpu} {r : Ring}
  {page p : Page} {rest : List Page} {found : Page → Pc Page} {done : Pc Page}

/-! ## What a call of a ring does -/

/-- Nothing is consumed from an empty ring. -/
theorem State.consume_nil (h : s.queue r = []) : s.consume c r found empty = empty := by
  rw [State.consume, h]
  rfl

/-- The first page of a ring is consumed. -/
theorem State.consume_cons (h : s.queue r = page :: rest) :
    s.consume c r found empty = (s.setQueue r rest).goto c (found page) := by
  rw [State.consume, h]
  rfl

/-- A page is produced to a ring with room. -/
theorem State.produce_of_lt (h : (s.queue r).length < cfg.qSize) :
    s.produce cfg c r page done full = (s.setQueue r (s.queue r ++ [page])).goto c done := by
  rw [State.produce, PtrRing.fifo, if_pos h]
  rfl

/-- A full ring refuses a page. -/
theorem State.produce_of_le (h : cfg.qSize ≤ (s.queue r).length) :
    s.produce cfg c r page done full = full := by
  rw [State.produce, PtrRing.fifo, if_neg (Nat.not_lt.mpr h)]
  rfl

/-- The two outcomes of a consume. -/
theorem State.consume_cases (s : State Page) (c : Cpu) (r : Ring) (found : Page → Pc Page)
    (empty : State Page) :
    s.queue r = [] ∧ s.consume c r found empty = empty ∨
      ∃ page rest, s.queue r = page :: rest ∧
        s.consume c r found empty = (s.setQueue r rest).goto c (found page) := by
  cases h : s.queue r with
  | nil => exact .inl ⟨rfl, State.consume_nil h⟩
  | cons page rest => exact .inr ⟨page, rest, rfl, State.consume_cons h⟩

/-- The two outcomes of a produce. -/
theorem State.produce_cases (cfg : Config Page) (s : State Page) (c : Cpu) (r : Ring) (page : Page)
    (done : Pc Page) (full : State Page) :
    (s.queue r).length < cfg.qSize ∧ s.produce cfg c r page done full =
        (s.setQueue r (s.queue r ++ [page])).goto c done ∨
      cfg.qSize ≤ (s.queue r).length ∧ s.produce cfg c r page done full = full := by
  rcases Nat.lt_or_ge (s.queue r).length cfg.qSize with h | h
  · exact .inl ⟨h, State.produce_of_lt h⟩
  · exact .inr ⟨h, State.produce_of_le h⟩

/-! ## What a step can do -/

/-- **The steps of a CPU**, each with the branch that it takes. -/
inductive Move [DecidableEq Page] (cfg : Config Page) (s : State Page) (c : Cpu) :
    State Page → Prop
  | refuse (hpc : s.pc c = .enter) (hbig : cfg.TooBig) :
      Move cfg s c ((s.print .loopCntTooBig).goto c .refused)
  | start (hpc : s.pc c = .enter) (hbig : ¬ cfg.TooBig) : Move cfg s c (s.goto c .passConsume)
  | passEmpty (hpc : s.pc c = .passConsume) (hqueue : s.queue .queue1 = []) :
      Move cfg s c (s.goto c (.moveConsume 0))
  | passTake {page : Page} {rest : List Page} (hpc : s.pc c = .passConsume)
      (hqueue : s.queue .queue1 = page :: rest) :
      Move cfg s c ((s.setQueue .queue1 rest).goto c (.passTest page))
  | passEnd {page : Page} (hpc : s.pc c = .passTest page) (hmarked : s.priv page = inited) :
      Move cfg s c ((s.drop page).goto c (.moveConsume 0))
  | passMark {page : Page} (hpc : s.pc c = .passTest page) (hmarked : s.priv page ≠ inited) :
      Move cfg s c ((s.setPrivate page inited).goto c (.passInc page))
  | passInc {page : Page} (hpc : s.pc c = .passInc page) :
      Move cfg s c ((s.addRef page 1).goto c (.passProduce page))
  | passPut {page : Page} (hpc : s.pc c = .passProduce page)
      (hroom : (s.queue .queue1).length < cfg.qSize) :
      Move cfg s c ((s.setQueue .queue1 (s.queue .queue1 ++ [page])).goto c .passConsume)
  | passFull {page : Page} (hpc : s.pc c = .passProduce page)
      (hfull : cfg.qSize ≤ (s.queue .queue1).length) :
      Move cfg s c ((s.drop page).goto c .passConsume)
  | moveTake {i : ℕ} {page : Page} {rest : List Page} (hpc : s.pc c = .moveConsume i)
      (hi : i < cfg.loops.toNat) (hqueue : s.queue c.source = page :: rest) :
      Move cfg s c ((s.setQueue c.source rest).goto c (.moveRef i page))
  | moveEmpty {i : ℕ} (hpc : s.pc c = .moveConsume i) (hi : i < cfg.loops.toNat)
      (hqueue : s.queue c.source = []) :
      Move cfg s c ((s.print (.deqEmptyq c i)).goto c (.drainConsume i))
  | moveDone {i : ℕ} (hpc : s.pc c = .moveConsume i) (hi : ¬ i < cfg.loops.toNat) :
      Move cfg s c (s.goto c (.drainConsume i))
  | moveRef {i : ℕ} {page : Page} (hpc : s.pc c = .moveRef i page) :
      Move cfg s c ((s.addRef page c.refChange).goto c (.moveProduce i page))
  | movePut {i : ℕ} {page : Page} (hpc : s.pc c = .moveProduce i page)
      (hroom : (s.queue c.target).length < cfg.qSize) :
      Move cfg s c
        ((s.setQueue c.target (s.queue c.target ++ [page])).goto c (.moveConsume (i + 1)))
  | moveFull {i : ℕ} {page : Page} (hpc : s.pc c = .moveProduce i page)
      (hfull : cfg.qSize ≤ (s.queue c.target).length) :
      Move cfg s c (((s.print (.enq1Fullq c i)).drop page).goto c (.drainConsume i))
  | drainTake {cnt : ℕ} {page : Page} {rest : List Page} (hpc : s.pc c = .drainConsume cnt)
      (hqueue : s.queue .queue1 = page :: rest) :
      Move cfg s c ((s.setQueue .queue1 rest).goto c (.drainDec cnt page))
  | drainEmpty {cnt : ℕ} (hpc : s.pc c = .drainConsume cnt) (hqueue : s.queue .queue1 = []) :
      Move cfg s c (s.goto c (.returned cnt))
  | drainDec {cnt : ℕ} {page : Page} (hpc : s.pc c = .drainDec cnt page) :
      Move cfg s c ((s.addRef page (-1)).goto c (.drainTest cnt page))
  | drainTest {cnt : ℕ} {page : Page} (lines : List Line) (hpc : s.pc c = .drainTest cnt page) :
      Move cfg s c (({ s with lines }.drop page).goto c (.drainConsume cnt))

/-- **What a step can do.** -/
theorem move_of_step [DecidableEq Page] (h : step cfg s c = some s') : Move cfg s c s' := by
  unfold step at h
  cases hpc : s.pc c with
  | enter =>
    simp only [hpc] at h
    split at h <;> cases h
    · exact .refuse hpc ‹_›
    · exact .start hpc ‹_›
  | passConsume =>
    simp only [hpc, Option.some_inj] at h
    obtain ⟨hqueue, heq⟩ | ⟨page, rest, hqueue, heq⟩ :=
      s.consume_cases c .queue1 .passTest (s.goto c (.moveConsume 0))
    · rw [← h, heq]
      exact .passEmpty hpc hqueue
    · rw [← h, heq]
      exact .passTake hpc hqueue
  | passTest page =>
    simp only [hpc] at h
    split at h <;> cases h
    · exact .passEnd hpc ‹_›
    · exact .passMark hpc ‹_›
  | passInc page =>
    simp only [hpc] at h
    cases h
    exact .passInc hpc
  | passProduce page =>
    simp only [hpc, Option.some_inj] at h
    obtain ⟨hroom, heq⟩ | ⟨hfull, heq⟩ := State.produce_cases cfg s c .queue1 page .passConsume
      ((s.drop page).goto c .passConsume)
    · rw [← h, heq]
      exact .passPut hpc hroom
    · rw [← h, heq]
      exact .passFull hpc hfull
  | moveConsume i =>
    simp only [hpc] at h
    split at h
    · rw [Option.some_inj] at h
      obtain ⟨hqueue, heq⟩ | ⟨page, rest, hqueue, heq⟩ := s.consume_cases c c.source (.moveRef i)
        ((s.print (.deqEmptyq c i)).goto c (.drainConsume i))
      · rw [← h, heq]
        exact .moveEmpty hpc ‹_› hqueue
      · rw [← h, heq]
        exact .moveTake hpc ‹_› hqueue
    · cases h
      exact .moveDone hpc ‹_›
  | moveRef i page =>
    simp only [hpc] at h
    cases h
    exact .moveRef hpc
  | moveProduce i page =>
    simp only [hpc, Option.some_inj] at h
    obtain ⟨hroom, heq⟩ | ⟨hfull, heq⟩ := State.produce_cases cfg s c c.target page
      (.moveConsume (i + 1)) (((s.print (.enq1Fullq c i)).drop page).goto c (.drainConsume i))
    · rw [← h, heq]
      exact .movePut hpc hroom
    · rw [← h, heq]
      exact .moveFull hpc hfull
  | drainConsume cnt =>
    simp only [hpc, Option.some_inj] at h
    obtain ⟨hqueue, heq⟩ | ⟨page, rest, hqueue, heq⟩ :=
      s.consume_cases c .queue1 (.drainDec cnt) (s.goto c (.returned cnt))
    · rw [← h, heq]
      exact .drainEmpty hpc hqueue
    · rw [← h, heq]
      exact .drainTake hpc hqueue
  | drainDec cnt page =>
    simp only [hpc] at h
    cases h
    exact .drainDec hpc
  | drainTest cnt page =>
    simp only [hpc, Option.some_inj] at h
    rw [← h]
    split
    · exact .drainTest _ hpc
    · exact .drainTest s.lines hpc
  | refused =>
    simp only [hpc] at h
    cases h
  | returned cnt =>
    simp only [hpc] at h
    cases h

/-! ## The number of places -/

/-- The page in the hand of a CPU. -/
def Pc.hand : Pc Page → List Page
  | .passTest page | .passInc page | .passProduce page | .moveRef _ page | .moveProduce _ page
  | .drainDec _ page | .drainTest _ page => [page]
  | _ => []

variable [DecidableEq Page]

/-- In how many places a page is. -/
def State.total (s : State Page) (p : Page) : ℕ :=
  (s.queue .queue1).count p + (s.queue .queue2).count p + (s.pc .enq).hand.count p +
    (s.pc .deq).hand.count p + s.dropped.count p

/-- A step changes the places of a page by what the CPU held and holds. -/
theorem total_goto (s : State Page) (c : Cpu) (pc : Pc Page) (p : Page) :
    (s.goto c pc).total p + (s.pc c).hand.count p = s.total p + pc.hand.count p := by
  cases c <;> simp [State.total, State.goto, Function.update] <;> omega

/-- A ring that changes changes the places of a page by what it had and has. -/
theorem total_setQueue (s : State Page) (r : Ring) (xs : List Page) (p : Page) :
    (s.setQueue r xs).total p + (s.queue r).count p = s.total p + xs.count p := by
  cases r <;> simp [State.total, State.setQueue, Function.update] <;> omega

/-- A page that is dropped has one place more. -/
theorem total_drop (s : State Page) (page p : Page) :
    (s.drop page).total p = s.total p + [page].count p := by
  simp only [State.total, State.drop, List.count_append]
  omega

/-- A page goes from a ring to a hand. -/
theorem total_take (hpc : (s.pc c).hand = []) (h : s.queue r = page :: rest) {pc : Pc Page}
    (hpage : pc.hand = [page]) (p : Page) :
    ((s.setQueue r rest).goto c pc).total p = s.total p := by
  have hqueue := total_setQueue s r rest p
  have hgoto := total_goto (s.setQueue r rest) c pc p
  have hpc' : ((s.setQueue r rest).pc c).hand = [] := hpc
  rw [hpc', hpage] at hgoto
  rw [h, List.count_cons] at hqueue
  rw [List.count_singleton, List.count_nil] at hgoto
  omega

/-- A page goes from a hand to a ring. -/
theorem total_put (hpc : (s.pc c).hand = [page]) {pc : Pc Page} (hpage : pc.hand = []) (p : Page) :
    ((s.setQueue r (s.queue r ++ [page])).goto c pc).total p = s.total p := by
  have hqueue := total_setQueue s r (s.queue r ++ [page]) p
  have hgoto := total_goto (s.setQueue r (s.queue r ++ [page])) c pc p
  have hpc' : ((s.setQueue r (s.queue r ++ [page])).pc c).hand = [page] := hpc
  rw [hpc', hpage, List.count_nil] at hgoto
  rw [List.count_append] at hqueue
  omega

/-- A page leaves the last hand. -/
theorem total_drop_goto (hpc : (s.pc c).hand = [page]) {pc : Pc Page} (hpage : pc.hand = [])
    (p : Page) : ((s.drop page).goto c pc).total p = s.total p := by
  have hgoto := total_goto (s.drop page) c pc p
  have hpc' : ((s.drop page).pc c).hand = [page] := hpc
  rw [hpc', hpage, List.count_nil, total_drop] at hgoto
  omega

/-- A CPU goes on with the same hand. -/
theorem total_goto_eq {pc : Pc Page} (hpc : pc.hand = (s.pc c).hand) (p : Page) :
    (s.goto c pc).total p = s.total p := by
  have hgoto := total_goto s c pc p
  rw [hpc] at hgoto
  omega

/-- **Every step keeps the number of places of a page.** -/
theorem total_step (h : step cfg s c = some s') (p : Page) : s'.total p = s.total p := by
  cases move_of_step h with
  | refuse hpc _ =>
    exact total_goto_eq (s := s.print .loopCntTooBig) (by rw [State.print, hpc]; rfl) p
  | start hpc _ => exact total_goto_eq (by rw [hpc]; rfl) p
  | passEmpty hpc _ => exact total_goto_eq (by rw [hpc]; rfl) p
  | passTake hpc hqueue => exact total_take (by rw [hpc]; rfl) hqueue rfl p
  | passEnd hpc _ => exact total_drop_goto (by rw [hpc]; rfl) rfl p
  | passMark hpc _ =>
    exact total_goto_eq (s := s.setPrivate _ _) (by rw [State.setPrivate, hpc]; rfl) p
  | passInc hpc => exact total_goto_eq (s := s.addRef _ _) (by rw [State.addRef, hpc]; rfl) p
  | passPut hpc _ => exact total_put (by rw [hpc]; rfl) rfl p
  | passFull hpc _ => exact total_drop_goto (by rw [hpc]; rfl) rfl p
  | moveTake hpc _ hqueue => exact total_take (by rw [hpc]; rfl) hqueue rfl p
  | moveEmpty hpc _ _ => exact total_goto_eq (s := s.print _) (by rw [State.print, hpc]; rfl) p
  | moveDone hpc _ => exact total_goto_eq (by rw [hpc]; rfl) p
  | moveRef hpc => exact total_goto_eq (s := s.addRef _ _) (by rw [State.addRef, hpc]; rfl) p
  | movePut hpc _ => exact total_put (by rw [hpc]; rfl) rfl p
  | moveFull hpc _ => exact total_drop_goto (s := s.print _) (by rw [State.print, hpc]; rfl) rfl p
  | drainTake hpc hqueue => exact total_take (by rw [hpc]; rfl) hqueue rfl p
  | drainEmpty hpc _ => exact total_goto_eq (by rw [hpc]; rfl) p
  | drainDec hpc => exact total_goto_eq (s := s.addRef _ _) (by rw [State.addRef, hpc]; rfl) p
  | drainTest lines hpc => exact total_drop_goto (s := { s with lines }) (by rw [hpc]; rfl) rfl p

end PageBench05.Experiment3
