import PrototypeKernel.Foundation.FairRounds
import PrototypeKernel.Foundation.ThreadProgress
import PrototypeKernel.WfcQueue.Fifo

/-! # Progress of the wait-free concurrent queue

An enqueue is wait-free: it returns at its second step, whatever the other threads do. A dequeue and
a splice may wait for the store of a `next` pointer, but in a schedule that gives every thread its
steps all calls return. -/

namespace WfcQueue

open TransitionSystem FairRounds

variable {Q N T : Type*}

/-- The most steps that a call takes from here on, beside the rounds of a wait. -/
def Pc.rank : Pc Q N → ℕ
  | .idle => 0
  | .append .. => 2
  | .link .. => 1
  | .dequeueHead .. => 8
  | .dequeueTail .. => 7
  | .dequeueFirst .. => 6
  | .dequeueNext .. => 5
  | .dequeueInit .. => 4
  | .dequeueCmpxchg .. => 3
  | .dequeueSync .. => 2
  | .dequeueStore .. => 1
  | .spliceHead .. => 6
  | .spliceTail .. => 5
  | .spliceXchg .. | .spliceCheck .. => 4
  | .spliceTake .. => 3

/-- A call has a rank of at most 8. -/
theorem Pc.rank_le (pc : Pc Q N) : pc.rank ≤ 8 := by
  cases pc <;> simp [Pc.rank]

/-- A call with rank 0 has returned. -/
theorem Pc.rank_eq_zero {pc : Pc Q N} : pc.rank = 0 ↔ pc = .idle := by
  cases pc <;> simp [Pc.rank]

/-- The step would be a round of a wait: the link is missing, or the loop of a splice goes round. -/
def Pc.waits (s : State Q N T) : Pc Q N → Prop
  | .dequeueFirst q | .spliceXchg _ q => s.next (.head q) = none
  | .dequeueSync _ n => s.next (.node n) = none
  | .spliceCheck _ src => s.tail src ≠ .head src
  | _ => False

section Sum

variable [Fintype T] {s : State Q N T}

/-- The steps that are left to all calls, beside the rounds of their waits. -/
def State.rank (s : State Q N T) : ℕ := ∑ t, (s.call t).rank

/-- The ranks of all calls are at most 8 for each thread. -/
theorem rank_le : s.rank ≤ 8 * Fintype.card T := by
  calc s.rank ≤ ∑ _t : T, 8 := Finset.sum_le_sum fun t _ => (s.call t).rank_le
    _ = 8 * Fintype.card T := by
      rw [Finset.sum_const, Finset.card_univ, Nat.nsmul_eq_mul, Nat.mul_comm]

/-- With rank 0 all threads are idle. -/
theorem idle_of_rank_eq_zero (h : s.rank = 0) (t : T) : s.call t = .idle :=
  Pc.rank_eq_zero.mp (Finset.sum_eq_zero_iff.mp h t (Finset.mem_univ t))

end Sum

variable [DecidableEq Q] [DecidableEq N] [DecidableEq T]

/-- One step of thread `t`, if it is in a call. -/
def State.pass (s : State Q N T) (t : T) : State Q N T := (s.advance t).getD s

variable {s s' s₁ : State Q N T} {a : Queues Q N T} {t t' : T} {pc pc' : Pc Q N} {q : Q} {n : N}
  {p : Ptr Q N} {memory : N → Option N}

/-- A call in progress has a next step. -/
theorem advance_isSome (hpc : s.call t ≠ .idle) : ∃ s', s.advance t = some s' := by
  unfold State.advance
  split
  · exact absurd ‹_› hpc
  all_goals first | exact ⟨_, rfl⟩ | (split <;> exact ⟨_, rfl⟩)

/-- A step that is given to a thread is one of its call, or none. -/
theorem pass_cases (s : State Q N T) (t : T) :
    s.advance t = some (s.pass t) ∨ s.call t = .idle ∧ s.pass t = s := by
  by_cases hpc : s.call t = .idle
  · refine .inr ⟨hpc, ?_⟩
    rw [State.pass, State.advance, hpc]
    rfl
  · obtain ⟨s', hs⟩ := advance_isSome hpc
    refine .inl ?_
    rw [State.pass, hs]
    rfl

/-- The turn of a thread leaves the calls of the others. -/
theorem pass_call_of_ne (ht : t' ≠ t) : (s.pass t).call t' = s.call t' := by
  rcases pass_cases s t with hs | ⟨-, hs⟩
  · exact (move_of_advance hs).frame.2.1 t' ht
  · rw [hs]

/-- The turn of a thread is part of a run. -/
theorem reachable_pass (h : Reachable step ok (start memory) s) (t : T) :
    Reachable step ok (start memory) (s.pass t) := by
  rcases pass_cases s t with hs | ⟨-, hs⟩
  · exact h.tail (a := .run t) trivial hs
  · rwa [hs]

/-! ## What a step does to the rank -/

/-- **Every step of a call comes closer to its return**, but for a round of a wait, which changes
nothing. -/
theorem Move.rank (h : Move s t s') : (s'.call t).rank < (s.call t).rank ∨
    (s'.call t).rank = (s.call t).rank ∧ s'.next = s.next ∧ s'.tail = s.tail := by
  cases h with
  | wait => exact .inr ⟨rfl, rfl, rfl⟩
  | turn hpc hturn =>
    rw [goto_call, hpc]
    cases hturn with
    | check hnext => exact .inr ⟨rfl, rfl, rfl⟩
    | again htail => exact .inr ⟨rfl, rfl, rfl⟩
    | _ =>
      refine .inl ?_
      simp only [Pc.rank]
      omega
  | srcEmpty hpc htail =>
    rw [goto_call]
    refine .inl ?_
    rcases hpc with hpc | hpc <;> rw [hpc] <;> simp only [Pc.rank] <;> omega
  | append hpc | link hpc | null hpc | init hpc | cmpxchg hpc | store hpc | xchg hpc | take hpc =>
    rw [goto_call, hpc]
    refine .inl ?_
    simp only [Pc.rank]
    omega

omit [DecidableEq Q] [DecidableEq N] in
/-- A call that goes on has the rank of its new place. -/
theorem rank_of_goto (h : some (s₁.goto t pc) = some s') : (s'.call t).rank = pc.rank := by
  cases h
  rw [goto_call]

/-- A step that does not come closer to the return is a round of a wait. -/
theorem waits_of_advance (hs : s.advance t = some s') (hrank : (s.call t).rank ≤ (s'.call t).rank) :
    (s.call t).waits s := by
  by_contra hwaits
  apply Nat.not_lt.mpr hrank
  unfold State.advance at hs
  cases hpc : s.call t with
  | idle =>
    rw [hpc] at hs
    cases hs
  | append | link | dequeueInit | dequeueStore | spliceTake =>
    rw [hpc] at hs
    rw [rank_of_goto hs]
    simp only [Pc.rank]
    omega
  | dequeueHead | spliceHead =>
    rw [hpc] at hs
    rw [rank_of_goto hs]
    split <;> simp only [Pc.rank] <;> omega
  | dequeueTail | dequeueCmpxchg | spliceTail =>
    rw [hpc] at hs
    simp only at hs
    split at hs <;> rw [rank_of_goto hs] <;> simp only [Pc.rank] <;> omega
  | dequeueNext =>
    rw [hpc] at hs
    simp only at hs
    split at hs <;> rw [rank_of_goto hs] <;> simp only [Pc.rank] <;> omega
  | dequeueFirst | dequeueSync | spliceXchg =>
    rw [hpc] at hs hwaits
    simp only at hs
    split at hs
    · exact absurd ‹_› hwaits
    · rw [rank_of_goto hs]
      simp only [Pc.rank]
      omega
  | spliceCheck =>
    rw [hpc] at hs hwaits
    simp only [if_pos (not_not.mp hwaits)] at hs
    rw [rank_of_goto hs]
    simp only [Pc.rank]
    omega

section Sum

variable [Fintype T]

/-- A step brings its call on, or is a round of a wait. -/
theorem pass_rank (s : State Q N T) (t : T) : (s.pass t).rank < s.rank ∨
    (s.pass t).rank = s.rank ∧ (s.pass t).next = s.next ∧ (s.pass t).tail = s.tail := by
  rcases pass_cases s t with hs | ⟨-, hs⟩
  · have hmove := move_of_advance hs
    have hothers : ∀ t', t' ≠ t → ((s.pass t).call t').rank = (s.call t').rank := fun t' ht =>
      congrArg Pc.rank (hmove.frame.2.1 t' ht)
    rcases hmove.rank with hlt | ⟨heq, hnext, htail⟩
    · exact .inl (sum_lt_of_rise t 0 (by omega) fun t' ht => (hothers t' ht).le)
    · refine .inr ⟨Finset.sum_congr rfl fun t' _ => ?_, hnext, htail⟩
      by_cases ht : t' = t
      · rw [ht, heq]
      · exact hothers t' ht
  · rw [hs]
    exact .inr ⟨rfl, rfl, rfl⟩

/-- No turn increases the rank. -/
theorem pass_rank_le (s : State Q N T) (t : T) : (s.pass t).rank ≤ s.rank := by
  rcases pass_rank s t with hlt | ⟨heq, -⟩
  · exact hlt.le
  · exact heq.le

/-- A turn that decreases the rank of its call decreases the rank of all. -/
theorem rank_lt_of_own (hlt : ((s.pass t).call t).rank < (s.call t).rank) :
    (s.pass t).rank < s.rank :=
  sum_lt_of_rise t 0 (by omega) fun _ ht => (congrArg Pc.rank (pass_call_of_ne ht)).le

end Sum

/-! ## The call that is not kept waiting -/

/-- A call at the place gets on within `k` of its steps, as long as the memory is as in `s`. -/
def Goes (s : State Q N T) : ℕ → Pc Q N → Prop
  | 0, _ => False
  | k + 1, pc => ∀ (s₁ : State Q N T) (t : T), s₁.next = s.next → s₁.tail = s.tail →
      s₁.call t = pc → ((s₁.pass t).call t).rank < pc.rank ∨ Goes s k ((s₁.pass t).call t)

omit [DecidableEq Q] [DecidableEq N] [DecidableEq T] in
/-- Whether a call waits depends on the pointers. -/
theorem waits_congr (hnext : s₁.next = s.next) (htail : s₁.tail = s.tail) :
    pc.waits s₁ ↔ pc.waits s := by
  cases pc <;> simp only [Pc.waits, hnext, htail]

/-- A call that does not wait goes on in its next step. -/
theorem goes_of_not_waits (hidle : pc ≠ .idle) (hwaits : ¬pc.waits s) (k : ℕ) :
    Goes s (k + 1) pc := by
  rintro s₁ t hnext htail rfl
  refine .inl ?_
  by_contra hrank
  apply hwaits
  rcases pass_cases s₁ t with hs | ⟨hcall, -⟩
  · exact (waits_congr hnext htail).mp (waits_of_advance hs (Nat.not_lt.mp hrank))
  · exact absurd hcall hidle

/-- **Who owes a missing link can go on**, unless it waits itself. -/
theorem Inv.exists_goes_of_adj (h : Inv s a) (hadj : Adj a.place p n) (hnone : s.next p = none)
    (hsync : ∀ t q m, s.call t = .dequeueSync q m → p ≠ .head q) : ∃ t, Goes s 2 (s.call t) := by
  rcases h.link p n hadj with hstored | ⟨t, howes⟩
  · rw [hnone] at hstored
    cases hstored
  · refine ⟨t, goes_of_not_waits ?_ ?_ 1⟩
    · intro hidle
      rw [hidle] at howes
      cases howes
    · have hsync := hsync t
      generalize s.call t = pc at howes hsync
      cases pc with
      | dequeueSync q m =>
        have hp : p = .head q := by cases howes; rfl
        exact absurd hp (hsync q m rfl)
      | link | dequeueCmpxchg | dequeueStore | spliceTake => exact id
      | _ => cases howes

/-- A call waits for the first node of its queue, and nobody dequeues from there. -/
theorem Inv.exists_goes_of_head (h : Inv s a) (htail : s.tail q ≠ .head q)
    (hnone : s.next (.head q) = none) (hsync : ∀ t m, s.call t ≠ .dequeueSync q m) :
    ∃ t, Goes s 2 (s.call t) := by
  have hplace : a.place (.queue q) ≠ [] := fun hnil =>
    htail ((h.tail q).trans (endOf_eq_head.mpr hnil))
  obtain ⟨n, rest, hrest⟩ := List.exists_cons_of_ne_nil hplace
  have hadj : Adj a.place (.head q) n := by
    show (a.place (.queue q)).head? = some n
    rw [hrest]
    rfl
  refine h.exists_goes_of_adj hadj hnone ?_
  rintro t q' m hpc ⟨⟩
  exact hsync t m hpc

/-- A dequeue that waits for the first node has one to wait for. -/
theorem tail_ne_of_dequeueFirst (h : Reachable step ok (start memory) s) :
    ∀ t q, s.call t = .dequeueFirst q → s.tail q ≠ .head q := by
  refine h.invariant' (P := fun s => ∀ t q, s.call t = .dequeueFirst q → s.tail q ≠ .head q)
    (fun t q hpc => by cases hpc) ?_
  intro s act s' hreach hfirst hok hs
  obtain ⟨a, hinv⟩ := inv_of_reachable hreach
  have hsync := (promises_of_reachable hreach).1
  -- a call that starts, and one that goes on with the tails as they are
  have hkeep : ∀ {t : T} {s₁ : State Q N T} {pc : Pc Q N}, s₁.call = s.call → s₁.tail = s.tail →
      (∀ q, pc = .dequeueFirst q → s.tail q ≠ .head q) →
      ∀ t' q, (s₁.goto t pc).call t' = .dequeueFirst q → (s₁.goto t pc).tail q ≠ .head q := by
    intro t s₁ pc hcall htail hown t' q hpc
    show s₁.tail q ≠ _
    rw [htail]
    by_cases ht : t' = t
    · rw [ht, goto_call] at hpc
      exact hown q hpc
    · rw [goto_call_of_ne ht, hcall] at hpc
      exact hfirst t' q hpc
  cases taken_of_step hs with
  | nodeInit n => exact hfirst
  | enqueue q n hidle => exact hkeep rfl rfl nofun
  | dequeue q hidle => exact hkeep rfl rfl nofun
  | splice dest src hidle => exact hkeep rfl rfl nofun
  | @run t _ hmove =>
    -- a tail that is set to its head belongs to a queue from which nobody else dequeues
    have hreset : ∀ {s₁ : State Q N T} {pc : Pc Q N} {q₁ : Q}, s₁.call = s.call →
        s₁.tail = Function.update s.tail q₁ (.head q₁) →
        (∀ t', t' ≠ t → (s.call t').dequeues ≠ some q₁) → (∀ q, pc ≠ .dequeueFirst q) →
        ∀ t' q, (s₁.goto t pc).call t' = .dequeueFirst q → (s₁.goto t pc).tail q ≠ .head q := by
      intro s₁ pc q₁ hcall htail hexcl hown t' q hpc
      show s₁.tail q ≠ _
      by_cases ht : t' = t
      · rw [ht, goto_call] at hpc
        exact absurd hpc (hown q)
      · rw [goto_call_of_ne ht, hcall] at hpc
        have hne : q ≠ q₁ := by
          rintro rfl
          exact hexcl t' ht (by rw [hpc]; rfl)
        rw [htail, Function.update_of_ne hne]
        exact hfirst t' q hpc
    cases hmove with
    | wait => exact hfirst
    | turn hpc hturn =>
      refine hkeep rfl rfl ?_
      cases hturn with
      | @nonEmpty q n hnext =>
        rintro _ ⟨⟩ htail
        have hhead := hinv.head_of_next hnext
        rw [hinv.empty_of_tail htail] at hhead
        cases hhead
      | pending htail =>
        rintro _ ⟨⟩
        exact htail
      | _ => exact nofun
    | @append src q newHead newTail hpc =>
      have hcall := hinv.call t
      rw [hpc] at hcall
      obtain ⟨-, m, -, rfl⟩ := hcall
      intro t' q' hpc'
      show Function.update s.tail q (.node m) q' ≠ _
      by_cases ht : t' = t
      · rw [ht, goto_call] at hpc'
        cases hpc'
      · rw [goto_call_of_ne ht] at hpc'
        by_cases hq : q' = q
        · rw [hq, Function.update_self]
          exact nofun
        · rw [Function.update_of_ne hq]
          exact hfirst t' q' hpc'
    | link hpc => exact hkeep rfl rfl nofun
    | null hpc htail => exact hkeep rfl rfl nofun
    | init hpc => exact hkeep rfl rfl nofun
    | cmpxchg hpc htail =>
      exact hreset rfl rfl (fun t' ht => (hsync t t' _ (hpc ▸ rfl) ht).1) nofun
    | store hpc => exact hkeep rfl rfl nofun
    | srcEmpty hpc htail => exact hkeep rfl rfl nofun
    | xchg hpc hnext => exact hkeep rfl rfl nofun
    | take hpc =>
      exact hreset rfl rfl (fun t' ht hdeq => (hsync t' t _ hdeq ht.symm).2 (hpc ▸ rfl)) nofun

/-- **Some call can go on**, within two of its steps. -/
theorem exists_goes (h : Reachable step ok (start memory) s) (hpc : s.call t ≠ .idle) :
    ∃ t, Goes s 2 (s.call t) := by
  obtain ⟨a, hinv⟩ := inv_of_reachable h
  have hsync := (promises_of_reachable h).1
  by_cases hwaits : (s.call t).waits s
  swap
  · exact ⟨t, goes_of_not_waits hpc hwaits 1⟩
  cases hcall : s.call t with
  | dequeueFirst q =>
    rw [hcall] at hwaits
    refine hinv.exists_goes_of_head (tail_ne_of_dequeueFirst h t q hcall) hwaits ?_
    intro t' m hpc'
    have hne : t' ≠ t := by
      rintro rfl
      rw [hcall] at hpc'
      cases hpc'
    exact (hsync t t' q (hcall ▸ rfl) hne).1 (hpc' ▸ rfl)
  | dequeueSync q n =>
    have hok := hinv.call t
    rw [hcall] at hwaits hok
    obtain ⟨x, hx⟩ := hok
    have hadj : Adj a.place (.node n) x := ⟨.queue q, (by rintro ⟨⟩), hx.isInfix⟩
    exact hinv.exists_goes_of_adj hadj hwaits (by rintro _ _ _ _ ⟨⟩)
  | spliceXchg dest src =>
    rw [hcall] at hwaits
    by_cases htail : s.tail src = .head src
    · -- the loop ends at its check
      refine ⟨t, ?_⟩
      rw [hcall]
      intro s₁ t₁ hnext htail₁ hpc₁
      refine .inr ?_
      have hpass : (s₁.pass t₁).call t₁ = .spliceCheck dest src := by
        rw [State.pass, State.advance, hpc₁]
        simp only [hnext, show s.next (.head src) = none from hwaits, Option.getD_some]
        exact goto_call
      rw [hpass]
      have hidle : (Pc.spliceCheck dest src : Pc Q N) ≠ .idle := by rintro ⟨⟩
      exact goes_of_not_waits hidle (not_not_intro htail) 0
    · refine hinv.exists_goes_of_head htail hwaits fun t' m hpc' => ?_
      have hne : t ≠ t' := by
        rintro rfl
        rw [hcall] at hpc'
        cases hpc'
      exact (hsync t' t src (hpc' ▸ rfl) hne).2 (hcall ▸ rfl)
  | spliceCheck dest src =>
    rw [hcall] at hwaits
    cases hnext : s.next (.head src) with
    | none =>
      refine hinv.exists_goes_of_head hwaits hnext fun t' m hpc' => ?_
      have hne : t ≠ t' := by
        rintro rfl
        rw [hcall] at hpc'
        cases hpc'
      exact (hsync t' t src (hpc' ▸ rfl) hne).2 (hcall ▸ rfl)
    | some n =>
      -- the next round of the loop takes the nodes
      refine ⟨t, ?_⟩
      rw [hcall]
      intro s₁ t₁ hnext₁ htail₁ hpc₁
      refine .inr ?_
      have hpass : (s₁.pass t₁).call t₁ = .spliceXchg dest src := by
        rw [State.pass, State.advance, hpc₁]
        simp only [htail₁, if_neg hwaits, Option.getD_some]
        exact goto_call
      rw [hpass]
      have hidle : (Pc.spliceXchg dest src : Pc Q N) ≠ .idle := by rintro ⟨⟩
      refine goes_of_not_waits hidle (fun hnone => ?_) 0
      rw [Pc.waits, hnext] at hnone
      cases hnone
  | _ =>
    rw [hcall] at hwaits
    exact hwaits.elim

/-! ## An enqueue is wait-free -/

/-- What happened stays in the log. -/
theorem log_of_step {act : Action Q N T} (hs : step s act = some s') : s.log <+: s'.log := by
  cases taken_of_step hs with
  | nodeInit n => exact List.prefix_rfl
  | enqueue q n hidle => exact List.prefix_append ..
  | dequeue q hidle => exact List.prefix_rfl
  | splice dest src hidle => exact List.prefix_rfl
  | run hmove =>
    cases hmove with
    | wait => exact List.prefix_rfl
    | turn hpc hturn => exact List.prefix_rfl
    | init hpc => exact List.prefix_rfl
    | xchg hpc hnext => exact List.prefix_rfl
    | _ => exact List.prefix_append ..

/-- A call is not touched by the actions of the others. -/
theorem call_of_step {act : Action Q N T} (hs : step s act = some s') (hact : act ≠ .run t)
    (hpc : s.call t ≠ .idle) : s'.call t = s.call t := by
  have hstart : ∀ {t' : T} {s₁ : State Q N T} {pc : Pc Q N}, s₁.call = s.call →
      s.call t' = .idle → (s₁.goto t' pc).call t = s.call t := by
    intro t' s₁ pc hcall hidle
    have hne : t ≠ t' := by
      rintro rfl
      exact hpc hidle
    rw [goto_call_of_ne hne, hcall]
  cases taken_of_step hs with
  | nodeInit n => rfl
  | enqueue q n hidle => exact hstart rfl hidle
  | dequeue q hidle => exact hstart rfl hidle
  | splice dest src hidle => exact hstart rfl hidle
  | @run t' _ hmove => exact hmove.frame.2.1 t fun heq => hact (heq ▸ rfl)

/-- The enqueue of thread `t` has returned since state `s`. -/
def Returned (s s' : State Q N T) (t : T) : Prop :=
  ∃ ret, .enqueueRet t ret ∈ s'.log.drop s.log.length

omit [DecidableEq Q] [DecidableEq N] [DecidableEq T] in
/-- What has happened since a later state has happened since an earlier one. -/
theorem Returned.of_log (hlog : s.log <+: s₁.log) (h : Returned s₁ s' t) : Returned s s' t := by
  obtain ⟨ret, hret⟩ := h
  exact ⟨ret, List.drop_subset_drop_left _ hlog.length_le hret⟩

section WaitFree

variable [∀ (s : State Q N T) act, Decidable (ok s act)] {acts : List (Action Q N T)}

/-- A run of some actions begins with the first one. -/
theorem runOk_cons {act : Action Q N T} (hrun : runOk step ok s (act :: acts) = some s') :
    ∃ s₁, step s act = some s₁ ∧ runOk step ok s₁ acts = some s' := by
  rw [runOk] at hrun
  obtain ⟨-, hrun⟩ := Option.ite_none_right_eq_some.mp hrun
  exact Option.bind_eq_some_iff.mp hrun

/-- A run only adds events to the log. -/
theorem log_of_runOk (hrun : runOk step ok s acts = some s') : s.log <+: s'.log := by
  induction acts generalizing s with
  | nil =>
    cases hrun
    exact List.prefix_rfl
  | cons act acts ih =>
    obtain ⟨s₁, hs, hrun⟩ := runOk_cons hrun
    exact (log_of_step hs).trans (ih hrun)

/-- **The store of `old_tail->next` is the last step.** -/
theorem returned_of_link {oldTail : Ptr Q N} {newHead : N}
    (hpc : s.call t = .link none q oldTail newHead) (hrun : runOk step ok s acts = some s')
    (hcount : 1 ≤ acts.count (.run t)) : Returned s s' t := by
  induction acts generalizing s with
  | nil => exact absurd hcount (Nat.not_succ_le_zero 0)
  | cons act acts ih =>
    obtain ⟨s₁, hs, hrun⟩ := runOk_cons hrun
    have hlog := log_of_step hs
    by_cases hact : act = .run t
    · rw [hact, step, State.advance, hpc] at hs
      cases hs
      -- the step appends the return to the log
      obtain ⟨later, hlater⟩ := log_of_runOk hrun
      refine ⟨oldTail ≠ .head q, ?_⟩
      rw [← hlater]
      show _ ∈ ((s.log ++ _) ++ later).drop s.log.length
      rw [List.append_assoc, List.drop_left]
      exact List.mem_append_left _ (List.mem_singleton_self _)
    · rw [List.count_cons_of_ne hact] at hcount
      exact (ih ((call_of_step hs hact (by rw [hpc]; rintro ⟨⟩)).trans hpc) hrun
        hcount).of_log hlog

/-- **An enqueue returns at its second step**, whatever the other threads do meanwhile. -/
theorem returned_of_append {newHead : N} {newTail : Ptr Q N}
    (hpc : s.call t = .append none q newHead newTail) (hrun : runOk step ok s acts = some s')
    (hcount : 2 ≤ acts.count (.run t)) : Returned s s' t := by
  induction acts generalizing s with
  | nil => exact absurd hcount (Nat.not_succ_le_zero 1)
  | cons act acts ih =>
    obtain ⟨s₁, hs, hrun⟩ := runOk_cons hrun
    have hlog := log_of_step hs
    by_cases hact : act = .run t
    · rw [hact, List.count_cons_self] at hcount
      rw [hact, step, State.advance, hpc] at hs
      cases hs
      exact (returned_of_link goto_call hrun (Nat.le_of_succ_le_succ hcount)).of_log hlog
    · rw [List.count_cons_of_ne hact] at hcount
      exact (ih ((call_of_step hs hact (by rw [hpc]; rintro ⟨⟩)).trans hpc) hrun
        hcount).of_log hlog

end WaitFree

/-! ## All calls return -/

section Sum

variable [Fintype T]

/-- **A fair round brings some call on.** -/
theorem rank_lt_of_fair (h : Reachable step ok (start memory) s) (hpc : ¬∀ t, s.call t = .idle)
    {round : List T} (hfair : Fair 2 round) : (round.foldl State.pass s).rank < s.rank := by
  obtain ⟨t₀, hpc⟩ := not_forall.mp hpc
  obtain ⟨t, hgoes⟩ := exists_goes h hpc
  -- until some call gets on, the memory stays as it is
  refine foldl_lt (P := fun _ => True) (k := 2) (j := 0) t (fun _ _ _ => trivial)
    (fun s t _ => pass_rank_le s t)
    (W := fun j s₁ => s₁.next = s.next ∧ s₁.tail = s.tail ∧ s₁.rank ≤ s.rank ∧
      Goes s (2 - j) (s₁.call t)) ?_ ?_ ?_ trivial ⟨rfl, rfl, Nat.le_refl _, hgoes⟩ ?_
  · rintro j s₁ t' - ⟨hnext, htail, hrank, hgoes⟩ ht
    rcases pass_rank s₁ t' with hlt | ⟨heq, hnext', htail'⟩
    · exact .inl (by omega)
    · refine .inr ⟨hnext'.trans hnext, htail'.trans htail, by omega, ?_⟩
      rwa [pass_call_of_ne (Ne.symm ht)]
  · rintro j s₁ - ⟨hnext, htail, hrank, hgoes⟩
    cases hj : 2 - j with
    | zero =>
      rw [hj] at hgoes
      exact hgoes.elim
    | succ k =>
      rw [hj] at hgoes
      rcases hgoes s₁ t hnext htail rfl with hlt | hgoes
      · exact .inl (Nat.lt_of_lt_of_le (rank_lt_of_own hlt) hrank)
      · rcases pass_rank s₁ t with hlt | ⟨heq, hnext', htail'⟩
        · exact .inl (by omega)
        · refine .inr ⟨hnext'.trans hnext, htail'.trans htail, by omega, ?_⟩
          rwa [show 2 - (j + 1) = k by omega]
  · rintro j s₁ ⟨-, -, -, hgoes⟩
    by_contra hj
    rw [show 2 - j = 0 by omega] at hgoes
    exact hgoes
  · rw [Nat.zero_add]
    exact hfair t

/-- **Progress of the queues**: each enqueue is wait-free, and in a schedule whose rounds give every
thread two steps, all calls have returned after eight rounds for each thread. The nodes that are
not dequeued can then be read off the `next` pointers. -/
theorem wfcq_progress (hreach : Reachable step ok (start memory) s) :
    (∀ t q n p acts s', s.call t = .append none q n p → runOk step ok s acts = some s' →
      2 ≤ acts.count (.run t) → Returned s s' t) ∧
    ∀ rounds : List (List T), (∀ round ∈ rounds, Fair 2 round) →
      8 * Fintype.card T ≤ rounds.length →
      (∀ t, (rounds.flatten.foldl State.pass s).call t = .idle) ∧
      ∃ a, Correct (rounds.flatten.foldl State.pass s) a ∧
        ∀ q, Chain (rounds.flatten.foldl State.pass s).next (.head q) (a.place (.queue q)) := by
  refine ⟨fun t q n p acts s' hpc hrun hcount => returned_of_append hpc hrun hcount,
    fun rounds hfair hlength => ?_⟩
  have hidle : ∀ t, (rounds.flatten.foldl State.pass s).call t = .idle := by
    refine goal_of_rounds (P := Reachable step ok (start memory)) (μ := State.rank)
      (fun _ t h => reachable_pass h t) (fun s t h => ?_)
      (fun _ _ hzero => idle_of_rank_eq_zero hzero)
      (fun _ _ h hgoal hfair => rank_lt_of_fair h hgoal hfair) hreach hfair
      (Nat.le_trans rank_le hlength)
    rcases pass_cases s t with hs | ⟨-, hs⟩
    · rw [State.advance, h t] at hs
      cases hs
    · rw [hs]
      exact h
  have hreach' := foldl_keeps (P := Reachable step ok (start memory))
    (fun _ t h => reachable_pass h t) hreach rounds.flatten
  obtain ⟨a, ha⟩ := wfcq_correct hreach'
  refine ⟨hidle, a, ha, (ha.settled fun t => ?_).2⟩
  rw [hidle t]
  rfl

end Sum

/-- Thread 0 has exchanged the tail and not stored the link yet, for which thread 1 waits in its
dequeue, and thread 2 starts to enqueue. -/
theorem wfcq_progress_waiting :
    ∃ s : State Bool ℕ (Fin 3), s.call 0 = .link none false (.head false) 1 ∧
      s.call 1 = .dequeueFirst false ∧ s.call 2 = .append none false 2 (.node 2) ∧
      (∀ acts s', runOk step ok s acts = some s' → 2 ≤ acts.count (.run 2) →
        Returned s s' 2) ∧
      ∀ t, ((List.replicate 24 [0, 1, 2, 2, 1, 0]).flatten.foldl State.pass s).call t = .idle := by
  have hrun : (runOk (step : State Bool ℕ (Fin 3) → _) ok (start fun _ => none)
      [.enqueue 0 false 1, .run 0, .dequeue 1 false, .run 1, .run 1, .run 1,
        .enqueue 2 false 2]).any fun s =>
          s.call 0 = .link none false (.head false) 1 ∧ s.call 1 = .dequeueFirst false ∧
          s.call 2 = .append none false 2 (.node 2) := by decide +kernel
  obtain ⟨s, hs, hend⟩ := (Option.any_eq_true _ _).mp hrun
  obtain ⟨hlink, hfirst, happend⟩ := of_decide_eq_true hend
  have hprogress := wfcq_progress (reachable_of_runOk hs)
  have hfair : ∀ round ∈ List.replicate 24 [0, 1, 2, 2, 1, (0 : Fin 3)], Fair 2 round := by
    intro round hround
    rw [List.eq_of_mem_replicate hround]
    intro t
    revert t
    decide
  exact ⟨s, hlink, hfirst, happend, fun acts s' => hprogress.1 2 false 2 _ acts s' happend,
    (hprogress.2 _ hfair (by decide)).1⟩

end WfcQueue
