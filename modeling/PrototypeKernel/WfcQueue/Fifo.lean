import Mathlib.Algebra.BigOperators.Group.Finset.Basic
import Mathlib.Algebra.Order.BigOperators.Group.Finset
import PrototypeKernel.WfcQueue.Steps

/-! # The queues keep their nodes in order

In every run that keeps to the synchronization table the queues do what `Queues.apply` says,
whatever the order of the steps. No node is lost: when no call is about to store a link, the `next`
pointers from the head of each queue lead through its nodes, and the running calls can always get
there. -/

namespace WfcQueue

open ListFamily TransitionSystem

variable {Q N T : Type*} [DecidableEq Q] [DecidableEq N] [DecidableEq T]

/-! ## Pending stores -/

/-- How many steps are left to a call, when it waits for nothing, until it has stored the links that
it answers for. -/
def Pc.left : Pc Q N → ℕ
  | .append .. => 2
  | .link .. => 1
  | .dequeueCmpxchg .. => 3
  | .dequeueSync .. => 2
  | .dequeueStore .. => 1
  | .spliceTake .. => 3
  | _ => 0

/-- No store of a `next` pointer is pending. -/
def State.Settled (s : State Q N T) : Prop := ∀ t, (s.call t).left = 0

/-- The `next` pointers from `p` on lead through the nodes of the list, and no further. -/
def Chain (next : Ptr Q N → Option N) : Ptr Q N → List N → Prop
  | p, [] => next p = none
  | p, n :: l => next p = some n ∧ Chain next (.node n) l

/-- **What the queues have to do**: `a` is where the nodes are after the events. -/
structure Correct (s : State Q N T) (a : Queues Q N T) : Prop where
  /-- Each exchange of a tail appends or takes a run of nodes as a whole, each dequeue returns the
  first node, or `NULL` from an empty queue, and each return tells what the exchange has found. -/
  fifo : replay s.log = some a
  /-- No node is dequeued twice. -/
  once : (dequeued s.log).Nodup
  /-- `__wfcq_dequeue()` returns `NULL` when the queue is empty. -/
  null : ∀ l₁ l₂ t q, s.log = l₁ ++ .dequeueRet t q none :: l₂ →
    ∃ a₁, replay l₁ = some a₁ ∧ a₁.place (.queue q) = []
  /-- `wfcq_enqueue()` returns false exactly when its exchange of the tail found the queue empty. -/
  ret : ∀ l₁ l₂ l₃ t q ret, s.log = l₁ ++ .append t q :: (l₂ ++ .enqueueRet t ret :: l₃) →
    (∀ q', .append t q' ∉ l₂) →
    ∃ a₁, replay l₁ = some a₁ ∧ (ret = false ↔ a₁.place (.queue q) = [])
  /-- Every node is in one place, and the place for those that left holds those dequeued. -/
  kept : ∀ n ∈ enqueued s.log, ∃! p, n ∈ a.place p
  out : a.place .out = dequeued s.log
  /-- When no store is pending, the nodes that are not dequeued are in the queues. -/
  settled : s.Settled →
    (∀ t, a.place (.run t) = []) ∧ ∀ q, Chain s.next (.head q) (a.place (.queue q))
  /-- The running calls can finish the pending stores. -/
  settles : ∃ s', Reachable step (fun _ act => ∃ t, act = .run t) s s' ∧ s'.Settled

variable {s s' : State Q N T} {a : Queues Q N T} {t : T} {memory : N → Option N}

/-! ## The settled queues -/

/-- When no store is pending, the next pointers lead from any place in a queue through the rest of
it. -/
theorem Inv.chain (h : Inv s a) (hapart : Apart a.place) (hsettled : s.Settled) {q : Q} :
    ∀ {l pre : List N}, a.place (.queue q) = pre ++ l → Chain s.next (endOf q pre) l := by
  have hnone : ∀ t, (s.call t).owes = none := fun t => by
    have hleft := hsettled t
    generalize s.call t = pc at hleft
    cases pc <;> first | rfl | cases hleft
  intro l
  induction l with
  | nil =>
    intro pre hl
    rw [List.append_nil] at hl
    rw [← hl]
    exact h.last _ live_endOf fun n => not_adj_endOf hapart
  | cons n l ih =>
    intro pre hl
    refine ⟨?_, ?_⟩
    · rcases h.link _ n (adj_split hl) with hnext | ⟨t, howes⟩
      · exact hnext
      · rw [hnone t] at howes
        cases howes
    · have hend : endOf q (pre ++ [n]) = (.node n : Ptr Q N) :=
        endOf_eq_node.mpr (List.getLast?_concat ..)
      rw [← hend]
      exact ih (by rw [hl, List.append_assoc]; rfl)

/-! ## Pending stores can finish -/

/-- A step to `pc` that leaves less to do. -/
theorem advance_lt {s₁ : State Q N T} {pc pc' : Pc Q N} (hpc : s.call t = pc)
    (hs : s.advance t = some (s₁.goto t pc')) (hcalls : s₁.call = s.call)
    (hlt : pc'.left < pc.left) :
    ∃ t s', s.advance t = some s' ∧ (s'.call t).left < (s.call t).left ∧
      ∀ t', t' ≠ t → s'.call t' = s.call t' := by
  refine ⟨t, _, hs, ?_, fun t' ht => ?_⟩
  · rwa [goto_call, hpc]
  · rw [goto_call_of_ne ht, hcalls]

/-- The store of a link can be made, and leaves fewer steps. -/
theorem link_advance {src : Option Q} {q : Q} {oldTail : Ptr Q N} {newHead : N}
    (hpc : s.call t = .link src q oldTail newHead) :
    ∃ t s', s.advance t = some s' ∧ (s'.call t).left < (s.call t).left ∧
      ∀ t', t' ≠ t → s'.call t' = s.call t' := by
  have hs : s.advance t = some (((s.setNext oldTail (some newHead)).emit
      (.ret t src (oldTail ≠ .head q))).goto t .idle) := by rw [State.advance, hpc]
  exact advance_lt hpc hs rfl Nat.one_pos

/-- **Some call can go on** as long as a store is pending. -/
theorem Inv.exists_advance (h : Inv s a) (hpending : ¬s.Settled) :
    ∃ t s', s.advance t = some s' ∧ (s'.call t).left < (s.call t).left ∧
      ∀ t', t' ≠ t → s'.call t' = s.call t' := by
  obtain ⟨t, ht⟩ := not_forall.mp hpending
  have hcall := h.call t
  cases hpc : s.call t with
  | append src q newHead newTail =>
    have hs : s.advance t = some (((s.setTail q newTail).emit (.append t q)).goto t
        (.link src q (s.tail q) newHead)) := by rw [State.advance, hpc]
    exact advance_lt hpc hs rfl Nat.one_lt_two
  | link src q oldTail newHead => exact link_advance hpc
  | dequeueCmpxchg q n =>
    by_cases htail : s.tail q = .node n
    · have hs : s.advance t = some (((s.setTail q (.head q)).emit
          (.dequeueRet t q (some n))).goto t .idle) := by
        rw [State.advance, hpc]
        exact congrArg some (if_pos htail)
      exact advance_lt hpc hs rfl (Nat.succ_pos 2)
    · have hs : s.advance t = some (s.goto t (.dequeueSync q n)) := by
        rw [State.advance, hpc]
        exact congrArg some (if_neg htail)
      exact advance_lt hpc hs rfl (Nat.lt_succ_self 2)
  | dequeueSync q n =>
    cases hnext : s.next (.node n) with
    | some x =>
      have hs : s.advance t = some (s.goto t (.dequeueStore q n x)) := by
        rw [State.advance, hpc]
        simp only [hnext]
      exact advance_lt hpc hs rfl Nat.one_lt_two
    | none =>
      -- the link that the call waits for is owed by another one, which can store it
      rw [hpc] at hcall
      obtain ⟨x, hx⟩ := hcall
      have hadj : Adj a.place (.node n) x := ⟨.queue q, (by rintro ⟨⟩), hx.isInfix⟩
      rcases h.link _ x hadj with hstored | ⟨t', howes⟩
      · rw [hnext] at hstored
        cases hstored
      · cases hpc' : s.call t' <;> rw [hpc'] at howes <;> cases howes
        exact link_advance hpc'
  | dequeueStore q n x =>
    have hs : s.advance t = some (((s.setNext (.head q) (some x)).emit
        (.dequeueRet t q (some n))).goto t .idle) := by rw [State.advance, hpc]
    exact advance_lt hpc hs rfl Nat.one_pos
  | spliceTake dest src n =>
    have hs : s.advance t = some (((s.setTail src (.head src)).emit (.take t src)).goto t
        (.append (some src) dest n (s.tail src))) := by rw [State.advance, hpc]
    exact advance_lt hpc hs rfl (Nat.lt_succ_self 2)
  | _ => exact absurd (by rw [hpc]; rfl) ht

/-- A run has started finitely many calls. -/
theorem exists_finset_of_reachable (h : Reachable step ok (start memory) s) :
    ∃ F : Finset T, ∀ t, t ∉ F → s.call t = .idle := by
  refine h.invariant (P := fun s => ∃ F : Finset T, ∀ t, t ∉ F → s.call t = .idle)
    ⟨∅, fun _ _ => rfl⟩ ?_
  rintro s act s' ⟨F, hF⟩ - hs
  have hone : ∀ t, (∀ t', t' ≠ t → s'.call t' = s.call t') →
      ∃ F : Finset T, ∀ t, t ∉ F → s'.call t = .idle := fun t hothers =>
    ⟨insert t F, fun t' ht' => by
      obtain ⟨hne, ht'⟩ := not_or.mp (Finset.mem_insert.not.mp ht')
      rw [hothers t' hne]
      exact hF t' ht'⟩
  cases taken_of_step hs with
  | nodeInit n => exact ⟨F, hF⟩
  | @enqueue t q n => exact hone t fun _ => goto_call_of_ne
  | @dequeue t q => exact hone t fun _ => goto_call_of_ne
  | @splice t dest src => exact hone t fun _ => goto_call_of_ne
  | @run t _ hmove => exact hone t hmove.frame.2.1

/-! ## Every run -/

/-- **The invariant holds in every reachable state.** -/
theorem inv_of_reachable (h : Reachable step ok (start memory) s) : ∃ a, Inv s a := by
  refine h.invariant' (P := fun s => ∃ a, Inv s a) ⟨_, inv_start memory⟩ ?_
  rintro s act s' hreach ⟨a, hinv⟩ hok hs
  obtain ⟨hsync, hnodup⟩ := promises_of_reachable hreach
  exact hinv.step hsync (apart_of_replay hinv.history hnodup) hok hs

/-- **The pending stores can finish.** -/
theorem exists_settled (h : Reachable step ok (start memory) s) :
    ∃ s', Reachable step (fun _ act => ∃ t, act = .run t) s s' ∧ s'.Settled := by
  obtain ⟨F, hF⟩ := exists_finset_of_reachable h
  refine exists_reachable_of_measure
    (P := fun s => Reachable step ok (start memory) s ∧ ∀ t, t ∉ F → (s.call t).left = 0)
    (fun s => ∑ t ∈ F, (s.call t).left) ?_ ⟨h, fun t ht => by rw [hF t ht]; rfl⟩
  rintro s ⟨hreach, hleft⟩ hpending
  obtain ⟨a, hinv⟩ := inv_of_reachable hreach
  obtain ⟨t, s', hs, hlt, hothers⟩ := hinv.exists_advance hpending
  have hmem : t ∈ F := by
    by_contra ht
    rw [hleft t ht] at hlt
    exact Nat.not_lt_zero _ hlt
  have hreach' : Reachable step ok (start memory) s' := hreach.tail (a := .run t) trivial hs
  refine ⟨.run t, s', ⟨t, rfl⟩, hs, ⟨hreach', fun t' ht' => ?_⟩, ?_⟩
  · rw [hothers t' fun heq => ht' (heq ▸ hmem)]
    exact hleft t' ht'
  · refine Finset.sum_lt_sum (fun t' _ => ?_) ⟨t, hmem, hlt⟩
    by_cases ht : t' = t
    · exact ht ▸ hlt.le
    · rw [hothers t' ht]

/-- **The wait-free queues are correct**: for any number of queues and threads, in every run whose
calls keep to the synchronization table and enqueue each node once, the nodes leave in order, none
leaves twice and none is lost. -/
theorem wfcq_correct (hreach : Reachable step ok (start memory) s) : ∃ a, Correct s a := by
  obtain ⟨a, hinv⟩ := inv_of_reachable hreach
  have hapart := apart_of_replay hinv.history (promises_of_reachable hreach).2
  have hout := place_out hinv.history
  refine ⟨a, ?_⟩
  exact
    { fifo := hinv.history
      once := hout ▸ hapart.nodup .out
      null := fun l₁ l₂ t q hlog => empty_of_null (hlog ▸ hinv.history)
      ret := fun l₁ l₂ l₃ t q ret hlog hne => enqueueRet_iff (hlog ▸ hinv.history) hne
      kept := fun n hn => by
        obtain ⟨p, hp⟩ := (mem_enqueued_iff hinv.history).mp hn
        exact ⟨p, hp, fun p' hp' => hapart.unique hp' hp⟩
      out := hout
      settled := fun hsettled => by
        refine ⟨fun t => hinv.run t ?_, fun q => ?_⟩
        · have hleft := hsettled t
          generalize s.call t = pc at hleft
          cases pc <;> first | rfl | cases hleft
        · rw [← endOf_nil (N := N)]
          exact hinv.chain hapart hsettled rfl
      settles := exists_settled hreach }

instance [Fintype T] (s : State Q N T) (act : Action Q N T) : Decidable (ok s act) :=
  match act with
  | .nodeInit n => inferInstanceAs (Decidable (n ∉ enqueued s.log))
  | .enqueue _ _ n => inferInstanceAs (Decidable (n ∉ enqueued s.log ∧ s.next (.node n) = none))
  | .dequeue _ q => inferInstanceAs
      (Decidable (∀ t, (s.call t).dequeues ≠ some q ∧ (s.call t).splices ≠ some q))
  | .splice _ _ src => inferInstanceAs (Decidable (∀ t, (s.call t).dequeues ≠ some src))
  | .run _ => inferInstanceAs (Decidable True)

/-- A dequeue races with an enqueue behind the only node, and a splice moves the rest. -/
theorem wfcq_correct_raced :
    ∃ s : State Bool ℕ (Fin 3), dequeued s.log = [1] ∧ s.next (.head true) = some 2 ∧
      ∃ a, Correct s a := by
  have hrun : (runOk (step : State Bool ℕ (Fin 3) → _) ok (start fun _ => none)
      ([.enqueue 0 false 1, .run 0, .run 0, .dequeue 1 false] ++ List.replicate 4 (.run 1) ++
        -- the tail is exchanged before the `cmpxchg()` and the link is stored after it
        [.enqueue 0 false 2, .run 0, .run 1, .run 0, .run 1, .run 1, .splice 2 true false] ++
        List.replicate 5 (.run 2))).any fun s =>
          dequeued s.log = [1] ∧ s.next (.head true) = some 2 := by decide +kernel
  obtain ⟨s, hs, hend⟩ := (Option.any_eq_true _ _).mp hrun
  obtain ⟨hdequeued, hnext⟩ := of_decide_eq_true hend
  exact ⟨s, hdequeued, hnext, wfcq_correct (reachable_of_runOk hs)⟩

end WfcQueue
