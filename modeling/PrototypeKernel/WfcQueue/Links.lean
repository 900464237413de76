import PrototypeKernel.WfcQueue.Spec

/-! # The links of the queues

What the `next` pointers have to be for the nodes to be where the events put them, and how the
events change that. -/

namespace WfcQueue

open ListFamily

variable {Q N T : Type*}

/-- The last of the nodes `l` in the queue `q`, or its head. -/
def endOf (q : Q) (l : List N) : Ptr Q N := l.getLast?.elim (.head q) .node

/-- `n` comes after `p` in a queue, or among the nodes that a thread is about to append. -/
def Adj (place : Place Q T → List N) : Ptr Q N → N → Prop
  | .head q, n => (place (.queue q)).head? = some n
  | .node m, n => ∃ k, k ≠ .out ∧ [m, n] <:+: place k

/-- `p` is the head of a queue, or a node that is not dequeued. -/
def Live (place : Place Q T → List N) : Ptr Q N → Prop
  | .head _ => True
  | .node m => ∃ k, k ≠ .out ∧ m ∈ place k

variable {place : Place Q T → List N} {p : Ptr Q N} {q : Q} {t : T} {n x : N} {l rest : List N}

/-- The end of an empty queue is its head. -/
theorem endOf_nil : endOf q ([] : List N) = .head q := rfl

/-- The end of a queue is its head when it is empty. -/
theorem endOf_eq_head : endOf q l = .head q ↔ l = [] := by
  cases h : l.getLast? with
  | none => simp [endOf, List.getLast?_eq_none_iff.mp h]
  | some m =>
    rw [endOf, h]
    exact iff_of_false (fun heq => by cases heq) fun heq => by rw [heq] at h; cases h

/-- The end of a queue is its last node. -/
theorem endOf_eq_node : endOf q l = .node n ↔ l.getLast? = some n := by
  cases h : l.getLast? with
  | none =>
    rw [endOf, h]
    exact iff_of_false (fun heq => by cases heq) fun heq => by cases heq
  | some m => simp [endOf, h]

/-- The end of a queue is the end of its last part. -/
theorem endOf_append (h : l ≠ []) (l' : List N) : endOf q (l' ++ l) = endOf q l := by
  rw [endOf, endOf, List.getLast?_append_of_ne_nil _ h]

/-- Behind the first node the end is that of the others. -/
theorem endOf_cons_cons : endOf q (n :: x :: l) = endOf q (x :: l) := by
  rw [endOf, endOf, List.getLast?_cons_cons]

/-- A pointer with a node behind it is live. -/
theorem Adj.live (h : Adj place p x) : Live place p := by
  cases p with
  | head q => trivial
  | node m =>
    obtain ⟨k, hk, h⟩ := h
    exact ⟨k, hk, (pair_infix_mem h).1⟩

/-- Nothing comes after the last node of a queue. -/
theorem not_adj_endOf (hapart : Apart place) : ¬Adj place (endOf q (place (.queue q))) x := by
  cases hlast : (place (.queue q)).getLast? with
  | none =>
    rw [endOf, hlast]
    show (place (.queue q)).head? ≠ some x
    rw [List.getLast?_eq_none_iff.mp hlast]
    rintro ⟨⟩
  | some m =>
    rw [endOf, hlast]
    rintro ⟨k, -, h⟩
    have hk : k = .queue q := hapart.unique (pair_infix_mem h).1 (List.mem_of_getLast? hlast)
    exact not_pair_infix_of_getLast? (hapart.nodup _) hlast (hk ▸ h)

/-- The end of a queue is live. -/
theorem live_endOf : Live place (endOf q (place (.queue q))) := by
  cases h : (place (.queue q)).getLast? with
  | none =>
    rw [endOf, h]
    trivial
  | some m =>
    rw [endOf, h]
    exact ⟨.queue q, (by rintro ⟨⟩), List.mem_of_getLast? h⟩

/-- The links of a queue, read in order. -/
theorem adj_split {pre : List N} (h : place (.queue q) = pre ++ n :: l) :
    Adj place (endOf q pre) n := by
  cases hlast : pre.getLast? with
  | none =>
    rw [endOf, hlast]
    rw [List.getLast?_eq_none_iff.mp hlast] at h
    show (place (.queue q)).head? = some n
    rw [h]
    rfl
  | some m =>
    rw [endOf, hlast]
    refine ⟨.queue q, (by rintro ⟨⟩), ?_⟩
    rw [h, pair_infix_append]
    exact .inr (.inr ⟨hlast, rfl⟩)

variable [DecidableEq Q] [DecidableEq T]

/-! ## A node is brought -/

/-- A node that is alone in its run leaves what comes after what. -/
theorem adj_push (hrun : place (.run t) = []) :
    Adj (push place (.run t) n) p x ↔ Adj place p x := by
  cases p with
  | head q =>
    show (push place (.run t) n (.queue q)).head? = some x ↔ _
    rw [push_of_ne (by rintro ⟨⟩)]
    rfl
  | node m =>
    refine exists_congr fun k => and_congr Iff.rfl ?_
    by_cases hk : k = .run t
    · rw [hk, push_self, hrun]
      simp [pair_infix_cons]
    · rw [push_of_ne hk]

/-- A node that a thread is about to append is live. -/
theorem live_push : Live (push place (.run t) n) p ↔ Live place p ∨ p = .node n := by
  cases p with
  | head q => simp [Live]
  | node m =>
    constructor
    · rintro ⟨k, hk, hm⟩
      rcases mem_push.mp hm with hm | ⟨-, rfl⟩
      · exact .inl ⟨k, hk, hm⟩
      · exact .inr rfl
    · rintro (⟨k, hk, hm⟩ | heq)
      · exact ⟨k, hk, mem_push.mpr (.inl hm)⟩
      · cases heq
        exact ⟨.run t, (by rintro ⟨⟩), mem_push.mpr (.inr ⟨rfl, rfl⟩)⟩

/-! ## Nodes move -/

/-- Moving the nodes of a place leaves the live pointers. -/
theorem live_move {i j : Place Q T} (hij : j ≠ i) (hi : i ≠ .out) (hj : j ≠ .out) :
    Live (move place i j) p ↔ Live place p := by
  cases p with
  | head q => exact Iff.rfl
  | node m =>
    constructor
    · rintro ⟨k, hk, hm⟩
      obtain ⟨-, hm | ⟨-, hm⟩⟩ := (mem_move hij).mp hm
      · exact ⟨k, hk, hm⟩
      · exact ⟨i, hi, hm⟩
    · rintro ⟨k, hk, hm⟩
      by_cases hki : k = i
      · exact ⟨j, hj, (mem_move hij).mpr ⟨hij, .inr ⟨rfl, hki ▸ hm⟩⟩⟩
      · exact ⟨k, hk, (mem_move hij).mpr ⟨hki, .inl hm⟩⟩

/-- **The links after an append**: the link from the old end is new. -/
theorem adj_append : Adj (move place (.run t) (.queue q)) p x ↔
    Adj place p x ∨ p = endOf q (place (.queue q)) ∧ (place (.run t)).head? = some x := by
  cases p with
  | head q' =>
    show (move place (.run t) (.queue q) (.queue q')).head? = some x ↔
      (place (.queue q')).head? = some x ∨ _
    by_cases hq : q' = q
    · rw [hq, move_target (by rintro ⟨⟩), List.head?_append, eq_comm (a := Ptr.head q),
        endOf_eq_head]
      cases place (.queue q) <;> simp
    · rw [move_of_ne (by rintro ⟨⟩) (by rintro ⟨⟩; exact hq rfl)]
      refine (or_iff_left ?_).symm
      rintro ⟨heq, -⟩
      cases h : (place (.queue q)).getLast? <;> rw [endOf, h] at heq <;> cases heq
      exact hq rfl
  | node m =>
    rw [eq_comm (a := Ptr.node m), endOf_eq_node]
    exact exists_pair_infix_move (by rintro ⟨⟩) (by rintro ⟨⟩) (by rintro ⟨⟩)

/-- **The links after the nodes of a source are taken**: the link from its head is gone. -/
theorem adj_take (hrun : place (.run t) = []) :
    Adj (move place (.queue q) (.run t)) p x ↔ p ≠ .head q ∧ Adj place p x := by
  cases p with
  | head q' =>
    show (move place (.queue q) (.run t) (.queue q')).head? = some x ↔ _
    by_cases hq : q' = q
    · rw [hq, move_source]
      simp
    · rw [move_of_ne (by rintro ⟨⟩; exact hq rfl) (by rintro ⟨⟩)]
      exact (and_iff_right fun heq => hq (Ptr.head.inj heq)).symm
  | node m =>
    refine (exists_pair_infix_move (by rintro ⟨⟩) (by rintro ⟨⟩) (by rintro ⟨⟩)).trans ?_
    simp [hrun, Adj]

/-! ## A node leaves -/

/-- A dequeue takes the first node of its queue. -/
theorem place_dequeue_queue :
    push (pop place (.queue q)) .out n (.queue q) = (place (.queue q)).tail := by
  rw [push_of_ne (by rintro ⟨⟩), pop_self]

/-- A dequeue leaves the other places. -/
theorem place_dequeue_of_ne {k : Place Q T} (hq : k ≠ .queue q) (hout : k ≠ .out) :
    push (pop place (.queue q)) .out n k = place k := by
  rw [push_of_ne hout, pop_of_ne hq]

/-- **The links after a dequeue**: the head takes over the link of the node that leaves. -/
theorem adj_dequeue_head (hfirst : place (.queue q) = n :: rest) :
    Adj (push (pop place (.queue q)) .out n) (.head q) x ↔ rest.head? = some x := by
  show (push (pop place (.queue q)) .out n (.queue q)).head? = some x ↔ _
  rw [place_dequeue_queue, hfirst, List.tail_cons]

/-- A dequeue leaves the heads of the other queues. -/
theorem adj_dequeue_head_of_ne {q' : Q} (hq : (.head q' : Ptr Q N) ≠ .head q) :
    Adj (push (pop place (.queue q)) .out n) (.head q') x ↔ Adj place (.head q') x := by
  have hne : Place.queue q' ≠ (.queue q : Place Q T) := by
    rintro ⟨⟩
    exact hq rfl
  rw [Adj, Adj, place_dequeue_of_ne hne (by rintro ⟨⟩)]

/-- After a dequeue, nodes behind other pointers were behind them before. -/
theorem adj_of_adj_dequeue (hfirst : place (.queue q) = n :: rest) (hp : p ≠ .head q)
    (h : Adj (push (pop place (.queue q)) .out n) p x) : Adj place p x := by
  cases p with
  | head q' => exact (adj_dequeue_head_of_ne hp).mp h
  | node m =>
    obtain ⟨k, hk, h⟩ := h
    refine ⟨k, hk, ?_⟩
    by_cases hq : k = .queue q
    · rw [hq, place_dequeue_queue, hfirst, List.tail_cons] at h
      rw [hq, hfirst, pair_infix_cons]
      exact .inr h
    · rwa [place_dequeue_of_ne hq hk] at h

/-- A dequeue leaves what is behind other pointers than the head and the node. -/
theorem adj_dequeue (hfirst : place (.queue q) = n :: rest) (hp : p ≠ .head q) (hn : p ≠ .node n)
    (h : Adj place p x) : Adj (push (pop place (.queue q)) .out n) p x := by
  cases p with
  | head q' => exact (adj_dequeue_head_of_ne hp).mpr h
  | node m =>
    obtain ⟨k, hk, h⟩ := h
    refine ⟨k, hk, ?_⟩
    by_cases hq : k = .queue q
    · rw [hq, hfirst, pair_infix_cons] at h
      rw [hq, place_dequeue_queue, hfirst, List.tail_cons]
      exact h.resolve_left fun heq => hn (congrArg Ptr.node heq.1)
    · rwa [place_dequeue_of_ne hq hk]

/-- After a dequeue the node is no longer live, and nothing else has become so. -/
theorem live_of_live_dequeue (hapart : Apart place) (hfirst : place (.queue q) = n :: rest)
    (h : Live (push (pop place (.queue q)) .out n) p) : Live place p ∧ p ≠ .node n := by
  cases p with
  | head q' => exact ⟨trivial, by rintro ⟨⟩⟩
  | node m =>
    obtain ⟨k, hk, hm⟩ := h
    rw [push_of_ne hk] at hm
    obtain ⟨hm, hne⟩ := (hapart.mem_pop hfirst).mp hm
    exact ⟨⟨k, hk, hm⟩, fun heq => hne (Ptr.node.inj heq)⟩

end WfcQueue
