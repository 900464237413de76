import PrototypeKernel.WfcQueue.Invariant

/-! # The steps of the queues

Each step of a call keeps the invariant, and makes the event that it stands for. -/

namespace WfcQueue

open ListFamily

variable {Q N T : Type*} [DecidableEq Q] [DecidableEq N] [DecidableEq T] {s s' : State Q N T}
  {a a' : Queues Q N T} {t : T} {p : Ptr Q N} {q : Q} {n x : N} {pc : Pc Q N}

/-- The replay goes on with an event that is logged. -/
theorem Inv.replay_emit (h : Inv s a) {e : Event Q N T} (happly : a.apply e = some a') :
    replay (s.log ++ [e]) = some a' := by
  rw [replay_concat, h.history]
  exact happly

/-- The links of the other threads, after a step that stores none. -/
theorem Inv.link_of_ne (h : Inv s a) (hothers : ∀ t', t' ≠ t → s'.call t' = s.call t')
    (hadj : Adj a.place p n) (hnext : s'.next p = s.next p)
    (hown : (s.call t).owes = some (p, n) → (s'.call t).owes = some (p, n)) :
    s'.next p = some n ∨ ∃ t, (s'.call t).owes = some (p, n) := by
  rcases h.link p n hadj with heq | ⟨t', howes⟩
  · exact .inl (hnext.trans heq)
  · refine .inr ⟨t', ?_⟩
    by_cases ht : t' = t
    · rw [ht] at howes ⊢
      exact hown howes
    · rwa [hothers t' ht]

/-! ## Steps that store nothing -/

/-- A step that changes neither the memory nor the places keeps the invariant. -/
theorem Inv.quiet (h : Inv s a) (hnext : s'.next = s.next) (htail : s'.tail = s.tail)
    (hcalls : s'.call = Function.update s.call t pc) (hhistory : replay s'.log = some a)
    (hkeeps : ∀ p n, (s.call t).owes = some (p, n) → pc.owes = some (p, n))
    (howes : ∀ p n, pc.owes = some (p, n) → Adj a.place p n ∧
      (s.next p = none ∨ s.next p = some n ∧ ∃ q, pc.dequeues = some q ∧ p = .head q))
    (hunique : ∀ p n, pc.owes = some (p, n) →
      ∀ t', t' ≠ t → ∀ n', (s.call t').owes ≠ some (p, n'))
    (hrun : pc.appending = false → a.place (.run t) = [])
    (hcall : CallOk s a t pc) : Inv s' a := by
  have hself : s'.call t = pc := by rw [hcalls, Function.update_self]
  have hothers : ∀ t', t' ≠ t → s'.call t' = s.call t' := fun t' ht => by
    rw [hcalls, Function.update_of_ne ht]
  have hf : Frame s a t s' a :=
    { call := hothers
      run := fun _ _ => rfl
      found := fun _ _ => rfl
      queue := fun _ _ _ _ => List.prefix_rfl
      owes := fun t' _ p n hp => ⟨(h.owes t' p n hp).1, by rw [hnext]⟩
      reads := fun _ _ _ _ => by rw [hnext] }
  refine h.frame hf hhistory (fun q => by rw [htail]; exact h.tail q) ?_ ?_ ?_ ?_ ?_ ?_
  · intro p n hadj
    refine h.link_of_ne hothers hadj (by rw [hnext]) fun hown => ?_
    rw [hself]
    exact hkeeps p n hown
  · rw [hnext]
    exact h.last
  · rw [hself, hnext]
    exact howes
  · rw [hself]
    exact hunique
  · rw [hself]
    exact hrun
  · rw [hself]
    exact hcall.mono rfl rfl (fun _ _ => List.prefix_rfl) fun _ _ => by rw [hnext]

/-- A step to a place that owes nothing. -/
theorem Inv.quiet_idle (h : Inv s a) (hnext : s'.next = s.next) (htail : s'.tail = s.tail)
    (hcalls : s'.call = Function.update s.call t pc) (hhistory : replay s'.log = some a)
    (hfrom : (s.call t).owes = none) (hto : pc.owes = none) (hrun : (s.call t).appending = false)
    (hcall : CallOk s a t pc) : Inv s' a := by
  refine h.quiet hnext htail hcalls hhistory ?_ ?_ ?_ (fun _ => h.run t hrun) hcall
  · rw [hfrom]
    rintro p n ⟨⟩
  · rw [hto]
    rintro p n ⟨⟩
  · rw [hto]
    rintro p n ⟨⟩

/-- A thread that is not a dequeue of `q` owes no link that the head of `q` has. -/
theorem Inv.not_owes_head (h : Inv s a) {t' : T} (hnext : s.next (.head q) = some x)
    (hexcl : (s.call t').dequeues ≠ some q) (n' : N) : (s.call t').owes ≠ some (.head q, n') := by
  intro howes
  obtain ⟨q', hq', heq⟩ := h.dequeues_of_owes howes hnext
  cases heq
  exact hexcl hq'

/-- The first node of a queue is the one that its head leads to. -/
theorem Inv.head_of_next (h : Inv s a) (hnext : s.next (.head q) = some n) :
    (a.place (.queue q)).head? = some n := h.adj_of_next (p := .head q) trivial hnext

/-- A turn of a call keeps the invariant. -/
theorem Inv.turn (h : Inv s a) (hsync : Sync s) {pc' : Pc Q N} (hpc : s.call t = pc)
    (hturn : Turn s pc pc') : Inv (s.goto t pc') a := by
  have hcall := h.call t
  rw [hpc] at hcall
  have hquiet : pc.owes = none → pc'.owes = none → pc.appending = false → CallOk s a t pc' →
      Inv (s.goto t pc') a := fun hfrom hto hrun hcall' =>
    h.quiet_idle rfl rfl rfl h.history (hpc ▸ hfrom) hto (hpc ▸ hrun) hcall'
  cases hturn with
  | confirm hnext => exact hquiet rfl rfl rfl trivial
  | nonEmpty hnext => exact hquiet rfl rfl rfl trivial
  | pending htail => exact hquiet rfl rfl rfl trivial
  | first hnext => exact hquiet rfl rfl rfl hnext
  | alone hnext => exact hquiet rfl rfl rfl hcall
  | @second q n x hnext =>
    -- from here on the dequeue answers for the link of the head
    refine h.quiet rfl rfl rfl h.history ?_ ?_ ?_ ?_ hnext
    · rw [hpc]
      rintro p n ⟨⟩
    · rintro p n ⟨⟩
      exact ⟨h.head_of_next hcall, .inr ⟨hcall, q, rfl, rfl⟩⟩
    · rintro p n ⟨⟩ t' ht
      exact h.not_owes_head hcall (hsync t t' q (hpc ▸ rfl) ht).1
    · exact fun _ => h.run t (hpc ▸ rfl)
  | @raced q n htail =>
    have howes : (s.call t).owes = some (.head q, n) := hpc ▸ rfl
    refine h.quiet rfl rfl rfl h.history ?_ ?_ ?_ (fun _ => h.run t (hpc ▸ rfl)) ?_
    · rw [hpc]
      exact fun _ _ hown => hown
    · rintro p n ⟨⟩
      exact ⟨(h.owes t _ _ howes).1, .inl hcall⟩
    · rintro p n ⟨⟩ t' ht n' howes'
      exact ht (h.unique t' t _ _ _ howes' howes)
    · -- the node is the first one, and not the last one
      obtain ⟨rest, hrest⟩ := List.head?_eq_some_iff.mp (h.owes t _ _ howes).1
      rw [h.tail q, hrest] at htail
      cases rest with
      | nil => exact absurd rfl htail
      | cons x rest => exact ⟨x, rest, hrest.symm⟩
  | @synced q n x hnext =>
    have howes : (s.call t).owes = some (.head q, n) := hpc ▸ rfl
    refine h.quiet rfl rfl rfl h.history ?_ ?_ ?_ (fun _ => h.run t (hpc ▸ rfl)) hnext
    · rw [hpc]
      exact fun _ _ hown => hown
    · rintro p n ⟨⟩
      obtain ⟨hadj, hor⟩ := h.owes t _ _ howes
      exact ⟨hadj, hor.imp id fun hor => ⟨hor.1, q, rfl, rfl⟩⟩
    · rintro p n ⟨⟩ t' ht n' howes'
      exact ht (h.unique t' t _ _ _ howes' howes)
  | confirmSrc hnext => exact hquiet rfl rfl rfl trivial
  | nonEmptySrc hnext => exact hquiet rfl rfl rfl trivial
  | pendingSrc htail => exact hquiet rfl rfl rfl trivial
  | check hnext => exact hquiet rfl rfl rfl trivial
  | again htail => exact hquiet rfl rfl rfl trivial

/-- A queue whose tail is its head is empty. -/
theorem Inv.empty_of_tail (h : Inv s a) (htail : s.tail q = .head q) : a.place (.queue q) = [] :=
  endOf_eq_head.mp ((h.tail q).symm.trans htail)

/-- A dequeue returns `NULL` from an empty queue. -/
theorem Inv.null (h : Inv s a) (hpc : s.call t = .dequeueTail q) (htail : s.tail q = .head q) :
    Inv ((s.emit (.dequeueRet t q none)).goto t .idle) a :=
  h.quiet_idle rfl rfl rfl (h.replay_emit (if_pos (h.empty_of_tail htail))) (hpc ▸ rfl) rfl
    (hpc ▸ rfl) trivial

/-- A splice that finds its source empty keeps the invariant and returns. -/
theorem Inv.srcEmpty (h : Inv s a) {dest src : Q}
    (hpc : s.call t = .spliceTail dest src ∨ s.call t = .spliceCheck dest src)
    (htail : s.tail src = .head src) :
    Inv ((s.emit (.spliceRet t src .srcEmpty)).goto t .idle) a := by
  refine h.quiet_idle rfl rfl rfl (h.replay_emit (if_pos (h.empty_of_tail htail))) ?_ rfl ?_ trivial
  · rcases hpc with hpc | hpc <;> rw [hpc] <;> rfl
  · rcases hpc with hpc | hpc <;> rw [hpc] <;> rfl

/-! ## The append -/

/-- **The exchange of a tail** appends what the thread has brought. -/
theorem Inv.append (h : Inv s a) (hapart : Apart a.place) {src : Option Q} {newHead : N}
    {newTail : Ptr Q N} (hpc : s.call t = .append src q newHead newTail) :
    Inv (((s.setTail q newTail).emit (.append t q)).goto t (.link src q (s.tail q) newHead))
      ⟨move a.place (.run t) (.queue q),
        Function.update a.found t (a.place (.queue q) ≠ [])⟩ := by
  have hcall := h.call t
  rw [hpc] at hcall
  obtain ⟨hhead, m, hlast, rfl⟩ := hcall
  have hnone : ∀ n, ¬Adj a.place (s.tail q) n := fun n => h.tail q ▸ not_adj_endOf hapart
  have htarget : move a.place (.run t) (.queue q) (.queue q) =
      a.place (.queue q) ++ a.place (.run t) := move_target (by rintro ⟨⟩)
  have hsame : ∀ q', q' ≠ q →
      move a.place (.run t) (.queue q) (.queue q') = a.place (.queue q') := fun q' hq =>
    move_of_ne (by rintro ⟨⟩) (by rintro ⟨⟩; exact hq rfl)
  have hf : Frame s a t
      (((s.setTail q (.node m)).emit (.append t q)).goto t (.link src q (s.tail q) newHead))
      ⟨move a.place (.run t) (.queue q), Function.update a.found t (a.place (.queue q) ≠ [])⟩ :=
    { call := fun t' => goto_call_of_ne
      run := fun t' ht => move_of_ne (by rintro ⟨⟩; exact ht rfl) (by rintro ⟨⟩)
      found := fun t' ht => Function.update_of_ne ht ..
      queue := fun t' _ q' _ => by
        show a.place (.queue q') <+: move a.place (.run t) (.queue q) (.queue q')
        by_cases hq : q' = q
        · rw [hq, htarget]
          exact List.prefix_append ..
        · rw [hsame q' hq]
      owes := fun t' _ p n hp => ⟨adj_append.mpr (.inl (h.owes t' p n hp).1), rfl⟩
      reads := fun _ _ _ _ => rfl }
  refine h.frame hf (h.replay_emit rfl) ?_ ?_ ?_ ?_ ?_ ?_ ?_
  · intro q'
    show Function.update s.tail q (.node m) q' =
      endOf q' (move a.place (.run t) (.queue q) (.queue q'))
    by_cases hq : q' = q
    · have hne : a.place (.run t) ≠ [] := fun heq => by
        rw [heq] at hhead
        cases hhead
      rw [hq, htarget, endOf_append hne, Function.update_self, endOf_eq_node.mpr hlast]
    · rw [hsame q' hq, Function.update_of_ne hq]
      exact h.tail q'
  · intro p n hadj
    rcases adj_append.mp hadj with hadj | ⟨rfl, hn⟩
    · refine h.link_of_ne hf.call hadj rfl fun hown => ?_
      rw [hpc] at hown
      cases hown
    · -- the new link is owed by this thread
      refine .inr ⟨t, ?_⟩
      rw [goto_call, ← h.tail q, Option.some.inj (hn.symm.trans hhead)]
      rfl
  · intro p hlive hno
    exact h.last p ((live_move (by rintro ⟨⟩) (by rintro ⟨⟩) (by rintro ⟨⟩)).mp hlive)
      fun n hadj => hno n (adj_append.mpr (.inl hadj))
  · rw [goto_call]
    rintro p n ⟨⟩
    exact ⟨adj_append.mpr (.inr ⟨h.tail q, hhead⟩), .inl (h.last _ (h.tail q ▸ live_endOf) hnone)⟩
  · rw [goto_call]
    rintro p n ⟨⟩ t' _ n' howes
    exact hnone n' (h.owes t' _ n' howes).1
  · exact fun _ => move_source
  · rw [goto_call]
    show Function.update a.found t (decide (a.place (.queue q) ≠ [])) t = true ↔ s.tail q ≠ .head q
    rw [Function.update_self, decide_eq_true_eq, h.tail q]
    exact endOf_eq_head.not.symm

/-- **The store of `old_tail->next`** makes the link that was owed. -/
theorem Inv.link_store (h : Inv s a) {src : Option Q} {oldTail : Ptr Q N} {newHead : N}
    (hpc : s.call t = .link src q oldTail newHead) :
    Inv (((s.setNext oldTail (some newHead)).emit (.ret t src (oldTail ≠ .head q))).goto t .idle)
      a := by
  have hcall := h.call t
  rw [hpc] at hcall
  have howes : (s.call t).owes = some (oldTail, newHead) := hpc ▸ rfl
  obtain ⟨hadj, hor⟩ := h.owes t _ _ howes
  have hnone : s.next oldTail = none := by
    rcases hor with hnone | ⟨-, q', hq', -⟩
    · exact hnone
    · rw [hpc] at hq'
      cases hq'
  have hnext : ∀ p, p ≠ oldTail → Function.update s.next oldTail (some newHead) p = s.next p :=
    fun p hp => Function.update_of_ne hp ..
  have hf : Frame s a t
      (((s.setNext oldTail (some newHead)).emit (.ret t src (oldTail ≠ .head q))).goto t .idle) a :=
    { call := fun t' => goto_call_of_ne
      run := fun _ _ => rfl
      found := fun _ _ => rfl
      queue := fun _ _ _ _ => List.prefix_rfl
      owes := fun t' ht p n hp =>
        ⟨(h.owes t' p n hp).1, hnext p fun heq => ht (h.unique t' t _ _ _ (heq ▸ hp) howes)⟩
      reads := fun t' ht p hp =>
        hnext p fun heq => h.not_reads_of_owes howes hnone ht (heq ▸ hp) }
  have happly : a.apply (.ret t src (oldTail ≠ .head q)) = some a := by
    have hfound : a.found t = decide (oldTail ≠ .head q) := by
      rw [Bool.eq_iff_iff, decide_eq_true_eq]
      exact hcall
    cases src with
    | none => exact if_pos hfound.symm
    | some src =>
      rw [← hfound]
      cases hfalse : a.found t with
      | false => exact if_pos hfalse
      | true => exact if_pos hfalse
  refine h.frame_of_owes_eq_none hf (congrArg Pc.owes goto_call) (h.replay_emit happly) h.tail
    ?_ ?_ ?_ ?_
  · intro p n hp
    by_cases heq : p = oldTail
    · -- the link is stored now
      refine .inl ?_
      have hn : newHead = n := by
        rcases h.link p n hp with hstored | ⟨t', howes'⟩
        · rw [heq, hnone] at hstored
          cases hstored
        · rw [heq] at howes'
          rw [h.unique t' t _ _ _ howes' howes, howes] at howes'
          cases howes'
          rfl
      rw [heq, ← hn]
      exact Function.update_self ..
    · refine h.link_of_ne hf.call hp (hnext p heq) fun hown => ?_
      rw [howes] at hown
      cases hown
      exact absurd rfl heq
  · intro p hlive hno
    have hne : p ≠ oldTail := fun heq => hno newHead (heq ▸ hadj)
    exact (hnext p hne).trans (h.last p hlive hno)
  · exact fun _ => h.run t (hpc ▸ rfl)
  · rw [goto_call]
    trivial

/-! ## The head of a queue is cleared -/

/-- **The head is cleared** by a thread that has loaded the first node and keeps the dequeues
out. -/
theorem Inv.clear (h : Inv s a) (hnext : s.next (.head q) = some n)
    (hexcl : ∀ t', t' ≠ t → (s.call t').dequeues ≠ some q) (hfrom : (s.call t).owes = none)
    (hto : pc.owes = some (.head q, n)) (hrun : a.place (.run t) = [])
    (hcall : CallOk (s.setNext (.head q) none) a t pc) :
    Inv ((s.setNext (.head q) none).goto t pc) a := by
  have hnext' : ∀ p, p ≠ .head q → Function.update s.next (.head q) none p = s.next p :=
    fun p hp => Function.update_of_ne hp ..
  have hfirst : Adj a.place (.head q) n := h.head_of_next hnext
  have hf : Frame s a t ((s.setNext (.head q) none).goto t pc) a :=
    { call := fun t' => goto_call_of_ne
      run := fun _ _ => rfl
      found := fun _ _ => rfl
      queue := fun _ _ _ _ => List.prefix_rfl
      owes := fun t' ht p n' hp => by
        refine ⟨(h.owes t' p n' hp).1, hnext' p ?_⟩
        rintro rfl
        exact h.not_owes_head hnext (hexcl t' ht) n' hp
      reads := fun t' ht p hp => by
        refine hnext' p ?_
        rintro rfl
        exact hexcl t' ht (Pc.dequeues_of_reads hp) }
  refine h.frame hf h.history h.tail ?_ ?_ ?_ ?_ (fun _ => hrun) ?_
  · intro p n' hp
    by_cases heq : p = .head q
    · -- the link is owed by this thread now
      rw [heq] at hp ⊢
      refine .inr ⟨t, ?_⟩
      rw [goto_call, hto, Option.some.inj (hfirst.symm.trans hp)]
    · refine h.link_of_ne hf.call hp (hnext' p heq) fun hown => ?_
      rw [hfrom] at hown
      cases hown
  · intro p hlive hno
    have hne : p ≠ .head q := fun heq => hno n (heq ▸ hfirst)
    exact (hnext' p hne).trans (h.last p hlive hno)
  · rw [goto_call, hto]
    rintro p n ⟨⟩
    exact ⟨hfirst, .inl (Function.update_self ..)⟩
  · rw [goto_call, hto]
    rintro p n ⟨⟩ t' ht n'
    exact h.not_owes_head hnext (hexcl t' ht) n'
  · rw [goto_call]
    exact hcall

/-! ## A node leaves its queue -/

/-- **The first node leaves a queue**: the head leads to the second one, or the queue is empty. -/
theorem Inv.dequeue (h : Inv s a) (hsync : Sync s) (hapart : Apart a.place)
    (hdequeues : (s.call t).dequeues = some q) (howes : (s.call t).owes = some (.head q, n))
    {rest : List N} (hfirst : a.place (.queue q) = n :: rest)
    (hcalls : s'.call = Function.update s.call t .idle)
    (hlog : s'.log = s.log ++ [.dequeueRet t q (some n)])
    (hhead : s'.next (.head q) = rest.head?) (hnext : ∀ p, p ≠ .head q → s'.next p = s.next p)
    (htail : s'.tail q = endOf q rest) (htails : ∀ q', q' ≠ q → s'.tail q' = s.tail q')
    (hnode : ∀ t', t' ≠ t → ∀ n', (s.call t').owes ≠ some (.node n, n'))
    (hrun : a.place (.run t) = [])
    (hreads : ∀ t', t' ≠ t → ∀ p, (s.call t').reads = some p → s'.next p = s.next p) :
    Inv s' { a with place := push (pop a.place (.queue q)) .out n } := by
  have hself : s'.call t = .idle := by rw [hcalls, Function.update_self]
  have hne : ∀ k : Place Q T, k ≠ .queue q → k ≠ .out →
      push (pop a.place (.queue q)) .out n k = a.place k := fun k => place_dequeue_of_ne
  have hf : Frame s a t s' { a with place := push (pop a.place (.queue q)) .out n } :=
    { call := fun t' ht => by rw [hcalls, Function.update_of_ne ht]
      run := fun t' _ => hne (.run t') (by rintro ⟨⟩) (by rintro ⟨⟩)
      found := fun _ _ => rfl
      queue := fun t' ht q' hq' => by
        have hqq : Place.queue q' ≠ (.queue q : Place Q T) := by
          rintro ⟨⟩
          exact (hsync t t' q hdequeues ht).1 hq'
        show _ <+: push (pop a.place (.queue q)) .out n (.queue q')
        rw [hne _ hqq (by rintro ⟨⟩)]
      owes := fun t' ht p n' hp => by
        have hp₁ : p ≠ .head q := fun heq => ht (h.unique t' t _ _ _ (heq ▸ hp) howes)
        have hp₂ : p ≠ .node n := fun heq => hnode t' ht n' (heq ▸ hp)
        exact ⟨adj_dequeue hfirst hp₁ hp₂ (h.owes t' p n' hp).1, hnext p hp₁⟩
      reads := hreads }
  have happly : a.apply (.dequeueRet t q (some n)) =
      some { a with place := push (pop a.place (.queue q)) .out n } :=
    if_pos (by rw [hfirst]; rfl)
  refine h.frame_of_owes_eq_none hf (congrArg Pc.owes hself) (hlog ▸ h.replay_emit happly)
    ?_ ?_ ?_ ?_ ?_
  · intro q'
    show s'.tail q' = endOf q' (push (pop a.place (.queue q)) .out n (.queue q'))
    by_cases hq : q' = q
    · rw [hq, place_dequeue_queue, hfirst, List.tail_cons]
      exact htail
    · rw [hne _ (by rintro ⟨⟩; exact hq rfl) (by rintro ⟨⟩), htails q' hq]
      exact h.tail q'
  · intro p x hp
    by_cases heq : p = .head q
    · rw [heq] at hp ⊢
      exact .inl (hhead.trans ((adj_dequeue_head hfirst).mp hp))
    · refine h.link_of_ne hf.call (adj_of_adj_dequeue hfirst heq hp) (hnext p heq) fun hown => ?_
      rw [howes] at hown
      cases hown
      exact absurd rfl heq
  · intro p hlive hno
    obtain ⟨hlive, hpn⟩ := live_of_live_dequeue hapart hfirst hlive
    by_cases heq : p = .head q
    · rw [heq] at hno ⊢
      rw [hhead, Option.eq_none_iff_forall_ne_some]
      exact fun x hx => hno x ((adj_dequeue_head hfirst).mpr hx)
    · rw [hnext p heq]
      exact h.last p hlive fun x hx => hno x (adj_dequeue hfirst heq hpn hx)
  · exact fun _ => (hne (.run t) (by rintro ⟨⟩) (by rintro ⟨⟩)).trans hrun
  · rw [hself]
    trivial

/-- **The `cmpxchg()` of a dequeue** takes the only node. -/
theorem Inv.cmpxchg (h : Inv s a) (hsync : Sync s) (hapart : Apart a.place)
    (hpc : s.call t = .dequeueCmpxchg q n) (htail : s.tail q = .node n) :
    Inv (((s.setTail q (.head q)).emit (.dequeueRet t q (some n))).goto t .idle)
      { a with place := push (pop a.place (.queue q)) .out n } := by
  have hcall := h.call t
  rw [hpc] at hcall
  have howes : (s.call t).owes = some (.head q, n) := hpc ▸ rfl
  obtain ⟨rest, hfirst⟩ := List.head?_eq_some_iff.mp (h.owes t _ _ howes).1
  have hlast : (a.place (.queue q)).getLast? = some n :=
    endOf_eq_node.mp ((h.tail q).symm.trans htail)
  have hrest : rest = [] := by
    cases rest with
    | nil => rfl
    | cons x rest =>
      rw [hfirst, List.getLast?_cons_cons] at hlast
      exact absurd (List.mem_of_getLast? hlast) (hapart.not_mem_tail hfirst)
  have hnode : ∀ x, ¬Adj a.place (.node n) x := fun x => by
    rw [← htail, h.tail q]
    exact not_adj_endOf hapart
  refine h.dequeue hsync hapart (hpc ▸ rfl) howes hfirst rfl rfl ?_ (fun _ _ => rfl) ?_
    (fun q' hq => Function.update_of_ne hq ..) (fun t' _ n' hp => hnode n' (h.owes t' _ _ hp).1)
    (h.run t (hpc ▸ rfl)) fun _ _ _ _ => rfl
  · rw [hrest]
    exact hcall
  · rw [hrest]
    exact Function.update_self ..

/-- **The last store of a dequeue** makes the head lead to the second node. -/
theorem Inv.store (h : Inv s a) (hsync : Sync s) (hapart : Apart a.place)
    (hpc : s.call t = .dequeueStore q n x) :
    Inv (((s.setNext (.head q) (some x)).emit (.dequeueRet t q (some n))).goto t .idle)
      { a with place := push (pop a.place (.queue q)) .out n } := by
  have hcall := h.call t
  rw [hpc] at hcall
  have howes : (s.call t).owes = some (.head q, n) := hpc ▸ rfl
  have hdequeues : (s.call t).dequeues = some q := hpc ▸ rfl
  obtain ⟨rest, hfirst⟩ := List.head?_eq_some_iff.mp (h.owes t _ _ howes).1
  have hmem : n ∈ a.place (.queue q) := by
    rw [hfirst]
    exact List.mem_cons_self ..
  have hsecond : rest.head? = some x := by
    obtain ⟨k, -, hpair⟩ := h.adj_of_next (p := .node n) ⟨.queue q, (by rintro ⟨⟩), hmem⟩ hcall
    rw [hapart.unique (pair_infix_mem hpair).1 hmem, hfirst, pair_infix_cons] at hpair
    rcases hpair with ⟨-, hpair⟩ | hpair
    · exact hpair
    · exact absurd (pair_infix_mem hpair).1 (hapart.not_mem_tail hfirst)
  have hnext : ∀ p, p ≠ .head q → Function.update s.next (.head q) (some x) p = s.next p :=
    fun p hp => Function.update_of_ne hp ..
  refine h.dequeue hsync hapart hdequeues howes hfirst rfl rfl ?_ hnext ?_ (fun _ _ => rfl) ?_
    (h.run t (hpc ▸ rfl)) ?_
  · exact (Function.update_self ..).trans hsecond.symm
  · obtain ⟨rest', rfl⟩ := List.head?_eq_some_iff.mp hsecond
    rw [← endOf_cons_cons (n := n), ← hfirst]
    exact h.tail q
  · intro t' _ n' hp
    obtain ⟨_, -, heq⟩ := h.dequeues_of_owes hp hcall
    cases heq
  · intro t' ht p hp
    refine hnext p ?_
    rintro rfl
    exact (hsync t t' q hdequeues ht).1 (Pc.dequeues_of_reads hp)

/-! ## The nodes of a queue are taken -/

/-- **The exchange of the tail of a source** takes all that the queue holds. -/
theorem Inv.take (h : Inv s a) (hsync : Sync s) {dest src : Q}
    (hpc : s.call t = .spliceTake dest src n) :
    Inv (((s.setTail src (.head src)).emit (.take t src)).goto t
        (.append (some src) dest n (s.tail src)))
      { a with place := move a.place (.queue src) (.run t) } := by
  have howes : (s.call t).owes = some (.head src, n) := hpc ▸ rfl
  have hrun : a.place (.run t) = [] := h.run t (hpc ▸ rfl)
  have hfirst : (a.place (.queue src)).head? = some n := (h.owes t _ _ howes).1
  have hnone : s.next (.head src) = none := by
    rcases (h.owes t _ _ howes).2 with hnone | ⟨-, q', hq', -⟩
    · exact hnone
    · rw [hpc] at hq'
      cases hq'
  have hexcl : ∀ t', t' ≠ t → (s.call t').dequeues ≠ some src := fun t' ht hq =>
    (hsync t' t src hq ht.symm).2 (hpc ▸ rfl)
  have hsource : move a.place (.queue src) (.run t) (.queue src) = [] := move_source
  have hsame : ∀ q', q' ≠ src →
      move a.place (.queue src) (.run t) (.queue q') = a.place (.queue q') := fun q' hq =>
    move_of_ne (by rintro ⟨⟩; exact hq rfl) (by rintro ⟨⟩)
  have hruns : ∀ t', t' ≠ t →
      move a.place (.queue src) (.run t) (.run t') = a.place (.run t') := fun t' ht =>
    move_of_ne (by rintro ⟨⟩) (by rintro ⟨⟩; exact ht rfl)
  have hbrought : move a.place (.queue src) (.run t) (.run t) = a.place (.queue src) := by
    rw [move_target (by rintro ⟨⟩), hrun, List.nil_append]
  have hf : Frame s a t (((s.setTail src (.head src)).emit (.take t src)).goto t
      (.append (some src) dest n (s.tail src)))
      { a with place := move a.place (.queue src) (.run t) } :=
    { call := fun t' => goto_call_of_ne
      run := hruns
      found := fun _ _ => rfl
      queue := fun t' ht q' hq' => by
        show _ <+: move a.place (.queue src) (.run t) (.queue q')
        rw [hsame q' fun heq => hexcl t' ht (heq ▸ hq')]
      owes := fun t' ht p n' hp => by
        have hne : p ≠ .head src := fun heq => ht (h.unique t' t _ _ _ (heq ▸ hp) howes)
        exact ⟨(adj_take hrun).mpr ⟨hne, (h.owes t' p n' hp).1⟩, rfl⟩
      reads := fun _ _ _ _ => rfl }
  refine h.frame_of_owes_eq_none hf (congrArg Pc.owes goto_call) (h.replay_emit rfl) ?_ ?_ ?_ ?_ ?_
  · intro q'
    show Function.update s.tail src (.head src) q' =
      endOf q' (move a.place (.queue src) (.run t) (.queue q'))
    by_cases hq : q' = src
    · rw [hq, hsource, Function.update_self, endOf_nil]
    · rw [hsame q' hq, Function.update_of_ne hq]
      exact h.tail q'
  · intro p x hp
    obtain ⟨hne, hp⟩ := (adj_take hrun).mp hp
    refine h.link_of_ne hf.call hp rfl fun hown => ?_
    rw [howes] at hown
    cases hown
    exact absurd rfl hne
  · intro p hlive hno
    have hlive := (live_move (by rintro ⟨⟩) (by rintro ⟨⟩) (by rintro ⟨⟩)).mp hlive
    by_cases heq : p = .head src
    · rw [heq]
      exact hnone
    · exact h.last p hlive fun x hx => hno x ((adj_take hrun).mpr ⟨heq, hx⟩)
  · rw [goto_call]
    rintro ⟨⟩
  · rw [goto_call]
    show (move a.place (.queue src) (.run t) (.run t)).head? = some n ∧
      ∃ m, (move a.place (.queue src) (.run t) (.run t)).getLast? = some m ∧ s.tail src = .node m
    rw [hbrought]
    obtain ⟨rest, hrest⟩ := List.head?_eq_some_iff.mp hfirst
    obtain ⟨m, hm⟩ : ∃ m, (a.place (.queue src)).getLast? = some m := by
      rw [hrest]
      exact ⟨_, List.getLast?_eq_some_getLast (List.cons_ne_nil n rest)⟩
    exact ⟨hfirst, m, hm, (h.tail src).trans (endOf_eq_node.mpr hm)⟩

/-! ## Calls start -/

/-- `wfcq_node_init()` of a node that is not enqueued. -/
theorem Inv.nodeInit (h : Inv s a) (hn : n ∉ enqueued s.log) :
    Inv (s.setNext (.node n) none) a := by
  have hlive : ∀ p, Live a.place p → p ≠ .node n := by
    rintro p hp rfl
    obtain ⟨k, -, hmem⟩ := hp
    exact hn ((mem_enqueued_iff h.history).mpr ⟨k, hmem⟩)
  have hnext : ∀ p, Live a.place p → Function.update s.next (.node n) none p = s.next p :=
    fun p hp => Function.update_of_ne (hlive p hp) ..
  refine
    { h with
      link := fun p x hp => ?_
      last := fun p hp hno => (hnext p hp).trans (h.last p hp hno)
      owes := fun t p x hp => ?_
      call := fun t => (h.call t).mono rfl rfl (fun _ _ => List.prefix_rfl) fun p hp => hnext p ?_ }
  · exact (h.link p x hp).imp (fun heq => (hnext p hp.live).trans heq) id
  · have hp' := h.owes t p x hp
    show _ ∧ (Function.update s.next (.node n) none p = none ∨
      Function.update s.next (.node n) none p = some x ∧ _)
    rwa [hnext p hp'.1.live]
  · -- what a call reads is a head, or the first node of a queue
    rcases Pc.reads_cases hp with ⟨q, -, rfl⟩ | ⟨q, m, x, hpc, rfl⟩
    · trivial
    · have howes : (s.call t).owes = some (.head q, m) := hpc ▸ rfl
      exact ⟨.queue q, (by rintro ⟨⟩), List.mem_of_head? (h.owes t _ _ howes).1⟩

/-- A call of `wfcq_enqueue()` brings a node. -/
theorem Inv.enqueue (h : Inv s a) (hidle : s.call t = .idle) (hnext : s.next (.node n) = none) :
    Inv ((s.emit (.enqueue t n)).goto t (.append none q n (.node n)))
      { a with place := push a.place (.run t) n } := by
  have hrun : a.place (.run t) = [] := h.run t (hidle ▸ rfl)
  have hsame : ∀ q', push a.place (.run t) n (.queue q') = a.place (.queue q') := fun q' =>
    push_of_ne (by rintro ⟨⟩)
  have hbrought : push a.place (.run t) n (.run t) = [n] := by
    rw [push_self, hrun, List.nil_append]
  have hf : Frame s a t ((s.emit (.enqueue t n)).goto t (.append none q n (.node n)))
      { a with place := push a.place (.run t) n } :=
    { call := fun t' => goto_call_of_ne
      run := fun t' ht => push_of_ne (by rintro ⟨⟩; exact ht rfl)
      found := fun _ _ => rfl
      queue := fun _ _ q' _ => by
        show _ <+: push a.place (.run t) n (.queue q')
        rw [hsame]
      owes := fun t' _ p n' hp => ⟨(adj_push hrun).mpr (h.owes t' p n' hp).1, rfl⟩
      reads := fun _ _ _ _ => rfl }
  refine h.frame_of_owes_eq_none hf (congrArg Pc.owes goto_call) (h.replay_emit rfl) ?_ ?_ ?_ ?_ ?_
  · intro q'
    show s.tail q' = endOf q' (push a.place (.run t) n (.queue q'))
    rw [hsame]
    exact h.tail q'
  · intro p x hp
    refine h.link_of_ne hf.call ((adj_push hrun).mp hp) rfl fun hown => ?_
    rw [hidle] at hown
    cases hown
  · intro p hlive hno
    rcases live_push.mp hlive with hlive | rfl
    · exact h.last p hlive fun x hx => hno x ((adj_push hrun).mpr hx)
    · exact hnext
  · rw [goto_call]
    rintro ⟨⟩
  · rw [goto_call]
    show (push a.place (.run t) n (.run t)).head? = some n ∧
      ∃ m, (push a.place (.run t) n (.run t)).getLast? = some m ∧ Ptr.node n = Ptr.node m
    rw [hbrought]
    exact ⟨rfl, n, rfl, rfl⟩

/-! ## Every step -/

/-- **Every move keeps the invariant.** -/
theorem Inv.move (h : Inv s a) (hsync : Sync s) (hapart : Apart a.place) (hs : Move s t s') :
    ∃ a', Inv s' a' := by
  cases hs with
  | wait => exact ⟨a, h⟩
  | turn hpc hturn => exact ⟨a, h.turn hsync hpc hturn⟩
  | append hpc => exact ⟨_, h.append hapart hpc⟩
  | link hpc => exact ⟨a, h.link_store hpc⟩
  | null hpc htail => exact ⟨a, h.null hpc htail⟩
  | @init q n hpc =>
    have hcall := h.call t
    rw [hpc] at hcall
    exact ⟨a, h.clear hcall (fun t' ht => (hsync t t' q (hpc ▸ rfl) ht).1) (hpc ▸ rfl) rfl
      (h.run t (hpc ▸ rfl)) (Function.update_self ..)⟩
  | cmpxchg hpc htail => exact ⟨_, h.cmpxchg hsync hapart hpc htail⟩
  | store hpc => exact ⟨_, h.store hsync hapart hpc⟩
  | srcEmpty hpc htail => exact ⟨a, h.srcEmpty hpc htail⟩
  | @xchg dest src n hpc hnext =>
    have hexcl : ∀ t', t' ≠ t → (s.call t').dequeues ≠ some src := fun t' ht hq =>
      (hsync t' t src hq ht.symm).2 (hpc ▸ rfl)
    exact ⟨a, h.clear hnext hexcl (hpc ▸ rfl) rfl (h.run t (hpc ▸ rfl)) trivial⟩
  | take hpc => exact ⟨_, h.take hsync hpc⟩

/-- **Every step that the callers may take keeps the invariant.** -/
theorem Inv.step (h : Inv s a) (hsync : Sync s) (hapart : Apart a.place) {act : Action Q N T}
    (hok : ok s act) (hs : step s act = some s') : ∃ a', Inv s' a' := by
  cases taken_of_step hs with
  | nodeInit n => exact ⟨a, h.nodeInit hok⟩
  | enqueue q n hidle => exact ⟨_, h.enqueue hidle hok.2⟩
  | dequeue q hidle =>
    exact ⟨a, h.quiet_idle rfl rfl rfl h.history (hidle ▸ rfl) rfl (hidle ▸ rfl) trivial⟩
  | splice dest src hidle =>
    exact ⟨a, h.quiet_idle rfl rfl rfl h.history (hidle ▸ rfl) rfl (hidle ▸ rfl) trivial⟩
  | run hmove => exact h.move hsync hapart hmove

/-- The queues after `wfcq_init()`. -/
theorem inv_start (memory : N → Option N) : Inv (start memory : State Q N T) .init where
  history := rfl
  tail _ := rfl
  link p n hadj := by
    cases p with
    | head q => cases hadj
    | node m =>
      obtain ⟨k, -, h⟩ := hadj
      exact absurd h not_pair_infix_nil
  last p hlive _ := by
    cases p with
    | head q => rfl
    | node m =>
      obtain ⟨k, -, h⟩ := hlive
      cases h
  owes t p n h := by cases h
  unique t t' p n n' h := by cases h
  run _ _ := rfl
  call _ := trivial

end WfcQueue
