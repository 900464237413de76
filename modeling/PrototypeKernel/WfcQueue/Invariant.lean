import PrototypeKernel.WfcQueue.Links
import PrototypeKernel.WfcQueue.Moves

/-! # The invariant of the queues

Between the exchange of a tail and the store of `next` a link is missing, and so is the link of a
head while a dequeue or a splice holds what it loaded from there. Each missing link is owed by one
thread. -/

namespace WfcQueue

open ListFamily

variable {Q N T : Type*}

/-- The link that a call is about to store. A dequeue or a splice that took the link of a head
answers for it until it stores another one or changes the tail. -/
def Pc.owes : Pc Q N → Option (Ptr Q N × N)
  | .link _ _ oldTail newHead => some (oldTail, newHead)
  | .dequeueCmpxchg q n | .dequeueSync q n | .dequeueStore q n _ => some (.head q, n)
  | .spliceTake _ src n => some (.head src, n)
  | _ => none

/-- The field `next` that has to stay as the call found it. -/
def Pc.reads : Pc Q N → Option (Ptr Q N)
  | .dequeueNext q _ | .dequeueInit q _ | .dequeueCmpxchg q _ => some (.head q)
  | .dequeueStore _ n _ => some (.node n)
  | _ => none

/-- The call is about to exchange the tail in `__wfcq_append()`. -/
def Pc.appending : Pc Q N → Bool
  | .append .. => true
  | _ => false

/-- What is known of the locals of a call of `t`. -/
def CallOk (s : State Q N T) (a : Queues Q N T) (t : T) : Pc Q N → Prop
  | .append _ _ newHead newTail => (a.place (.run t)).head? = some newHead ∧
      ∃ m, (a.place (.run t)).getLast? = some m ∧ newTail = .node m
  | .link _ q oldTail _ => a.found t = true ↔ oldTail ≠ .head q
  | .dequeueNext q n | .dequeueInit q n => s.next (.head q) = some n
  | .dequeueCmpxchg q _ => s.next (.head q) = none
  | .dequeueSync q n => ∃ x, [n, x] <+: a.place (.queue q)
  | .dequeueStore _ n x => s.next (.node n) = some x
  | _ => True

variable {s s' : State Q N T} {a a' : Queues Q N T} {t t' : T} {p : Ptr Q N} {q : Q} {n x : N}

/-- A dequeue reads the head of its queue, or the node that it returns. -/
theorem Pc.reads_cases {pc : Pc Q N} (h : pc.reads = some p) :
    (∃ q, pc.dequeues = some q ∧ p = .head q) ∨
      ∃ q n x, pc = .dequeueStore q n x ∧ p = .node n := by
  cases pc <;> cases h
  · exact .inl ⟨_, rfl, rfl⟩
  · exact .inl ⟨_, rfl, rfl⟩
  · exact .inl ⟨_, rfl, rfl⟩
  · exact .inr ⟨_, _, _, rfl, rfl⟩

/-- A call that reads the head of a queue dequeues from it. -/
theorem Pc.dequeues_of_reads {pc : Pc Q N} (h : pc.reads = some (.head q)) :
    pc.dequeues = some q := by
  cases pc <;> cases h <;> rfl

/-- What is known of a call stays true when its queue grows and what it reads is left. -/
theorem CallOk.mono {pc : Pc Q N} (h : CallOk s a t pc)
    (hrun : a'.place (.run t) = a.place (.run t)) (hfound : a'.found t = a.found t)
    (hqueue : ∀ q, pc.dequeues = some q → a.place (.queue q) <+: a'.place (.queue q))
    (hreads : ∀ p, pc.reads = some p → s'.next p = s.next p) : CallOk s' a' t pc := by
  cases pc with
  | append src q newHead newTail => rwa [CallOk, hrun]
  | link src q oldTail newHead => rwa [CallOk, hfound]
  | dequeueNext q n => exact (hreads _ rfl).trans h
  | dequeueInit q n => exact (hreads _ rfl).trans h
  | dequeueCmpxchg q n => exact (hreads _ rfl).trans h
  | dequeueSync q n =>
    obtain ⟨x, hx⟩ := h
    exact ⟨x, hx.trans (hqueue q rfl)⟩
  | dequeueStore q n x => exact (hreads _ rfl).trans h
  | _ => trivial

variable [DecidableEq Q] [DecidableEq N] [DecidableEq T]

/-- **The invariant.** The events lead to `a`; the tails point to the last nodes; and each link that
should be there is stored, or owed by one thread. -/
structure Inv (s : State Q N T) (a : Queues Q N T) : Prop where
  history : replay s.log = some a
  tail : ∀ q, s.tail q = endOf q (a.place (.queue q))
  link : ∀ p n, Adj a.place p n → s.next p = some n ∨ ∃ t, (s.call t).owes = some (p, n)
  last : ∀ p, Live a.place p → (∀ n, ¬Adj a.place p n) → s.next p = none
  owes : ∀ t p n, (s.call t).owes = some (p, n) → Adj a.place p n ∧
    (s.next p = none ∨ s.next p = some n ∧ ∃ q, (s.call t).dequeues = some q ∧ p = .head q)
  unique : ∀ t t' p n n', (s.call t).owes = some (p, n) → (s.call t').owes = some (p, n') → t = t'
  run : ∀ t, (s.call t).appending = false → a.place (.run t) = []
  call : ∀ t, CallOk s a t (s.call t)

/-! ## What the invariant says of a `next` pointer -/

/-- What a `next` pointer of a node in place leads to comes after the node. -/
theorem Inv.adj_of_next (h : Inv s a) (hlive : Live a.place p) (hnext : s.next p = some x) :
    Adj a.place p x := by
  by_contra hno
  by_cases hadj : ∃ y, Adj a.place p y
  · obtain ⟨y, hy⟩ := hadj
    have heq : s.next p = some y := by
      rcases h.link p y hy with heq | ⟨t, howes⟩
      · exact heq
      · rcases (h.owes t p y howes).2 with hnone | ⟨heq, -⟩
        · rw [hnone] at hnext
          cases hnext
        · exact heq
    rw [hnext] at heq
    exact hno (Option.some.inj heq ▸ hy)
  · rw [h.last p hlive fun y hy => hadj ⟨y, hy⟩] at hnext
    cases hnext

/-- A link that is owed and stored is that of a head, owed by a dequeue. -/
theorem Inv.dequeues_of_owes (h : Inv s a) (howes : (s.call t).owes = some (p, n))
    (hnext : s.next p = some x) : ∃ q, (s.call t).dequeues = some q ∧ p = .head q := by
  rcases (h.owes t p n howes).2 with hnone | ⟨-, hq⟩
  · rw [hnone] at hnext
    cases hnext
  · exact hq

/-- No other thread relies on a missing link. -/
theorem Inv.not_reads_of_owes (h : Inv s a) (howes : (s.call t).owes = some (p, n))
    (hnext : s.next p = none) (hne : t' ≠ t) : (s.call t').reads ≠ some p := by
  intro hreads
  have hcall := h.call t'
  have hunique := h.unique t' t p
  generalize s.call t' = pc at hreads hcall hunique
  cases pc <;> cases hreads
  · exact absurd (hcall.symm.trans hnext) (by rintro ⟨⟩)
  · exact absurd (hcall.symm.trans hnext) (by rintro ⟨⟩)
  · exact hne (hunique _ _ rfl howes)
  · exact absurd (hcall.symm.trans hnext) (by rintro ⟨⟩)

/-! ## What a step leaves to the other threads -/

/-- **The frame of a step** of `t`: what the other threads rely on stays. -/
structure Frame (s : State Q N T) (a : Queues Q N T) (t : T) (s' : State Q N T)
    (a' : Queues Q N T) : Prop where
  call : ∀ t', t' ≠ t → s'.call t' = s.call t'
  run : ∀ t', t' ≠ t → a'.place (.run t') = a.place (.run t')
  found : ∀ t', t' ≠ t → a'.found t' = a.found t'
  queue : ∀ t', t' ≠ t → ∀ q, (s.call t').dequeues = some q →
    a.place (.queue q) <+: a'.place (.queue q)
  owes : ∀ t', t' ≠ t → ∀ p n, (s.call t').owes = some (p, n) →
    Adj a'.place p n ∧ s'.next p = s.next p
  reads : ∀ t', t' ≠ t → ∀ p, (s.call t').reads = some p → s'.next p = s.next p

/-- A step that leaves to the other threads what they rely on keeps the invariant when it does so
for its own thread. -/
theorem Inv.frame (h : Inv s a) (hf : Frame s a t s' a') (hhistory : replay s'.log = some a')
    (htail : ∀ q, s'.tail q = endOf q (a'.place (.queue q)))
    (hlink : ∀ p n, Adj a'.place p n → s'.next p = some n ∨ ∃ t, (s'.call t).owes = some (p, n))
    (hlast : ∀ p, Live a'.place p → (∀ n, ¬Adj a'.place p n) → s'.next p = none)
    (howes : ∀ p n, (s'.call t).owes = some (p, n) → Adj a'.place p n ∧
      (s'.next p = none ∨ s'.next p = some n ∧ ∃ q, (s'.call t).dequeues = some q ∧ p = .head q))
    (hunique : ∀ p n, (s'.call t).owes = some (p, n) →
      ∀ t', t' ≠ t → ∀ n', (s.call t').owes ≠ some (p, n'))
    (hrun : (s'.call t).appending = false → a'.place (.run t) = [])
    (hcall : CallOk s' a' t (s'.call t)) : Inv s' a' where
  history := hhistory
  tail := htail
  link := hlink
  last := hlast
  owes t' p n hp := by
    by_cases ht : t' = t
    · rw [ht] at hp ⊢
      exact howes p n hp
    · rw [hf.call t' ht] at hp ⊢
      obtain ⟨hadj, hnext⟩ := hf.owes t' ht p n hp
      rw [hnext]
      exact ⟨hadj, (h.owes t' p n hp).2⟩
  unique t₁ t₂ p n₁ n₂ h₁ h₂ := by
    by_cases ht₁ : t₁ = t
    · by_cases ht₂ : t₂ = t
      · rw [ht₁, ht₂]
      · rw [hf.call t₂ ht₂] at h₂
        exact absurd h₂ (hunique p n₁ (ht₁ ▸ h₁) t₂ ht₂ n₂)
    · rw [hf.call t₁ ht₁] at h₁
      by_cases ht₂ : t₂ = t
      · exact absurd h₁ (hunique p n₂ (ht₂ ▸ h₂) t₁ ht₁ n₁)
      · rw [hf.call t₂ ht₂] at h₂
        exact h.unique t₁ t₂ p n₁ n₂ h₁ h₂
  run t' hpc := by
    by_cases ht : t' = t
    · rw [ht] at hpc ⊢
      exact hrun hpc
    · rw [hf.call t' ht] at hpc
      rw [hf.run t' ht]
      exact h.run t' hpc
  call t' := by
    by_cases ht : t' = t
    · rw [ht]
      exact hcall
    · rw [hf.call t' ht]
      exact (h.call t').mono (hf.run t' ht) (hf.found t' ht) (hf.queue t' ht) (hf.reads t' ht)

/-- The same for a step after which the thread owes no link. -/
theorem Inv.frame_of_owes_eq_none (h : Inv s a) (hf : Frame s a t s' a')
    (hnone : (s'.call t).owes = none) (hhistory : replay s'.log = some a')
    (htail : ∀ q, s'.tail q = endOf q (a'.place (.queue q)))
    (hlink : ∀ p n, Adj a'.place p n → s'.next p = some n ∨ ∃ t, (s'.call t).owes = some (p, n))
    (hlast : ∀ p, Live a'.place p → (∀ n, ¬Adj a'.place p n) → s'.next p = none)
    (hrun : (s'.call t).appending = false → a'.place (.run t) = [])
    (hcall : CallOk s' a' t (s'.call t)) : Inv s' a' := by
  refine h.frame hf hhistory htail hlink hlast ?_ ?_ hrun hcall
  · rw [hnone]
    rintro p n ⟨⟩
  · rw [hnone]
    rintro p n ⟨⟩

end WfcQueue
