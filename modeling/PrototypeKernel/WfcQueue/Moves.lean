import Mathlib.Data.List.Nodup
import PrototypeKernel.Foundation.TransitionSystem
import PrototypeKernel.WfcQueue.Queue

/-! # What a step of a queue can do

The outcomes of a step of a running call, and what the promises of the callers come to: the calls
that exclude each other never run at once, and no node is enqueued twice. -/

namespace WfcQueue

open TransitionSystem

variable {Q N T : Type*}

/-! ## Outcomes -/

/-- The steps that store nothing and return nothing: the place they leave, what they found there,
and the place they go to. -/
inductive Turn (s : State Q N T) : Pc Q N → Pc Q N → Prop
  | confirm {q} (hnext : s.next (.head q) = none) : Turn s (.dequeueHead q) (.dequeueTail q)
  | nonEmpty {q n} (hnext : s.next (.head q) = some n) : Turn s (.dequeueHead q) (.dequeueFirst q)
  | pending {q} (htail : s.tail q ≠ .head q) : Turn s (.dequeueTail q) (.dequeueFirst q)
  | first {q n} (hnext : s.next (.head q) = some n) : Turn s (.dequeueFirst q) (.dequeueNext q n)
  | alone {q n} (hnext : s.next (.node n) = none) : Turn s (.dequeueNext q n) (.dequeueInit q n)
  | second {q n x} (hnext : s.next (.node n) = some x) :
      Turn s (.dequeueNext q n) (.dequeueStore q n x)
  | raced {q n} (htail : s.tail q ≠ .node n) : Turn s (.dequeueCmpxchg q n) (.dequeueSync q n)
  | synced {q n x} (hnext : s.next (.node n) = some x) :
      Turn s (.dequeueSync q n) (.dequeueStore q n x)
  | confirmSrc {dest src} (hnext : s.next (.head src) = none) :
      Turn s (.spliceHead dest src) (.spliceTail dest src)
  | nonEmptySrc {dest src n} (hnext : s.next (.head src) = some n) :
      Turn s (.spliceHead dest src) (.spliceXchg dest src)
  | pendingSrc {dest src} (htail : s.tail src ≠ .head src) :
      Turn s (.spliceTail dest src) (.spliceXchg dest src)
  | check {dest src} (hnext : s.next (.head src) = none) :
      Turn s (.spliceXchg dest src) (.spliceCheck dest src)
  | again {dest src} (htail : s.tail src ≠ .head src) :
      Turn s (.spliceCheck dest src) (.spliceXchg dest src)

section

variable [DecidableEq Q] [DecidableEq N] [DecidableEq T]

/-- **The outcomes of a step** of a running call. -/
inductive Move (s : State Q N T) (t : T) : State Q N T → Prop
  /-- A busy-wait. -/
  | wait : Move s t s
  | turn {pc pc'} (hpc : s.call t = pc) (hturn : Turn s pc pc') : Move s t (s.goto t pc')
  | append {src q newHead newTail} (hpc : s.call t = .append src q newHead newTail) :
      Move s t (((s.setTail q newTail).emit (.append t q)).goto t (.link src q (s.tail q) newHead))
  | link {src q oldTail newHead} (hpc : s.call t = .link src q oldTail newHead) :
      Move s t
        (((s.setNext oldTail (some newHead)).emit (.ret t src (oldTail ≠ .head q))).goto t .idle)
  | null {q} (hpc : s.call t = .dequeueTail q) (htail : s.tail q = .head q) :
      Move s t ((s.emit (.dequeueRet t q none)).goto t .idle)
  | init {q n} (hpc : s.call t = .dequeueInit q n) :
      Move s t ((s.setNext (.head q) none).goto t (.dequeueCmpxchg q n))
  | cmpxchg {q n} (hpc : s.call t = .dequeueCmpxchg q n) (htail : s.tail q = .node n) :
      Move s t (((s.setTail q (.head q)).emit (.dequeueRet t q (some n))).goto t .idle)
  | store {q n x} (hpc : s.call t = .dequeueStore q n x) :
      Move s t (((s.setNext (.head q) (some x)).emit (.dequeueRet t q (some n))).goto t .idle)
  | srcEmpty {dest src} (hpc : s.call t = .spliceTail dest src ∨ s.call t = .spliceCheck dest src)
      (htail : s.tail src = .head src) :
      Move s t ((s.emit (.spliceRet t src .srcEmpty)).goto t .idle)
  | xchg {dest src n} (hpc : s.call t = .spliceXchg dest src)
      (hnext : s.next (.head src) = some n) :
      Move s t ((s.setNext (.head src) none).goto t (.spliceTake dest src n))
  | take {dest src n} (hpc : s.call t = .spliceTake dest src n) :
      Move s t (((s.setTail src (.head src)).emit (.take t src)).goto t
        (.append (some src) dest n (s.tail src)))

/-- **The outcomes of an action.** -/
inductive Taken (s : State Q N T) : Action Q N T → State Q N T → Prop
  | nodeInit (n : N) : Taken s (.nodeInit n) (s.setNext (.node n) none)
  | enqueue {t : T} (q : Q) (n : N) (hidle : s.call t = .idle) : Taken s (.enqueue t q n)
      ((s.emit (.enqueue t n)).goto t (.append none q n (.node n)))
  | dequeue {t : T} (q : Q) (hidle : s.call t = .idle) :
      Taken s (.dequeue t q) (s.goto t (.dequeueHead q))
  | splice {t : T} (dest src : Q) (hidle : s.call t = .idle) :
      Taken s (.splice t dest src) (s.goto t (.spliceHead dest src))
  | run {t : T} {s' : State Q N T} (hmove : Move s t s') : Taken s (.run t) s'

end

variable {s s' s₁ : State Q N T} {t t' : T} {pc pc' : Pc Q N} {q : Q}

/-! ## What a step leaves alone -/

/-- A call goes on with its queues, or ends. -/
structure Pc.Stays (pc pc' : Pc Q N) : Prop where
  dequeues : ∀ q, pc'.dequeues = some q → pc.dequeues = some q
  splices : ∀ q, pc'.splices = some q → pc.splices = some q

/-- A turn goes on with the queues of its call. -/
theorem Turn.stays (h : Turn s pc pc') : pc.Stays pc' := by
  cases h <;> exact ⟨fun _ h => h, fun _ h => h⟩

/-- A call stays where it is. -/
theorem stays_refl (pc : Pc Q N) : pc.Stays pc := ⟨fun _ h => h, fun _ h => h⟩

/-- A call can end anywhere. -/
theorem stays_idle (pc : Pc Q N) : pc.Stays .idle :=
  ⟨(fun _ h => by cases h), (fun _ h => by cases h)⟩

/-- A return enqueues nothing. -/
theorem enqueued_ret (src : Option Q) (ret : Bool) :
    enqueued [(Event.ret t src ret : Event Q N T)] = [] := by
  cases src <;> rfl

/-- An event that enqueues nothing leaves what is enqueued. -/
theorem enqueued_emit {e : Event Q N T} (hlog : s₁.log = s.log)
    (he : enqueued [e] = []) : enqueued (s₁.emit e).log = enqueued s.log := by
  rw [State.emit, enqueued_concat, he, hlog, List.append_nil]

section

variable [DecidableEq T]

/-- A call goes on where it is sent. -/
theorem goto_call : (s.goto t pc).call t = pc := Function.update_self ..

/-- The other calls stay where they are. -/
theorem goto_call_of_ne (h : t' ≠ t) : (s.goto t pc).call t' = s.call t' :=
  Function.update_of_ne h ..

/-- What changes when the call of `t` goes to `pc` and emits an event. -/
theorem frame_goto (hcall : s₁.call = s.call)
    (hlog : enqueued s₁.log = enqueued s.log) (hstays : (s.call t).Stays pc) :
    (s.call t).Stays ((s₁.goto t pc).call t) ∧
      (∀ t', t' ≠ t → (s₁.goto t pc).call t' = s.call t') ∧
      enqueued (s₁.goto t pc).log = enqueued s.log :=
  ⟨by rwa [goto_call], fun t' h => by rw [goto_call_of_ne h, hcall], hlog⟩

/-! ## The synchronization table -/

/-- While a thread dequeues from a queue, no other one dequeues or splices from it. -/
def Sync (s : State Q N T) : Prop :=
  ∀ t t' q, (s.call t).dequeues = some q → t' ≠ t →
    (s.call t').dequeues ≠ some q ∧ (s.call t').splices ≠ some q

/-- A step of one thread keeps the others apart when the thread keeps its queues, or has those it
may have. -/
theorem Sync.step (h : Sync s) (hothers : ∀ t', t' ≠ t → s'.call t' = s.call t')
    (hdequeues : ∀ q, (s'.call t).dequeues = some q → (s.call t).dequeues = some q ∨
      ∀ t', (s.call t').dequeues ≠ some q ∧ (s.call t').splices ≠ some q)
    (hsplices : ∀ q, (s'.call t).splices = some q → (s.call t).splices = some q ∨
      ∀ t', (s.call t').dequeues ≠ some q) : Sync s' := by
  intro t₁ t₂ q h₁ hne
  by_cases ht₁ : t₁ = t
  · rw [hothers t₂ (ht₁ ▸ hne)]
    rw [ht₁] at h₁ hne
    rcases hdequeues q h₁ with h₁ | hfree
    · exact h t t₂ q h₁ hne
    · exact hfree t₂
  · rw [hothers t₁ ht₁] at h₁
    by_cases ht₂ : t₂ = t
    · rw [ht₂] at hne ⊢
      constructor
      · intro h₂
        rcases hdequeues q h₂ with h₂ | hfree
        · exact (h t₁ t q h₁ hne).1 h₂
        · exact (hfree t₁).1 h₁
      · intro h₂
        rcases hsplices q h₂ with h₂ | hfree
        · exact (h t₁ t q h₁ hne).2 h₂
        · exact hfree t₁ h₁
    · rw [hothers t₂ ht₂]
      exact h t₁ t₂ q h₁ hne

end

/-! ## Steps -/

variable [DecidableEq Q] [DecidableEq N] [DecidableEq T]

/-- **Every step of a running call is a move.** -/
theorem move_of_advance (hs : s.advance t = some s') : Move s t s' := by
  unfold State.advance at hs
  -- one case per place, split by what the step found there
  cases hpc : s.call t with
  | idle =>
    rw [hpc] at hs
    cases hs
  | append src q newHead newTail =>
    rw [hpc] at hs
    cases hs
    exact .append hpc
  | link src q oldTail newHead =>
    rw [hpc] at hs
    cases hs
    exact .link hpc
  | dequeueHead q =>
    rw [hpc] at hs
    cases hs
    split
    · exact .turn hpc (.confirm ‹_›)
    · obtain ⟨n, hnext⟩ := Option.ne_none_iff_exists'.mp ‹_›
      exact .turn hpc (.nonEmpty hnext)
  | dequeueTail q =>
    rw [hpc] at hs
    cases hs
    split
    · exact .null hpc ‹_›
    · exact .turn hpc (.pending ‹_›)
  | dequeueFirst q =>
    rw [hpc] at hs
    dsimp only at hs
    cases hnext : s.next (.head q) with
    | none =>
      rw [hnext] at hs
      cases hs
      exact .wait
    | some n =>
      rw [hnext] at hs
      cases hs
      exact .turn hpc (.first hnext)
  | dequeueNext q n =>
    rw [hpc] at hs
    dsimp only at hs
    cases hnext : s.next (.node n) with
    | none =>
      rw [hnext] at hs
      cases hs
      exact .turn hpc (.alone hnext)
    | some x =>
      rw [hnext] at hs
      cases hs
      exact .turn hpc (.second hnext)
  | dequeueInit q n =>
    rw [hpc] at hs
    cases hs
    exact .init hpc
  | dequeueCmpxchg q n =>
    rw [hpc] at hs
    cases hs
    split
    · exact .cmpxchg hpc ‹_›
    · exact .turn hpc (.raced ‹_›)
  | dequeueSync q n =>
    rw [hpc] at hs
    dsimp only at hs
    cases hnext : s.next (.node n) with
    | none =>
      rw [hnext] at hs
      cases hs
      exact .wait
    | some x =>
      rw [hnext] at hs
      cases hs
      exact .turn hpc (.synced hnext)
  | dequeueStore q n x =>
    rw [hpc] at hs
    cases hs
    exact .store hpc
  | spliceHead dest src =>
    rw [hpc] at hs
    cases hs
    split
    · exact .turn hpc (.confirmSrc ‹_›)
    · obtain ⟨n, hnext⟩ := Option.ne_none_iff_exists'.mp ‹_›
      exact .turn hpc (.nonEmptySrc hnext)
  | spliceTail dest src =>
    rw [hpc] at hs
    cases hs
    split
    · exact .srcEmpty (.inl hpc) ‹_›
    · exact .turn hpc (.pendingSrc ‹_›)
  | spliceXchg dest src =>
    rw [hpc] at hs
    dsimp only at hs
    cases hnext : s.next (.head src) with
    | none =>
      rw [hnext] at hs
      cases hs
      exact .turn hpc (.check hnext)
    | some n =>
      rw [hnext] at hs
      cases hs
      exact .xchg hpc hnext
  | spliceCheck dest src =>
    rw [hpc] at hs
    cases hs
    split
    · exact .srcEmpty (.inr hpc) ‹_›
    · exact .turn hpc (.again ‹_›)
  | spliceTake dest src n =>
    rw [hpc] at hs
    cases hs
    exact .take hpc

/-- A call begins at an idle thread. -/
theorem call_of_begin (h : s.begin t pc = some s') : s.call t = .idle ∧ s' = s.goto t pc := by
  obtain ⟨hidle, h⟩ := Option.ite_none_right_eq_some.mp h
  exact ⟨hidle, (Option.some.inj h).symm⟩

/-- **Every step is one of these.** -/
theorem taken_of_step {act : Action Q N T} (hs : step s act = some s') : Taken s act s' := by
  cases act with
  | nodeInit n =>
    cases hs
    exact .nodeInit n
  | enqueue t q n =>
    have hs : (s.emit (.enqueue t n)).begin t (.append none q n (.node n)) = some s' := hs
    obtain ⟨hidle, rfl⟩ := call_of_begin hs
    exact .enqueue q n hidle
  | dequeue t q =>
    have hs : s.begin t (.dequeueHead q) = some s' := hs
    obtain ⟨hidle, rfl⟩ := call_of_begin hs
    exact .dequeue q hidle
  | splice t dest src =>
    have hs : s.begin t (.spliceHead dest src) = some s' := hs
    obtain ⟨hidle, rfl⟩ := call_of_begin hs
    exact .splice dest src hidle
  | run t => exact .run (move_of_advance hs)

/-- A move leaves the other calls and what is enqueued. -/
theorem Move.frame (h : Move s t s') :
    (s.call t).Stays (s'.call t) ∧ (∀ t', t' ≠ t → s'.call t' = s.call t') ∧
      enqueued s'.log = enqueued s.log := by
  cases h with
  | wait => exact ⟨stays_refl _, fun _ _ => rfl, rfl⟩
  | turn hpc hturn => exact frame_goto rfl rfl (hpc ▸ hturn.stays)
  | append hpc => exact frame_goto rfl (enqueued_emit rfl rfl) (hpc ▸ ⟨fun _ h => h, fun _ h => h⟩)
  | link hpc => exact frame_goto rfl (enqueued_emit rfl (enqueued_ret ..)) (stays_idle _)
  | null hpc => exact frame_goto rfl (enqueued_emit rfl rfl) (stays_idle _)
  | init hpc => exact frame_goto rfl rfl (hpc ▸ ⟨fun _ h => h, fun _ h => h⟩)
  | cmpxchg hpc => exact frame_goto rfl (enqueued_emit rfl rfl) (stays_idle _)
  | store hpc => exact frame_goto rfl (enqueued_emit rfl rfl) (stays_idle _)
  | srcEmpty hpc => exact frame_goto rfl (enqueued_emit rfl rfl) (stays_idle _)
  | xchg hpc => exact frame_goto rfl rfl (hpc ▸ ⟨fun _ h => h, fun _ h => h⟩)
  | take hpc => exact frame_goto rfl (enqueued_emit rfl rfl) (hpc ▸ ⟨fun _ h => h, fun _ h => h⟩)

/-- **The promises of the callers**, over a run. -/
theorem promises_of_reachable {memory : N → Option N} (h : Reachable step ok (start memory) s) :
    Sync s ∧ (enqueued s.log).Nodup := by
  refine h.invariant (P := fun s => Sync s ∧ (enqueued s.log).Nodup)
    ⟨(fun _ _ _ h => by cases h), List.nodup_nil⟩ ?_
  rintro s a s' ⟨hsync, hnodup⟩ hok hs
  cases taken_of_step hs with
  | nodeInit n => exact ⟨hsync, hnodup⟩
  | @enqueue t q n =>
    refine ⟨hsync.step (t := t) (fun _ => goto_call_of_ne) ?_ ?_, ?_⟩
    · rw [goto_call]
      rintro _ ⟨⟩
    · rw [goto_call]
      rintro _ ⟨⟩
    · show (enqueued (s.log ++ [_])).Nodup
      rw [enqueued_concat]
      refine List.nodup_append.mpr ⟨hnodup, List.nodup_singleton n, ?_⟩
      rintro x hx _ hn rfl
      exact hok.1 (List.mem_singleton.mp hn ▸ hx)
  | @dequeue t q =>
    refine ⟨hsync.step (t := t) (fun _ => goto_call_of_ne) ?_ ?_, hnodup⟩
    · rw [goto_call]
      rintro _ ⟨⟩
      exact .inr hok
    · rw [goto_call]
      rintro _ ⟨⟩
  | @splice t dest src =>
    refine ⟨hsync.step (t := t) (fun _ => goto_call_of_ne) ?_ ?_, hnodup⟩
    · rw [goto_call]
      rintro _ ⟨⟩
    · rw [goto_call]
      rintro _ ⟨⟩
      exact .inr hok
  | run hmove =>
    obtain ⟨hstays, hothers, hlog⟩ := hmove.frame
    rw [hlog]
    exact ⟨hsync.step hothers (fun q h => .inl (hstays.dequeues q h))
      (fun q h => .inl (hstays.splices q h)), hnodup⟩

end WfcQueue
