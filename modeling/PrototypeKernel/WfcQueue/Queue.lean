import Mathlib.Data.List.Basic
import Mathlib.Logic.Function.Basic
import Mathlib.Tactic.TypeStar

/-! # The wait-free concurrent queue

`wfcq_enqueue()`, `__wfcq_dequeue()` and `__wfcq_splice()` on any number of queues, called by any
number of threads. Each load, store, `xchg()` and `cmpxchg()` of a shared field is a step. -/

namespace WfcQueue

/-! ## Nodes and queues -/

/-- `struct wfcq_node *`: the node in the head of a queue, or one of those that are enqueued. -/
inductive Ptr (Q N : Type*) where
  | head (q : Q)
  | node (n : N)
  deriving DecidableEq, Repr

/-- `enum wfcq_ret`. -/
inductive WfcqRet where
  | destEmpty
  | destNonEmpty
  | srcEmpty
  deriving DecidableEq, Repr

/-- Where a call stands. `src` is the source queue of an append by `__wfcq_splice()`. -/
inductive Pc (Q N : Type*) where
  | idle
  /-- `__wfcq_append()`: about to exchange the tail. -/
  | append (src : Option Q) (q : Q) (newHead : N) (newTail : Ptr Q N)
  /-- About to store `old_tail->next`. -/
  | link (src : Option Q) (q : Q) (oldTail : Ptr Q N) (newHead : N)
  /-- `__wfcq_dequeue()`, in `wfcq_empty()`: about to load `head->node.next`. -/
  | dequeueHead (q : Q)
  /-- About to load `tail->p`. -/
  | dequeueTail (q : Q)
  /-- Waiting for `head->node.next`. -/
  | dequeueFirst (q : Q)
  /-- About to load `node->next`. -/
  | dequeueNext (q : Q) (node : N)
  /-- About to store `NULL` in `head->node.next`. -/
  | dequeueInit (q : Q) (node : N)
  | dequeueCmpxchg (q : Q) (node : N)
  /-- Waiting for `node->next`. -/
  | dequeueSync (q : Q) (node : N)
  /-- About to store `next` in `head->node.next`. -/
  | dequeueStore (q : Q) (node next : N)
  /-- `__wfcq_splice()`, in `wfcq_empty()`: about to load `src_q_head->node.next`. -/
  | spliceHead (dest src : Q)
  /-- About to load `src_q_tail->p`. -/
  | spliceTail (dest src : Q)
  /-- In the loop, about to exchange `src_q_head->node.next` and `NULL`. -/
  | spliceXchg (dest src : Q)
  /-- In the loop, about to load `src_q_tail->p`. -/
  | spliceCheck (dest src : Q)
  /-- About to exchange the tail of the source. -/
  | spliceTake (dest src : Q) (head : N)
  deriving DecidableEq, Repr

/-- What happens to the queues: the calls of `wfcq_enqueue()`, the exchanges of a tail, and the
returns. -/
inductive Event (Q N T : Type*) where
  | enqueue (t : T) (n : N)
  /-- The exchange of the tail in `__wfcq_append()`. -/
  | append (t : T) (q : Q)
  /-- The exchange of the tail of the source in `__wfcq_splice()`. -/
  | take (t : T) (src : Q)
  | enqueueRet (t : T) (ret : Bool)
  | spliceRet (t : T) (src : Q) (ret : WfcqRet)
  | dequeueRet (t : T) (q : Q) (ret : Option N)
  deriving DecidableEq, Repr

/-- The memory, the calls in progress, and (ghost) what happened so far. -/
structure State (Q N T : Type*) where
  /-- The field `next` of each node. -/
  next : Ptr Q N → Option N
  /-- The field `p` of each tail. -/
  tail : Q → Ptr Q N
  call : T → Pc Q N
  log : List (Event Q N T)

/-- A store by `wfcq_node_init()`, the start of a call, or a step of a running call. -/
inductive Action (Q N T : Type*) where
  | nodeInit (n : N)
  | enqueue (t : T) (q : Q) (n : N)
  | dequeue (t : T) (q : Q)
  | splice (t : T) (dest src : Q)
  | run (t : T)
  deriving DecidableEq, Repr

/-! ## Steps -/

section Steps

variable {Q N T : Type*}

/-- An event is logged. -/
def State.emit (s : State Q N T) (e : Event Q N T) : State Q N T := { s with log := s.log ++ [e] }

/-- The return from `__wfcq_append()`, and from its caller. -/
def Event.ret (t : T) (src : Option Q) (nonEmpty : Bool) : Event Q N T :=
  match src with
  | none => .enqueueRet t nonEmpty
  | some src => .spliceRet t src (if nonEmpty then .destNonEmpty else .destEmpty)

variable [DecidableEq Q] [DecidableEq N] [DecidableEq T]

/-- Thread `t` goes on at `pc`. -/
def State.goto (s : State Q N T) (t : T) (pc : Pc Q N) : State Q N T :=
  { s with call := Function.update s.call t pc }

/-- A next pointer is stored. -/
def State.setNext (s : State Q N T) (p : Ptr Q N) (v : Option N) : State Q N T :=
  { s with next := Function.update s.next p v }

/-- A tail pointer is stored. -/
def State.setTail (s : State Q N T) (q : Q) (p : Ptr Q N) : State Q N T :=
  { s with tail := Function.update s.tail q p }

/-- The next step of a running call. -/
def State.advance (s : State Q N T) (t : T) : Option (State Q N T) :=
  match s.call t with
  | .idle => none
  | .append src q newHead newTail =>
      some (((s.setTail q newTail).emit (.append t q)).goto t (.link src q (s.tail q) newHead))
  | .link src q oldTail newHead =>
      some (((s.setNext oldTail (some newHead)).emit (.ret t src (oldTail ≠ .head q))).goto t .idle)
  | .dequeueHead q =>
      some (s.goto t (if s.next (.head q) = none then .dequeueTail q else .dequeueFirst q))
  | .dequeueTail q =>
      some (if s.tail q = .head q then (s.emit (.dequeueRet t q none)).goto t .idle
        else s.goto t (.dequeueFirst q))
  | .dequeueFirst q =>
      match s.next (.head q) with
      | none => some s
      | some node => some (s.goto t (.dequeueNext q node))
  | .dequeueNext q node =>
      match s.next (.node node) with
      | none => some (s.goto t (.dequeueInit q node))
      | some next => some (s.goto t (.dequeueStore q node next))
  | .dequeueInit q node => some ((s.setNext (.head q) none).goto t (.dequeueCmpxchg q node))
  | .dequeueCmpxchg q node =>
      some (if s.tail q = .node node then
          ((s.setTail q (.head q)).emit (.dequeueRet t q (some node))).goto t .idle
        else s.goto t (.dequeueSync q node))
  | .dequeueSync q node =>
      match s.next (.node node) with
      | none => some s
      | some next => some (s.goto t (.dequeueStore q node next))
  | .dequeueStore q node next =>
      some (((s.setNext (.head q) (some next)).emit (.dequeueRet t q (some node))).goto t .idle)
  | .spliceHead dest src =>
      some (s.goto t
        (if s.next (.head src) = none then .spliceTail dest src else .spliceXchg dest src))
  | .spliceTail dest src =>
      some (if s.tail src = .head src then (s.emit (.spliceRet t src .srcEmpty)).goto t .idle
        else s.goto t (.spliceXchg dest src))
  | .spliceXchg dest src =>
      match s.next (.head src) with
      | none => some (s.goto t (.spliceCheck dest src))
      | some head => some ((s.setNext (.head src) none).goto t (.spliceTake dest src head))
  | .spliceCheck dest src =>
      some (if s.tail src = .head src then (s.emit (.spliceRet t src .srcEmpty)).goto t .idle
        else s.goto t (.spliceXchg dest src))
  | .spliceTake dest src head =>
      some (((s.setTail src (.head src)).emit (.take t src)).goto t
        (.append (some src) dest head (s.tail src)))

/-- A call starts on a thread that runs none. -/
def State.begin (s : State Q N T) (t : T) (pc : Pc Q N) : Option (State Q N T) :=
  if s.call t = .idle then some (s.goto t pc) else none

/-- The step function of the threads. -/
def step (s : State Q N T) : Action Q N T → Option (State Q N T)
  | .nodeInit n => some (s.setNext (.node n) none)
  | .enqueue t q n => (s.emit (.enqueue t n)).begin t (.append none q n (.node n))
  | .dequeue t q => s.begin t (.dequeueHead q)
  | .splice t dest src => s.begin t (.spliceHead dest src)
  | .run t => s.advance t

/-- Every queue after `wfcq_init()`, and `memory` in the other nodes. -/
def start (memory : N → Option N) : State Q N T where
  next p := match p with
    | .head _ => none
    | .node n => memory n
  tail := .head
  call _ := .idle
  log := []

end Steps

/-! ## The synchronization table -/

section Guard

variable {Q N T : Type*}

/-- The queue of a call of `__wfcq_dequeue()`. -/
def Pc.dequeues : Pc Q N → Option Q
  | .dequeueHead q | .dequeueTail q | .dequeueFirst q | .dequeueNext q _ | .dequeueInit q _
  | .dequeueCmpxchg q _ | .dequeueSync q _ | .dequeueStore q _ _ => some q
  | _ => none

/-- The source of a call of `__wfcq_splice()`. -/
def Pc.splices : Pc Q N → Option Q
  | .append src _ _ _ | .link src _ _ _ => src
  | .spliceHead _ src | .spliceTail _ src | .spliceXchg _ src | .spliceCheck _ src
  | .spliceTake _ src _ => some src
  | _ => none

/-- The nodes that `wfcq_enqueue()` was called with. -/
def enqueued (log : List (Event Q N T)) : List N :=
  log.filterMap fun
    | .enqueue _ n => some n
    | _ => none

/-- The nodes that `__wfcq_dequeue()` has returned. -/
def dequeued (log : List (Event Q N T)) : List N :=
  log.filterMap fun
    | .dequeueRet _ _ ret => ret
    | _ => none

/-- The nodes that are enqueued, with one more event. -/
theorem enqueued_concat (log : List (Event Q N T)) (e : Event Q N T) :
    enqueued (log ++ [e]) = enqueued log ++ enqueued [e] :=
  List.filterMap_append ..

/-- The nodes that are dequeued, with one more event. -/
theorem dequeued_concat (log : List (Event Q N T)) (e : Event Q N T) :
    dequeued (log ++ [e]) = dequeued log ++ dequeued [e] :=
  List.filterMap_append ..

/-- **What the callers promise.** A node is enqueued once, and initialised before. A dequeue
excludes other dequeues of the queue and splices from it. -/
def ok (s : State Q N T) : Action Q N T → Prop
  | .nodeInit n => n ∉ enqueued s.log
  | .enqueue _ _ n => n ∉ enqueued s.log ∧ s.next (.node n) = none
  | .dequeue _ q => ∀ t, (s.call t).dequeues ≠ some q ∧ (s.call t).splices ≠ some q
  | .splice _ _ src => ∀ t, (s.call t).dequeues ≠ some src
  | .run _ => True

end Guard

end WfcQueue
