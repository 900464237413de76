import PrototypeKernel.PtrRing.Ring
import PrototypeKernel.Foundation.TransitionSystem

/-! # Pages through two queues

`time_cross_cpu_page_experiment3()` runs on two CPUs. Both start with a pass over `queue1` that
marks its pages and gives each of them a second reference. Then the CPU with an even number moves
pages from `queue2` to `queue1`, and the other one moves pages back. A page in `queue1` shall have
two references and one in `queue2` a single one. At the end both CPUs empty `queue1`.

Each call of a ring and each change of a reference count is one step of a CPU. The rings are bounded
FIFO lists (`PtrRing.simulates_fifo`). -/

namespace PageBench05.Experiment3

variable {Page : Type*}

/-- The CPU with an even number enqueues to `queue1`, the other one dequeues from it. -/
inductive Cpu where
  | enq
  | deq
  deriving DecidableEq

/-- The two rings. -/
inductive Ring where
  | queue1
  | queue2
  deriving DecidableEq

/-- Where the measuring loop takes a page from. -/
def Cpu.source : Cpu → Ring
  | .enq => .queue2
  | .deq => .queue1

/-- Where the measuring loop moves a page to. -/
def Cpu.target : Cpu → Ring
  | .enq => .queue1
  | .deq => .queue2

/-- `page_ref_inc()` or `page_ref_dec()` of the measuring loop. -/
def Cpu.refChange : Cpu → ℤ
  | .enq => 1
  | .deq => -1

/-- `INITED` -/
def inited : ℕ := 1

/-- Where a CPU stands, with the page in its hand. The counter of the measuring loop is also
`loops_cnt`. -/
inductive Pc (Page : Type*) where
  | enter
  | passConsume
  | passTest (page : Page)
  | passInc (page : Page)
  | passProduce (page : Page)
  | moveConsume (i : ℕ)
  | moveRef (i : ℕ) (page : Page)
  | moveProduce (i : ℕ) (page : Page)
  | drainConsume (cnt : ℕ)
  | drainDec (cnt : ℕ) (page : Page)
  | drainTest (cnt : ℕ) (page : Page)
  /-- Returned 0 before the pass. -/
  | refused
  | returned (cnt : ℕ)
  deriving DecidableEq

/-- What a CPU prints. -/
inductive Line where
  /-- `Loop cnt too big will overflow 32-bit` -/
  | loopCntTooBig
  /-- `%s() WARN: deq2 emptyq (CPU:%d) i:%d`, and `deq1` for the other CPU -/
  | deqEmptyq (c : Cpu) (i : ℕ)
  /-- `%s() WARN: enq1 fullq(CPU:%d) i:%d` -/
  | enq1Fullq (c : Cpu) (i : ℕ)
  /-- `WARN:%s() queue1 invariance broken refcnt:%d` -/
  | invarianceBroken (refcnt : ℤ)
  deriving DecidableEq

/-- A benchmark: the pages that `init_queue()` has put in the rings, the size of these, and the
count of loops. -/
structure Config (Page : Type*) where
  prefill : Ring → List Page
  qSize : ℕ
  loops : UInt32
  nodup : (prefill .queue1 ++ prefill .queue2).Nodup
  fits : ∀ r, (prefill r).length ≤ qSize

/-- All pages. -/
def Config.pages (cfg : Config Page) : List Page := cfg.prefill .queue1 ++ cfg.prefill .queue2

/-- The rings, the pages, the two CPUs, and the pages that no variable holds any more. -/
structure State (Page : Type*) where
  queue : Ring → List Page
  refCnt : Page → ℤ
  /-- `page->private` -/
  priv : Page → ℕ
  pc : Cpu → Pc Page
  dropped : List Page
  lines : List Line

/-- A benchmark before its first step. -/
def init (cfg : Config Page) : State Page where
  queue := cfg.prefill
  refCnt := fun _ => 1
  priv := fun _ => 0
  pc := fun _ => .enter
  dropped := []
  lines := []

namespace State

/-- CPU `c` goes on at `pc`. -/
def goto (s : State Page) (c : Cpu) (pc : Pc Page) : State Page :=
  { s with pc := Function.update s.pc c pc }

/-- A line of the kernel log. -/
def print (s : State Page) (line : Line) : State Page := { s with lines := s.lines ++ [line] }

/-- The page leaves the last variable that holds it. -/
def drop (s : State Page) (page : Page) : State Page := { s with dropped := s.dropped ++ [page] }

/-- The pages of a ring. -/
def setQueue (s : State Page) (r : Ring) (xs : List Page) : State Page :=
  { s with queue := Function.update s.queue r xs }

/-- `ptr_ring_consume()`, for a CPU that goes on with the page or in the state `empty`. -/
def consume (s : State Page) (c : Cpu) (r : Ring) (found : Page → Pc Page)
    (empty : State Page) : State Page :=
  match PtrRing.fifo 0 (s.queue r) .consume with
  | (rest, .ptr (some page)) => (s.setQueue r rest).goto c (found page)
  | _ => empty

/-- `ptr_ring_produce()`, for a CPU that goes on after a success or in the state `full`. -/
def produce (cfg : Config Page) (s : State Page) (c : Cpu) (r : Ring) (page : Page) (done : Pc Page)
    (full : State Page) : State Page :=
  match PtrRing.fifo cfg.qSize (s.queue r) (.produce page) with
  | (xs, .code ret) => if ret < 0 then full else (s.setQueue r xs).goto c done
  | _ => full

variable [DecidableEq Page]

/-- `page_ref_add()`. -/
def addRef (s : State Page) (page : Page) (n : ℤ) : State Page :=
  { s with refCnt := Function.update s.refCnt page (s.refCnt page + n) }

/-- `set_page_private()`. -/
def setPrivate (s : State Page) (page : Page) (v : ℕ) : State Page :=
  { s with priv := Function.update s.priv page v }

end State

/-- The loop count is refused. -/
def Config.TooBig (cfg : Config Page) : Prop := cfg.loops.toNat * 2 ≥ 2 ^ 32 - 1

instance (cfg : Config Page) : Decidable cfg.TooBig := inferInstanceAs (Decidable (_ ≥ _))

/-- A step of the CPU `c`. -/
def step [DecidableEq Page] (cfg : Config Page) (s : State Page) (c : Cpu) : Option (State Page) :=
  match s.pc c with
  | .enter =>
    if cfg.TooBig then some ((s.print .loopCntTooBig).goto c .refused)
    else some (s.goto c .passConsume)
  | .passConsume => some (s.consume c .queue1 .passTest (s.goto c (.moveConsume 0)))
  | .passTest page =>
    -- a page that is marked ends the pass, and is not produced again
    if s.priv page = inited then some ((s.drop page).goto c (.moveConsume 0))
    else some ((s.setPrivate page inited).goto c (.passInc page))
  | .passInc page => some ((s.addRef page 1).goto c (.passProduce page))
  | .passProduce page =>
    -- the result is not looked at
    some (s.produce cfg c .queue1 page .passConsume ((s.drop page).goto c .passConsume))
  | .moveConsume i =>
    if i < cfg.loops.toNat then
      some (s.consume c c.source (.moveRef i) ((s.print (.deqEmptyq c i)).goto c (.drainConsume i)))
    else some (s.goto c (.drainConsume i))
  | .moveRef i page => some ((s.addRef page c.refChange).goto c (.moveProduce i page))
  | .moveProduce i page =>
    some (s.produce cfg c c.target page (.moveConsume (i + 1))
      (((s.print (.enq1Fullq c i)).drop page).goto c (.drainConsume i)))
  | .drainConsume cnt => some (s.consume c .queue1 (.drainDec cnt) (s.goto c (.returned cnt)))
  | .drainDec cnt page => some ((s.addRef page (-1)).goto c (.drainTest cnt page))
  | .drainTest cnt page =>
    let s := if s.refCnt page ≠ 1 then s.print (.invarianceBroken (s.refCnt page)) else s
    some ((s.drop page).goto c (.drainConsume cnt))
  | .refused | .returned _ => none

/-! ## The end of the benchmark -/

/-- What `destructor_put_page()` prints. -/
inductive PutError where
  /-- `ERROR: %s() pages with zero refcnt on queue!` -/
  | zeroRefcnt
  /-- `ERROR: %s() pages with elevated refcnt:%d not freed!` -/
  | elevatedRefcnt (refcnt : ℤ)
  deriving DecidableEq

/-- The pages that are freed, with their reference counts and the errors. -/
structure Cleanup (Page : Type*) where
  refCnt : Page → ℤ
  released : List Page
  errors : List PutError

/-- `destructor_put_page()` -/
def destructorPutPage [DecidableEq Page] (s : Cleanup Page) (page : Page) : Cleanup Page :=
  let errors := if s.refCnt page = 0 then s.errors ++ [.zeroRefcnt] else s.errors
  let refCnt := Function.update s.refCnt page (s.refCnt page - 1)
  if refCnt page = 0 then ⟨refCnt, s.released ++ [page], errors⟩
  else ⟨refCnt, s.released, errors ++ [.elevatedRefcnt (refCnt page)]⟩

/-- `ptr_ring_cleanup()` for both rings. -/
def cleanup [DecidableEq Page] (s : State Page) : Cleanup Page :=
  (s.queue .queue1 ++ s.queue .queue2).foldl destructorPutPage ⟨s.refCnt, [], []⟩

/-! ## What a run shall keep -/

/-- The CPU has finished its pass. -/
def Pc.passed : Pc Page → Bool
  | .enter | .passConsume | .passTest _ | .passInc _ | .passProduce _ | .refused => false
  | _ => true

/-- The CPU has returned. -/
def Pc.done : Pc Page → Bool
  | .refused | .returned _ => true
  | _ => false

/-- The references of a page in a ring. -/
def Ring.refs : Ring → ℤ
  | .queue1 => 2
  | .queue2 => 1

/-- **The pages in the rings have the references of their ring.** -/
def RefCounts (s : State Page) : Prop := ∀ r, ∀ page ∈ s.queue r, s.refCnt page = r.refs

/-- **Every page is in one of the rings**, once. -/
def InRings (cfg : Config Page) (s : State Page) : Prop :=
  (s.queue .queue1 ++ s.queue .queue2).Perm cfg.pages

end PageBench05.Experiment3
