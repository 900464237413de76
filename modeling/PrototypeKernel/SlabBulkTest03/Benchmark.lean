import PrototypeKernel.Foundation.CountedLoop
import PrototypeKernel.SlabBulkTest03.ObjHash

/-! # The objects of the bulk test

The module links objects of a slab in its hash when it is loaded. Each round of a benchmark
allocates some more, links them, takes as many out of the hash, in the order of their pages, and
frees those. What it frees are in general not the objects that it has allocated in this round. The
allocator of the kernel is a parameter, `Slab`, and its documented behaviour is `Slab.Lawful`. -/

namespace SlabBulkTest03

variable {Obj Page : Type}

/-- `MAX_BULK` -/
def maxBulk : ℕ := 32768

/-- What must not happen: an object is read, linked or freed that is not allocated, it is linked or
freed while it is linked, a search does not come to an end, or a division is one by zero. -/
inductive Crash where
  | divideByZero
  | useAfterFree
  | linkedTwice
  | badFree
  | endless
  deriving DecidableEq

/-- The hash, the objects that are allocated, `GLOBAL_OBJS`, and how often `kmem_cache_alloc()` was
called. -/
structure Bench (Obj Page : Type) where
  hash : State Obj Page
  live : List Obj
  globalObjs : ℕ → Option Obj
  allocs : ℕ

/-- Before the module is loaded. -/
def Bench.init (page : Obj → Page) : Bench Obj Page where
  hash := .init page
  live := []
  globalObjs := fun _ => none
  allocs := 0

/-- An array of pointers. -/
abbrev Ptrs (Obj : Type) := ℕ → Option Obj

/-- The array starts with these objects. -/
def Stored (p : Ptrs Obj) (objs : List Obj) : Prop := ∀ j x, objs[j]? = some x → p j = some x

/-- The objects in the first entries of an array. -/
def entries (p : Ptrs Obj) (nr : ℕ) : List Obj := (List.range nr).filterMap p

/-- What the allocator of the kernel does in a call with this number, when these objects are
allocated: `kmem_cache_alloc()`, `kmem_cache_alloc_bulk()` and `kmem_cache_free_bulk()`. The bulk
calls give the objects that are allocated then, and the array. -/
structure Slab (Obj : Type) where
  alloc : ℕ → List Obj → Option Obj
  allocBulk : ℕ → List Obj → ℕ → Ptrs Obj → List Obj × Ptrs Obj × Bool
  freeBulk : List Obj → ℕ → Ptrs Obj → List Obj × Ptrs Obj

/-- **What is documented of the allocator.** -/
structure Slab.Lawful (slab : Slab Obj) : Prop where
  /-- An object that is handed out was not allocated. -/
  alloc : ∀ i live obj, slab.alloc i live = some obj → obj ∉ live
  /-- A bulk allocation that succeeds puts as many new objects into the array as asked for. -/
  allocBulk_true : ∀ i live nr p live' p', slab.allocBulk i live nr p = (live', p', true) →
    ∃ objs : List Obj, objs.length = nr ∧ objs.Nodup ∧ (∀ x ∈ objs, x ∉ live) ∧
      Stored p' objs ∧ live'.Perm (objs ++ live)
  /-- One that fails allocates nothing. -/
  allocBulk_false : ∀ i live nr p live' p', slab.allocBulk i live nr p = (live', p', false) →
    live'.Perm live
  /-- A bulk free frees distinct objects that are allocated, and nothing else. -/
  freeBulk : ∀ live objs p, Stored p objs → objs.Nodup → objs ⊆ live →
    live.Perm (objs ++ (slab.freeBulk live objs.length p).1)

/-- `kmem_cache_alloc()` -/
def kmemCacheAlloc (slab : Slab Obj) (s : Bench Obj Page) : Bench Obj Page × Option Obj :=
  match slab.alloc s.allocs s.live with
  | some obj => ({ s with allocs := s.allocs + 1, live := obj :: s.live }, some obj)
  | none => ({ s with allocs := s.allocs + 1 }, none)

/-- `kmem_cache_alloc_bulk()` into `GLOBAL_OBJS` -/
def kmemCacheAllocBulk (slab : Slab Obj) (s : Bench Obj Page) (nr : ℕ) : Bench Obj Page × Bool :=
  let (live, globalObjs, success) := slab.allocBulk s.allocs s.live nr s.globalObjs
  ({ s with allocs := s.allocs + 1, live := live, globalObjs := globalObjs }, success)

variable [DecidableEq Obj]

/-- `kmem_cache_free()` -/
def kmemCacheFree (s : Bench Obj Page) (obj : Option Obj) : Except Crash (Bench Obj Page) :=
  match obj with
  | some obj =>
      if obj ∈ s.live ∧ obj ∉ s.hash.linked then .ok { s with live := s.live.erase obj }
      else .error .badFree
  | none => .error .badFree

/-- `kmem_cache_free_bulk()`, which must not be given `NULL`, nor an object twice. -/
def kmemCacheFreeBulk (slab : Slab Obj) (s : Bench Obj Page) (nr : ℕ) (p : Ptrs Obj) :
    Except Crash (Bench Obj Page × Ptrs Obj) :=
  if (entries p nr).length = nr ∧ (entries p nr).Nodup ∧
      ∀ obj ∈ entries p nr, obj ∈ s.live ∧ obj ∉ s.hash.linked then
    let (live, p) := slab.freeBulk s.live nr p
    .ok ({ s with live := live }, p)
  else .error .badFree

/-- `my__kmem_cache_free_bulk()` of the first objects in `GLOBAL_OBJS`. -/
def myKmemCacheFreeBulk (s : Bench Obj Page) (nr : ℕ) : Except Crash (Bench Obj Page) :=
  CountedLoop.run (fun i s => kmemCacheFree s (s.globalObjs i)) nr s

/-- A round of `my__kmem_cache_alloc_bulk()` -/
def allocOne (slab : Slab Obj) (i : ℕ) (s : Bench Obj Page) :
    Except (ℕ × Bench Obj Page) (Bench Obj Page) :=
  let (s, x) := kmemCacheAlloc slab s
  let s := { s with globalObjs := Function.update s.globalObjs i x }
  if x.isNone then .error (i, s) else .ok s

/-- `my__kmem_cache_alloc_bulk()` into `GLOBAL_OBJS` -/
def myKmemCacheAllocBulk (slab : Slab Obj) (s : Bench Obj Page) (nr : ℕ) :
    Except Crash (Bench Obj Page × Bool) :=
  match CountedLoop.run (allocOne slab) nr s with
  | .ok s => .ok (s, true)
  | .error (i, s) => (myKmemCacheFreeBulk s i).map fun s => (s, false)

/-- `enum test_type` -/
inductive TestType where
  | fallbackBulk
  | bulk

/-- The bulk allocation of a benchmark. -/
def TestType.alloc (type : TestType) (slab : Slab Obj) (s : Bench Obj Page) (nr : ℕ) :
    Except Crash (Bench Obj Page × Bool) :=
  match type with
  | .bulk => .ok (kmemCacheAllocBulk slab s nr)
  | .fallbackBulk => myKmemCacheAllocBulk slab s nr

/-- The bulk free of a benchmark. -/
def TestType.free (type : TestType) (slab : Slab Obj) (s : Bench Obj Page) (nr : ℕ) :
    Except Crash (Bench Obj Page) :=
  match type with
  | .bulk => (kmemCacheFreeBulk slab s nr s.globalObjs).map fun r => { r.1 with globalObjs := r.2 }
  | .fallbackBulk => myKmemCacheFreeBulk s nr

/-- `objhash_add_one()` in the module. -/
def addOne (k : Kernel Obj Page) (s : Bench Obj Page) (obj : Option Obj) :
    Except Crash (Bench Obj Page) :=
  match obj with
  | some x =>
      if x ∉ s.live then .error .useAfterFree
      else if x ∈ s.hash.linked then .error .linkedTwice
      else .ok { s with hash := (objhashAddOne k s.hash obj).1 }
  | none => .ok { s with hash := (objhashAddOne k s.hash obj).1 }

variable [DecidableEq Page]

/-- `objhash_extract()` in the module. -/
def extract (k : Kernel Obj Page) (s : Bench Obj Page) (lastObj : Option Obj) (noMatch : Bool) :
    Except Crash (Bench Obj Page × Option Obj) :=
  if lastObj.all (· ∈ s.live) then
    match objhashExtract k s.hash lastObj noMatch hashsz with
    | some (hash, obj) => .ok ({ s with hash := hash }, obj)
    | none => .error .endless
  else .error .useAfterFree

/-- How a benchmark leaves its loops: a crash, or `goto out`. -/
inductive Leave (Obj Page : Type) where
  | crash (c : Crash)
  | out (s : Bench Obj Page)

/-- The variables of a benchmark. -/
structure Vars (Obj Page : Type) where
  bench : Bench Obj Page
  lastObj : Option Obj
  loopsCnt : ℕ

/-- A round of the loop that extracts the objects to free. -/
def extractOne (k : Kernel Obj Page) (moduloMatch j : ℕ) (v : Vars Obj Page) :
    Except (Leave Obj Page) (Vars Obj Page) :=
  let found :=
    if j % moduloMatch = 0 then extract k v.bench (v.bench.globalObjs 0) false
    else extract k v.bench v.lastObj true
  match found with
  | .error c => .error (.crash c)
  | .ok (s, none) => .error (.out s)
  | .ok (s, some obj) =>
      .ok { v with
        bench := { s with globalObjs := Function.update s.globalObjs j (some obj) }
        lastObj := some obj }

/-- Extract the objects to free from the hash, and free them. -/
def extractAndFree (k : Kernel Obj Page) (slab : Slab Obj) (type : TestType)
    (bulk moduloMatch : ℕ) (v : Vars Obj Page) : Except (Leave Obj Page) (Vars Obj Page) :=
  match CountedLoop.run (extractOne k moduloMatch) bulk v with
  | .error l => .error l
  | .ok v =>
      match type.free slab v.bench bulk with
      | .error c => .error (.crash c)
      | .ok s => .ok { v with bench := s, loopsCnt := v.loopsCnt + bulk }

/-- A round of the loop to measure. -/
def round (k : Kernel Obj Page) (slab : Slab Obj) (type : TestType) (bulk moduloMatch : ℕ)
    (v : Vars Obj Page) : Except (Leave Obj Page) (Vars Obj Page) :=
  match type.alloc slab v.bench bulk with
  | .error c => .error (.crash c)
  | .ok (s, false) => .error (.out s)
  | .ok (s, true) =>
      match CountedLoop.run (fun j s => addOne k s (s.globalObjs j)) bulk s with
      | .error c => .error (.crash c)
      | .ok s => extractAndFree k slab type bulk moduloMatch { v with bench := s }

/-- `__benchmark_slab_bulk()`: what it leaves. -/
def benchmarkSlabBulk (k : Kernel Obj Page) (slab : Slab Obj) (s : Bench Obj Page)
    (loops step : ℕ) (data : ℤ) (type : TestType) : Except Crash (Bench Obj Page) :=
  let moduloMatch := if data ≤ 0 then 32768 * 2 else data.toNat
  let bulk := if step > maxBulk then maxBulk else step
  if loops * bulk * 2 ≥ 2 ^ 32 - 1 then .ok s
  else
    match CountedLoop.run (fun _ => round k slab type bulk moduloMatch) loops ⟨s, none, 0⟩ with
    | .ok v => .ok v.bench
    | .error (.out s) => .ok s
    | .error (.crash c) => .error c

/-! ## The module -/

/-- The calls of `bulk_test()` and `bulk_N_same_page()` in `run_timing_tests()`: the `data` of the
benchmarks. -/
def timingTests (bulksz : UInt32) : List ℤ :=
  [0, 1, 2, 3, 4, 5, 6, 10, (bulksz + 1).toNat]

/-- The parameters of the module. -/
structure Params where
  bulksz : UInt32
  loops : UInt32
  prefill : UInt32
  nmatch : UInt32
  tryCrash : UInt32

/-- The benchmarks of `slab_bulk_test03_module_init()`, each with the bulk calls of the kernel and
then with the fallbacks. -/
def Params.tests (p : Params) : List (ℤ × TestType) :=
  (if p.nmatch = 0 then timingTests p.bulksz else [p.nmatch.toNat]).flatMap fun data =>
    [(data, .bulk), (data, .fallbackBulk)]

/-- `slab_bulk_test03_module_init()` up to the tests, once the slab is there. -/
def prefillHash (k : Kernel Obj Page) (slab : Slab Obj) (s : Bench Obj Page) (prefill : ℕ) :
    Except Crash (Bench Obj Page) :=
  CountedLoop.run (fun _ s =>
    let (s, obj) := kmemCacheAlloc slab s
    addOne k s obj) prefill s

/-- The benchmarks. -/
def runBenchmarks (k : Kernel Obj Page) (slab : Slab Obj) (p : Params) (s : Bench Obj Page) :
    Except Crash (Bench Obj Page) :=
  p.tests.foldlM (fun s test =>
    if p.bulksz = 0 then .error .divideByZero
    else benchmarkSlabBulk k slab s (p.loops / p.bulksz).toNat p.bulksz.toNat test.1 test.2) s

/-- The pointers at the start of an array, `NULL` behind them. -/
def arrayOf (objs : List (Option Obj)) : Ptrs Obj := fun i => (objs[i]?).join

/-- `run_try_crash_tests_level1()` -/
def runTryCrashTestsLevel1 (k : Kernel Obj Page) (slab : Slab Obj) (s : Bench Obj Page) :
    Except Crash (Bench Obj Page) := do
  -- "case hitting look-ahead"
  let (s, obj₀) ← extract k s none false
  let (s, obj₁) ← extract k s obj₀ false
  let (s, obj₂) ← extract k s obj₀ true
  let (s, obj₃) ← extract k s obj₀ false
  let (s, obj₄) ← extract k s obj₀ true
  let (s, obj₅) := kmemCacheAlloc slab s
  let (s, obj₆) ← extract k s obj₀ false
  let (s, _) ← kmemCacheFreeBulk slab s 7 (arrayOf [obj₀, obj₁, obj₂, obj₃, obj₄, obj₅, obj₆])
  -- "case hitting every second elem"
  let (s, obj₀) ← extract k s none false
  let (s, obj₁) ← extract k s obj₀ true
  let (s, obj₂) ← extract k s obj₀ false
  let (s, obj₃) ← extract k s obj₁ false
  let (s, obj₄) ← extract k s obj₀ false
  let (s, obj₅) ← extract k s obj₁ false
  let (s, obj₆) ← extract k s obj₀ false
  let (s, obj₇) ← extract k s obj₁ false
  let (s, _) ← kmemCacheFreeBulk slab s 8
    (arrayOf [obj₀, obj₁, obj₂, obj₃, obj₄, obj₅, obj₆, obj₇])
  return s

/-- `run_try_crash_tests_level2()` -/
def runTryCrashTestsLevel2 (slab : Slab Obj) (s : Bench Obj Page) :
    Except Crash (Bench Obj Page) := do
  let (s, objs) ← kmemCacheFreeBulk slab s 42 (arrayOf [])
  let (s, obj) := kmemCacheAlloc slab s
  let (s, objs) ← kmemCacheFreeBulk slab s 42 (Function.update objs 3 obj)
  let (s, obj₀) := kmemCacheAlloc slab s
  let (s, obj₁) := kmemCacheAlloc slab s
  let (s, obj₃) := kmemCacheAlloc slab s
  let (s, obj₄) := kmemCacheAlloc slab s
  let (s, obj₆) := kmemCacheAlloc slab s
  let start := [obj₀, obj₁, none, obj₃, obj₄, none, obj₆]
  let (s, _) ← kmemCacheFreeBulk slab s 42 fun i => if i < 7 then arrayOf start i else objs i
  return s

/-- The tests. -/
def runTests (k : Kernel Obj Page) (slab : Slab Obj) (p : Params) (s : Bench Obj Page) :
    Except Crash (Bench Obj Page) := do
  let s ← runBenchmarks k slab p s
  let s ← (if p.tryCrash ≥ 1 then runTryCrashTestsLevel1 k slab s else .ok s)
  if p.tryCrash ≥ 2 then runTryCrashTestsLevel2 slab s else .ok s

/-- Take the objects out of a bucket and free them. -/
def emptyBucket (i : ℕ) : List Obj → Bench Obj Page → Except Crash (Bench Obj Page)
  | [], s => .ok s
  | obj :: rest, s => do
      let hash := { s.hash with
        objhash := Function.update s.hash.objhash i rest
        objhashCnt := s.hash.objhashCnt - 1 }
      let s ← kmemCacheFree { s with hash := hash } (some obj)
      emptyBucket i rest s

/-- `slab_bulk_test03_module_exit()` -/
def moduleExit (s : Bench Obj Page) : Except Crash (Bench Obj Page) :=
  CountedLoop.run (fun i s => emptyBucket i (s.hash.objhash i) s) hashsz s

end SlabBulkTest03
