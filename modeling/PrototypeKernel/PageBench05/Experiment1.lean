import PrototypeKernel.Foundation.CountedLoop
import Mathlib.Algebra.Group.Nat.Defs
import Mathlib.Data.Int.Notation
import Mathlib.Data.List.Perm.Subperm

/-! # Pages through one queue, with a local stash

`time_cross_cpu_page_experiment1()` runs on two CPUs. The one with an even number allocates pages
and enqueues them, the other one dequeues pages, keeps two of them in a local array, and puts these.
The results of `alloc_pages()`, `ptr_ring_produce()` and `ptr_ring_consume()` are those that the
function gets in its iterations. -/

namespace PageBench05.Experiment1

open CountedLoop

variable {Page : Type*}

/-- What the function prints. -/
inductive Line where
  /-- `Need queue ptr as input` -/
  | needQueue
  /-- `Loop cnt too big will overflow 32-bit` -/
  | loopCntTooBig
  /-- `%s() WARN: enq fullq(CPU:%d) i:%d` -/
  | enqFullq (cpu i : ℕ)
  /-- `%s() WARN: deq emptyq (CPU:%d) i:%d` -/
  | deqEmptyq (cpu i : ℕ)
  deriving DecidableEq

/-- What the function is given, and the results of the calls in each iteration. -/
structure Env (Page : Type*) where
  /-- `smp_processor_id()` -/
  cpu : ℕ
  /-- The `queue` pointer is not `NULL`. -/
  hasQueue : Bool
  alloc : ℕ → Option Page
  /-- A negative number for a full queue. -/
  produce : ℕ → ℤ
  consume : ℕ → Option Page

/-- The CPU is the one that enqueues. -/
def Env.enqCPU (env : Env Page) : Bool := env.cpu % 2 == 0

/-- The variables of the function, and what has become of its pages. -/
structure Run (Page : Type*) where
  /-- `array`, up to `stack_cnt`. -/
  stash : List Page
  loopsCnt : ℕ
  /-- The pages that have been allocated or consumed. -/
  taken : List Page
  /-- The pages that `put_page()` has been called for. -/
  put : List Page
  /-- The pages that have been produced. -/
  inRing : List Page
  lines : List Line
  deriving DecidableEq

/-- Before the first iteration nothing has been taken or put. -/
def start : Run Page := ⟨[], 0, [], [], [], []⟩

/-- An iteration on the enqueue side. -/
def enqueueIteration (env : Env Page) (i : ℕ) (s : Run Page) : Except (Run Page) (Run Page) :=
  let page := env.alloc i
  let s := { s with taken := s.taken ++ page.toList }
  if env.produce i < 0 then .error { s with lines := s.lines ++ [.enqFullq env.cpu i] }
  else .ok { s with inRing := s.inRing ++ page.toList, loopsCnt := s.loopsCnt + 1 }

/-- An iteration on the dequeue side. -/
def dequeueIteration (env : Env Page) (i : ℕ) (s : Run Page) : Except (Run Page) (Run Page) :=
  match env.consume i with
  | none => .error { s with lines := s.lines ++ [.deqEmptyq env.cpu i] }
  | some npage =>
    let s := { s with taken := s.taken ++ [npage] }
    if s.stash.length < 2 then
      .ok { s with stash := s.stash ++ [npage], loopsCnt := s.loopsCnt + 1 }
    else
      -- `npage` is now overwritten by each entry of the array
      .ok { s with put := s.put ++ s.stash, stash := [], loopsCnt := s.loopsCnt + 1 }

/-- An iteration of the measuring loop. -/
def iteration (env : Env Page) : ℕ → Run Page → Except (Run Page) (Run Page) :=
  if env.enqCPU then enqueueIteration env else dequeueIteration env

/-- What the function leaves in its record, what it returns, and its run. -/
structure Result (Page : Type*) where
  /-- `rec->step` -/
  step : Bool
  /-- The argument of `time_bench_stop()`, if it is called. -/
  invokedCnt : Option ℕ
  ret : ℕ
  run : Run Page

/-- `time_cross_cpu_page_experiment1()` -/
def timeCrossCpuPageExperiment1 (env : Env Page) (loops : UInt32) : Result Page :=
  if !env.hasQueue then
    ⟨env.enqCPU, none, 0, { start with lines := [.needQueue] }⟩
  else if loops.toNat * 2 ≥ 2 ^ 32 - 1 then
    ⟨env.enqCPU, none, 0, { start with lines := [.loopCntTooBig] }⟩
  else
    let s := final (run (iteration env) loops.toNat start)
    ⟨env.enqCPU, some s.loopsCnt, s.loopsCnt, s⟩

/-- Every page that was taken has been put once, or is in the ring. -/
def Conserved (s : Run Page) : Prop := (s.put ++ s.inRing).Perm s.taken

variable {env : Env Page} {i n : ℕ} {s s' : Run Page}

/-! ## No page is put twice -/

/-- An iteration takes no page out of the record of what was taken without a `put_page()`. -/
def NoDoublePut (s : Run Page) : Prop := (s.put ++ s.stash ++ s.inRing).Subperm s.taken

/-- An iteration of the enqueuing CPU puts no page twice. -/
theorem noDoublePut_enqueueIteration (env : Env Page) (i : ℕ) (h : NoDoublePut s) :
    NoDoublePut (final (enqueueIteration env i s)) := by
  unfold enqueueIteration
  dsimp only
  split
  · exact h.trans (List.sublist_append_left _ _).subperm
  · show (s.put ++ s.stash ++ (s.inRing ++ (env.alloc i).toList)).Subperm
      (s.taken ++ (env.alloc i).toList)
    rw [← List.append_assoc]
    exact (List.subperm_append_right _).mpr h

/-- An iteration of the dequeuing CPU puts no page twice. -/
theorem noDoublePut_dequeueIteration (env : Env Page) (i : ℕ) (h : NoDoublePut s) :
    NoDoublePut (final (dequeueIteration env i s)) := by
  unfold dequeueIteration
  split
  · exact h
  · rename_i npage _
    dsimp only
    split
    · show (s.put ++ (s.stash ++ [npage]) ++ s.inRing).Subperm (s.taken ++ [npage])
      have hperm : (s.put ++ (s.stash ++ [npage]) ++ s.inRing).Perm
          (s.put ++ s.stash ++ s.inRing ++ [npage]) := by
        simp only [List.append_assoc]
        exact (List.perm_append_comm.append_left s.stash).append_left s.put
      exact hperm.subperm.trans ((List.subperm_append_right _).mpr h)
    · show (s.put ++ s.stash ++ [] ++ s.inRing).Subperm (s.taken ++ [npage])
      rw [List.append_nil]
      exact h.trans (List.sublist_append_left _ _).subperm

/-- **No page is put twice**, nor put while it is in the ring or in the stash, in any run. -/
theorem noDoublePut (env : Env Page) (loops : UInt32) :
    NoDoublePut (timeCrossCpuPageExperiment1 env loops).run := by
  unfold timeCrossCpuPageExperiment1
  split
  · exact List.Subperm.refl _
  split
  · exact List.Subperm.refl _
  · have hstart : NoDoublePut (start : Run Page) := List.Subperm.refl _
    refine final_run_of_forall hstart (fun i s h => ?_) loops.toNat
    unfold iteration
    split
    · exact noDoublePut_enqueueIteration env i h
    · exact noDoublePut_dequeueIteration env i h

/-! ## The enqueue side -/

/-- The pages in the ring are those that were allocated, as long as no produce fails. -/
structure Enqueued (env : Env Page) (i : ℕ) (s : Run Page) : Prop where
  taken : s.taken = s.inRing
  put : s.put = []
  produce : ∀ j < i, 0 ≤ env.produce j

/-- An iteration of the enqueuing CPU that goes on. -/
theorem enqueueIteration_eq_ok (h : enqueueIteration env i s = .ok s') (hs : Enqueued env i s) :
    Enqueued env (i + 1) s' := by
  unfold enqueueIteration at h
  dsimp only at h
  split at h
  · cases h
  · rename_i hprod
    cases h
    refine ⟨by rw [hs.taken], hs.put, fun j hj => ?_⟩
    rcases Nat.lt_succ_iff_lt_or_eq.mp hj with hj | rfl
    · exact hs.produce j hj
    · exact Int.not_lt.mp hprod

/-- The enqueuing CPU stops when the ring is full. -/
theorem enqueueIteration_eq_error (h : enqueueIteration env i s = .error s') :
    env.produce i < 0 ∧ s'.taken = s.taken ++ (env.alloc i).toList ∧ s'.put = s.put ∧
      s'.inRing = s.inRing := by
  unfold enqueueIteration at h
  dsimp only at h
  split at h
  · rename_i hprod
    cases h
    exact ⟨hprod, rfl, rfl, rfl⟩
  · cases h

/-- No page is allocated for the produce that fails. -/
def EnqueueKeeps (env : Env Page) (n : ℕ) : Prop :=
  ∀ k < n, (∀ j < k, 0 ≤ env.produce j) → env.produce k < 0 → env.alloc k = none

/-- When the enqueue side loses no page. -/
theorem conserved_enqueue_iff (env : Env Page) (n : ℕ) :
    Conserved (final (run (enqueueIteration env) n start)) ↔ EnqueueKeeps env n := by
  have hstart : Enqueued env 0 start := ⟨rfl, rfl, fun j hj => absurd hj (Nat.not_lt_zero j)⟩
  obtain ⟨s', hrun, hs'⟩ | ⟨k, hk, s₁, s', hs₁, hlast, hrun⟩ :=
    run_cases (n := n) hstart fun k s s' _ hs h => enqueueIteration_eq_ok h hs
  · rw [hrun]
    refine iff_of_true ?_ fun k hk _ hneg => absurd (hs'.produce k hk) (Int.not_le.mpr hneg)
    show (s'.put ++ s'.inRing).Perm s'.taken
    rw [hs'.put, hs'.taken, List.nil_append]
  · obtain ⟨hneg, htaken, hput, hring⟩ := enqueueIteration_eq_error hlast
    rw [hrun]
    show (s'.put ++ s'.inRing).Perm s'.taken ↔ _
    rw [hput, hs₁.put, hring, htaken, hs₁.taken, List.nil_append]
    constructor
    · intro hperm k' hk' hbefore hneg'
      have hkk : k' = k := by
        rcases Nat.lt_trichotomy k' k with hlt | heq | hgt
        · exact absurd (hs₁.produce k' hlt) (Int.not_le.mpr hneg')
        · exact heq
        · exact absurd (hbefore k hgt) (Int.not_le.mpr hneg)
      have hlen := hperm.length_eq
      rw [List.length_append] at hlen
      rw [hkk, ← Option.toList_eq_nil_iff, ← List.length_eq_zero_iff]
      omega
    · intro hkeeps
      rw [hkeeps k hk hs₁.produce hneg, Option.toList_none, List.append_nil]

/-! ## The dequeue side -/

/-- Two of three pages that were consumed are put, the third one is lost. -/
structure Dequeued (env : Env Page) (i : ℕ) (s : Run Page) : Prop where
  stash : s.stash.length ≤ 2
  taken : s.taken.length = i
  lost : 2 * i = 3 * s.put.length + 2 * s.stash.length
  inRing : s.inRing = []

/-- An iteration of the dequeuing CPU that goes on. -/
theorem dequeueIteration_eq_ok (h : dequeueIteration env i s = .ok s') (hs : Dequeued env i s) :
    Dequeued env (i + 1) s' := by
  obtain ⟨hstash, htaken, hlost, hring⟩ := hs
  unfold dequeueIteration at h
  split at h
  · cases h
  · dsimp only at h
    split at h
    · rename_i hlt
      cases h
      refine ⟨?_, ?_, ?_, hring⟩
      · rw [List.length_append, List.length_singleton]
        omega
      · rw [List.length_append, List.length_singleton, htaken]
      · show 2 * (i + 1) = 3 * s.put.length + 2 * (s.stash ++ [_]).length
        rw [List.length_append, List.length_singleton]
        omega
    · rename_i hlt
      cases h
      refine ⟨Nat.zero_le 2, ?_, ?_, hring⟩
      · rw [List.length_append, List.length_singleton, htaken]
      · rw [List.length_append, List.length_nil]
        omega

/-- The dequeuing CPU stops when the ring is empty. -/
theorem dequeueIteration_eq_error (h : dequeueIteration env i s = .error s') :
    env.consume i = none ∧ s'.taken = s.taken ∧ s'.put = s.put ∧ s'.inRing = s.inRing := by
  unfold dequeueIteration at h
  split at h
  · rename_i hnone
    cases h
    exact ⟨hnone, rfl, rfl, rfl⟩
  · dsimp only at h
    split at h <;> cases h

/-- A run of the dequeue side keeps its pages when there are none. -/
theorem conserved_dequeued_iff (hs : Dequeued env i s) (htaken : s'.taken = s.taken)
    (hput : s'.put = s.put) (hring : s'.inRing = s.inRing) : Conserved s' ↔ i = 0 := by
  obtain ⟨hstash, hlen, hlost, hempty⟩ := hs
  rw [Conserved, htaken, hput, hring, hempty, List.append_nil]
  constructor
  · intro hperm
    have := hperm.length_eq
    omega
  · rintro rfl
    rw [List.length_eq_zero_iff.mp hlen, List.length_eq_zero_iff.mp (by omega : s.put.length = 0)]

/-- When the dequeue side loses no page: it has consumed none. -/
theorem conserved_dequeue_iff (env : Env Page) (n : ℕ) :
    Conserved (final (run (dequeueIteration env) n start)) ↔ n = 0 ∨ env.consume 0 = none := by
  have hstart : Dequeued env 0 start := ⟨Nat.zero_le 2, rfl, rfl, rfl⟩
  -- the iterations that are run have consumed a page
  have hnext : ∀ k s s', k < n →
      (Dequeued env k s ∧ (0 < k → env.consume 0 ≠ none)) → dequeueIteration env k s = .ok s' →
      Dequeued env (k + 1) s' ∧ (0 < k + 1 → env.consume 0 ≠ none) := by
    rintro k s s' - ⟨hs, hfirst⟩ h
    refine ⟨dequeueIteration_eq_ok h hs, fun _ => ?_⟩
    rcases Nat.eq_zero_or_pos k with rfl | hk
    · intro hnone
      rw [dequeueIteration, hnone] at h
      cases h
    · exact hfirst hk
  obtain ⟨s', hrun, hs', hfirst⟩ | ⟨k, hk, s₁, s', ⟨hs₁, hfirst⟩, hlast, hrun⟩ :=
    run_cases ⟨hstart, fun h => absurd h (Nat.lt_irrefl 0)⟩ hnext
  · rw [hrun]
    refine (conserved_dequeued_iff hs' rfl rfl rfl).trans (or_iff_left_of_imp fun hnone => ?_).symm
    exact Nat.eq_zero_of_not_pos fun hn => hfirst hn hnone
  · obtain ⟨hnone, htaken, hput, hring⟩ := dequeueIteration_eq_error hlast
    rw [hrun]
    refine (conserved_dequeued_iff hs₁ htaken hput hring).trans ?_
    rw [or_iff_right (Nat.ne_of_gt (Nat.zero_lt_of_lt hk))]
    constructor
    · rintro rfl
      exact hnone
    · exact fun hnone => Nat.eq_zero_of_not_pos fun hn => hfirst hn hnone

/-! ## Both sides -/

/-- The function returns before its loop. -/
def Refused (env : Env Page) (loops : UInt32) : Prop :=
  env.hasQueue = false ∨ loops.toNat * 2 ≥ 2 ^ 32 - 1

/-- **When every page has been put once or is in the ring**: the enqueue side fails to produce no
page that it has allocated, and the dequeue side consumes none. -/
theorem conserved_iff (env : Env Page) (loops : UInt32) :
    Conserved (timeCrossCpuPageExperiment1 env loops).run ↔ Refused env loops ∨
      if env.enqCPU then EnqueueKeeps env loops.toNat else loops = 0 ∨ env.consume 0 = none := by
  unfold timeCrossCpuPageExperiment1
  by_cases hqueue : env.hasQueue = false
  · rw [if_pos (by rw [hqueue]; rfl)]
    exact iff_of_true (List.Perm.refl _) (.inl (.inl hqueue))
  rw [if_neg (by simpa using hqueue)]
  by_cases hbig : loops.toNat * 2 ≥ 2 ^ 32 - 1
  · rw [if_pos hbig]
    exact iff_of_true (List.Perm.refl _) (.inl (.inr hbig))
  have hnot : ¬ Refused env loops := not_or.mpr ⟨hqueue, hbig⟩
  rw [if_neg hbig, or_iff_right hnot]
  show Conserved (final (run (iteration env) loops.toNat start)) ↔ _
  unfold iteration
  split
  · exact conserved_enqueue_iff env loops.toNat
  · rw [conserved_dequeue_iff, ← UInt32.toNat_inj, UInt32.toNat_zero]

/-- The dequeue CPU, with a page in each iteration. -/
def dequeuing : Env ℕ where
  cpu := 1
  hasQueue := true
  alloc := fun _ => none
  produce := fun _ => 0
  consume := some

/-- **The third page that is consumed is lost**: the two pages of the stash are put. -/
theorem not_conserved_dequeuing :
    (timeCrossCpuPageExperiment1 dequeuing 3).run =
        ⟨[], 3, [0, 1, 2], [0, 1], [], []⟩ ∧
      ¬ Conserved (timeCrossCpuPageExperiment1 dequeuing 3).run := by
  have hrun : (timeCrossCpuPageExperiment1 dequeuing 3).run =
      ⟨[], 3, [0, 1, 2], [0, 1], [], []⟩ := by decide
  refine ⟨hrun, fun hperm => ?_⟩
  rw [hrun] at hperm
  exact absurd hperm.length_eq (by decide)

end PageBench05.Experiment1
