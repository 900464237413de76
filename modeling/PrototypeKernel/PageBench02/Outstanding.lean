import PrototypeKernel.Foundation.CountedLoop
import PrototypeKernel.Foundation.WhileLoop
import PrototypeKernel.Foundation.WrappingCounter
import Mathlib.Order.Nat

/-! # Outstanding pages

`time_alloc_pages_outstanding()` keeps a number of pages allocated before it frees them. Each round
of its measuring loop allocates this number of pages into an array, adds it to the loop's counter,
and frees the array's pages. The calls of `alloc_pages()` are numbered. -/

namespace PageBench02

variable {Page : Type}

/-- `MAX_STORE` -/
def maxStore : ℕ := 8192

/-- What the function prints, unless it is verbose. -/
inductive Line where
  /-- `%s() allocs_before_free(%d) request too big >%d` -/
  | requestTooBig (allocsBeforeFree : Int32)
  /-- `FAILED N=%d outstanding pages order:%d i:%d j:%d` -/
  | failed (allocsBeforeFree : Int32) (order : ℕ) (i : Int32) (j : ℕ)
  deriving DecidableEq

/-- What the function is given, and the results of its calls. -/
structure Env (Page : Type) where
  /-- `kzalloc()` returns an array. -/
  hasStore : Bool
  alloc : ℕ → Option Page
  /-- `page_order` -/
  order : ℕ

/-- The variables of the function, and its calls. -/
structure State (Page : Type) where
  i : Int32
  j : ℕ
  store : ℕ → Option Page
  /-- The number of calls of `alloc_pages()`. -/
  calls : ℕ
  allocated : List Page
  /-- The arguments of `__free_pages()`. -/
  freed : List (Option Page)
  /-- The calls of `kfree()` for the array. -/
  storeFrees : ℕ
  lines : List Line

/-- After `kzalloc()`. -/
def start : State Page := ⟨0, 0, fun _ => none, 0, [], [], 0, []⟩

/-- An iteration of the loop that allocates. -/
def allocPage (env : Env Page) (j : ℕ) (s : State Page) : Except (State Page) (State Page) :=
  match env.alloc s.calls with
  | none => .error { s with calls := s.calls + 1 }
  | some page => .ok { s with
      calls := s.calls + 1
      allocated := s.allocated ++ [page]
      store := fun k => if k = j then some page else s.store k
      j := j + 1 }

/-- The first `n` iterations of a loop that frees, with its variable in `j`. -/
def freePages : ℕ → State Page → State Page
  | 0, s => { s with j := 0 }
  | n + 1, s =>
    let s := freePages n s
    { s with freed := s.freed ++ [s.store s.j], j := s.j + 1 }

/-- A round of the measuring loop. -/
def round (env : Env Page) (n : ℕ) (s : State Page) : Except (State Page) (State Page) :=
  match CountedLoop.run (allocPage env) n { s with j := 0 } with
  | .error s => .error s
  | .ok s => .ok (freePages n { s with i := s.i + Int32.ofNat s.j })

/-- The measuring loop. The comparison is one of `uint32_t`. -/
def measure (env : Env Page) (loops : UInt32) (step : Int32) :
    ℕ → State Page → Option (Except (State Page) (State Page)) :=
  WhileLoop.run (fun s => decide (s.i.toUInt32 < loops)) (round env step.toInt.toNat)

/-- The code at `out`. Its loop uses `i` and frees the first `j` entries; `kfree(NULL)` does
nothing. -/
def out (env : Env Page) (step : Int32) (s : State Page) : State Page :=
  let s := { s with lines := s.lines ++ [.failed step env.order s.i s.j] }
  let s := { freePages s.j s with i := Int32.ofNat s.j }
  if env.hasStore then { s with storeFrees := s.storeFrees + 1 } else s

/-- `time_alloc_pages_outstanding()`, for the value it returns and the state it leaves, unless its
loop needs more rounds. -/
def timeAllocPagesOutstanding (env : Env Page) (loops : UInt32) (step : Int32) (fuel : ℕ) :
    Option (Int32 × State Page) :=
  if !env.hasStore then some (0, out env step start)
  else if maxStore < step.toInt then
    some (0, { start with lines := [.requestTooBig step] })
  else
    match measure env loops step fuel start with
    | none => none
    | some (.ok s) => some (s.i, s)
    | some (.error s) => some (0, out env step s)

/-! ## The loops of a round -/

variable {env : Env Page} {loops : UInt32} {step : Int32} {j k n fuel : ℕ} {s s' s₀ : State Page}

/-- A loop that frees calls `__free_pages()` for the first entries of the array. -/
theorem freePages_eq (n : ℕ) (s : State Page) :
    freePages n s = { s with freed := s.freed ++ (List.range n).map s.store, j := n } := by
  induction n with
  | zero => simp [freePages]
  | succ n ih => simp [freePages, ih, List.range_succ]

/-- After `m` pages have been allocated from `s₀` on, they are the first `m` entries of the array.
-/
structure Filled (env : Env Page) (s₀ : State Page) (m : ℕ) (s : State Page) : Prop where
  i : s.i = s₀.i
  j : s.j = m
  calls : s.calls = s₀.calls + m
  freed : s.freed = s₀.freed
  storeFrees : s.storeFrees = s₀.storeFrees
  pages : ∃ pages, s.allocated = s₀.allocated ++ pages ∧
    (List.range m).map s.store = pages.map some
  alloc : ∀ c < m, env.alloc (s₀.calls + c) ≠ none

/-- Before the first page the array is empty. -/
theorem filled_zero (env : Env Page) (s : State Page) : Filled env s 0 { s with j := 0 } :=
  ⟨rfl, rfl, rfl, rfl, rfl, ⟨[], by simp⟩, fun c hc => absurd hc (Nat.not_lt_zero c)⟩

/-- An allocation that succeeds fills the next entry. -/
theorem filled_allocPage (hs : Filled env s₀ j s) (h : allocPage env j s = .ok s') :
    Filled env s₀ (j + 1) s' := by
  obtain ⟨hi, hj, hcalls, hfreed, hfrees, ⟨pages, hallocated, hstore⟩, halloc⟩ := hs
  unfold allocPage at h
  split at h
  · cases h
  · rename_i page hpage
    cases h
    have hbefore : (List.range j).map (fun k => if k = j then some page else s.store k) =
        (List.range j).map s.store :=
      List.map_congr_left fun k hk => if_neg (Nat.ne_of_lt (List.mem_range.mp hk))
    refine ⟨hi, rfl, by rw [hcalls, Nat.add_assoc], hfreed, hfrees, ⟨pages ++ [page], ?_, ?_⟩,
      fun c hc => ?_⟩
    · rw [hallocated, List.append_assoc]
    · rw [List.range_succ, List.map_append, hbefore, hstore, List.map_append]
      simp
    · rcases Nat.lt_succ_iff_lt_or_eq.mp hc with hc | rfl
      · exact halloc c hc
      · rw [← hcalls, hpage]
        exact Option.some_ne_none page

/-- An allocation that fails changes the number of calls only. -/
theorem allocPage_eq_error (h : allocPage env j s = .error s') :
    env.alloc s.calls = none ∧ s' = { s with calls := s.calls + 1 } := by
  unfold allocPage at h
  split at h
  · rename_i hnone
    cases h
    exact ⟨hnone, rfl⟩
  · cases h

/-- **What `out` frees**: the entries of a round that is not complete. -/
structure Partial (s : State Page) : Prop where
  freed : (s.freed ++ (List.range s.j).map s.store).Perm (s.allocated.map some)
  storeFrees : s.storeFrees = 0

/-! ## The measuring loop -/

/-- After `k` rounds of `n` allocations all pages are freed. -/
structure Rounds (env : Env Page) (n k : ℕ) (s : State Page) : Prop where
  i : s.i.toUInt32.toNat = k * n % 2 ^ 32
  calls : s.calls = k * n
  freed : s.freed.Perm (s.allocated.map some)
  storeFrees : s.storeFrees = 0
  alloc : ∀ c < k * n, env.alloc c ≠ none

/-- Before the first round nothing is allocated. -/
theorem rounds_start (env : Env Page) (n : ℕ) : Rounds env n 0 start :=
  ⟨by rw [Nat.zero_mul]; rfl, (Nat.zero_mul n).symm, .refl _, rfl,
    fun c hc => absurd (Nat.zero_mul n ▸ hc) (Nat.not_lt_zero c)⟩

/-- **What a round does**: it goes on with all of its pages freed, or one of its allocations fails.
-/
theorem round_cases (hs : Rounds env n k s) :
    (∃ s', round env n s = .ok s' ∧ Rounds env n (k + 1) s') ∨
      ∃ s', round env n s = .error s' ∧ Partial s' ∧ ∃ c < (k + 1) * n, env.alloc c = none := by
  obtain ⟨s', hrun, hs'⟩ | ⟨j, hj, s₁, s', hs₁, hlast, hrun⟩ :=
    CountedLoop.run_cases (n := n) (filled_zero env s) fun j s s' _ h hbody =>
      filled_allocPage h hbody
  · obtain ⟨hi, hj, hcalls, hfreed, hfrees, ⟨pages, hallocated, hstore⟩, halloc⟩ := hs'
    refine .inl ⟨_, by rw [round, hrun], ?_⟩
    rw [freePages_eq]
    constructor
    · show (s'.i + Int32.ofNat s'.j).toUInt32.toNat = _
      rw [hi, hj, Int32.toUInt32_add, Int32.toUInt32_ofNat', UInt32.toNat_add, UInt32.toNat_ofNat',
        hs.i, ← Nat.add_mod, Nat.succ_mul]
    · show s'.calls = _
      rw [hcalls, hs.calls, Nat.succ_mul]
    · show (s'.freed ++ (List.range n).map s'.store).Perm (s'.allocated.map some)
      rw [hfreed, hstore, hallocated, List.map_append]
      exact hs.freed.append_right _
    · exact hfrees.trans hs.storeFrees
    · intro c hc
      rcases Nat.lt_or_ge c (k * n) with hlt | hge
      · exact hs.alloc c hlt
      · obtain ⟨d, rfl⟩ := Nat.exists_eq_add_of_le hge
        rw [← hs.calls]
        exact halloc d (by rw [Nat.succ_mul] at hc; omega)
  · obtain ⟨hi, hj', hcalls, hfreed, hfrees, ⟨pages, hallocated, hstore⟩, halloc⟩ := hs₁
    obtain ⟨hnone, rfl⟩ := allocPage_eq_error hlast
    have hround : round env n s = .error { s₁ with calls := s₁.calls + 1 } := by rw [round, hrun]
    refine .inr ⟨_, hround, ⟨?_, hfrees.trans hs.storeFrees⟩, s₁.calls, ?_, hnone⟩
    · show (s₁.freed ++ (List.range s₁.j).map s₁.store).Perm (s₁.allocated.map some)
      rw [hj', hfreed, hstore, hallocated, List.map_append]
      exact hs.freed.append_right _
    · rw [hcalls, hs.calls, Nat.succ_mul]
      exact Nat.add_lt_add_left hj (k * n)

/-- The test of the measuring loop in a round. -/
theorem rounds_not_done_iff (hs : Rounds env n k s) :
    decide (s.i.toUInt32 < loops) = false ↔ loops.toNat ≤ k * n % 2 ^ 32 := by
  rw [decide_eq_false_iff_not, UInt32.lt_iff_toNat_lt, hs.i, Nat.not_lt]

/-- **How the measuring loop ends**: with its counter at the bound, or with a failed allocation. -/
theorem measure_cases {r : Except (State Page) (State Page)}
    (h : measure env loops step fuel start = some r) :
    (∃ k s, r = .ok s ∧ Rounds env step.toInt.toNat k s ∧
      loops.toNat ≤ k * step.toInt.toNat % 2 ^ 32) ∨
      ∃ k s c, r = .error s ∧ Partial s ∧ c < (k + 1) * step.toInt.toNat ∧ env.alloc c = none ∧
        k * step.toInt.toNat % 2 ^ 32 < loops.toNat := by
  have hstep : ∀ k s s', Rounds env step.toInt.toNat k s → decide (s.i.toUInt32 < loops) = true →
      round env step.toInt.toNat s = .ok s' → Rounds env step.toInt.toNat (k + 1) s' := by
    intro k s s' hs _ hbody
    obtain ⟨s₁, hok, hs₁⟩ | ⟨s₁, herror, -⟩ := round_cases hs
    · rw [hok] at hbody
      cases hbody
      exact hs₁
    · rw [herror] at hbody
      cases hbody
  obtain ⟨k, s, hs, ⟨hdone, hr⟩ | ⟨hcond, e, hbody, hr⟩⟩ :=
    WhileLoop.exists_of_run_eq_some (rounds_start env step.toInt.toNat) hstep h
  · exact .inl ⟨k, s, hr, hs, (rounds_not_done_iff hs).mp hdone⟩
  · obtain ⟨s', hok, -⟩ | ⟨s', herror, hpartial, c, hc, hnone⟩ := round_cases hs
    · rw [hok] at hbody
      cases hbody
    · rw [herror] at hbody
      cases hbody
      refine .inr ⟨k, _, c, hr, hpartial, hc, hnone, ?_⟩
      rw [decide_eq_true_iff, UInt32.lt_iff_toNat_lt, hs.i] at hcond
      exact hcond

/-- **The measuring loop ends** in the first round that starts with the counter at the bound, if the
allocations before it succeed. -/
theorem exists_measure_eq_ok (hk : loops.toNat ≤ k * step.toInt.toNat % 2 ^ 32)
    (hfirst : ∀ j < k, j * step.toInt.toNat % 2 ^ 32 < loops.toNat)
    (halloc : ∀ c < k * step.toInt.toNat, env.alloc c ≠ none) :
    ∃ s, measure env loops step (k + 1) start = some (.ok s) ∧
      Rounds env step.toInt.toNat k s := by
  have hnext : ∀ j (s : State Page), j < 0 + k → Rounds env step.toInt.toNat j s →
      decide (s.i.toUInt32 < loops) = true ∧
        ∃ s', round env step.toInt.toNat s = .ok s' ∧ Rounds env step.toInt.toNat (j + 1) s' := by
    intro j s hj hs
    rw [Nat.zero_add] at hj
    refine ⟨decide_eq_true (UInt32.lt_iff_toNat_lt.mpr (hs.i ▸ hfirst j hj)), ?_⟩
    obtain hok | ⟨s₁, -, -, c, hc, hnone⟩ := round_cases hs
    · exact hok
    · exact absurd hnone (halloc c (Nat.lt_of_lt_of_le hc (Nat.mul_le_mul_right _ hj)))
  obtain ⟨s, hrun, hs⟩ := WhileLoop.exists_run_eq_ok (rounds_start env step.toInt.toNat) hnext
    fun s hs => (rounds_not_done_iff hs).mpr (by rwa [Nat.zero_add])
  rw [Nat.zero_add] at hs
  exact ⟨s, hrun, hs⟩

/-! ## What is left at the end -/

/-- **Nothing is left**: each page that was allocated is freed once, and so is the array. -/
structure Clean (env : Env Page) (s : State Page) : Prop where
  pages : s.freed.Perm (s.allocated.map some)
  store : env.hasStore = true → s.storeFrees = 1

/-- The code at `out` leaves nothing. -/
theorem clean_out (step : Int32) (hs : Partial s) : Clean env (out env step s) := by
  have hout : (out env step s).freed = s.freed ++ (List.range s.j).map s.store ∧
      (out env step s).allocated = s.allocated ∧
      (env.hasStore = true → (out env step s).storeFrees = s.storeFrees + 1) := by
    unfold out
    dsimp only
    rw [freePages_eq]
    split
    · exact ⟨rfl, rfl, fun _ => rfl⟩
    · rename_i hstore
      exact ⟨rfl, rfl, fun h => absurd h hstore⟩
  obtain ⟨hfreed, hallocated, hfrees⟩ := hout
  refine ⟨?_, fun h => ?_⟩
  · rw [hfreed, hallocated]
    exact hs.freed
  · rw [hfrees h, hs.storeFrees]

/-- At the start there is nothing to free. -/
theorem partial_start : Partial (start : State Page) := ⟨.refl _, rfl⟩

/-- The success exit is reached: a round starts with the counter at the bound, and the allocations
before it succeed. -/
def Completes (env : Env Page) (loops : UInt32) (n : ℕ) : Prop :=
  ∃ k, (∀ c < k * n, env.alloc c ≠ none) ∧ loops.toNat ≤ k * n % 2 ^ 32

/-- The success exit, from the first round that starts with the counter at the bound. -/
theorem exists_measure_of_completes (h : Completes env loops step.toInt.toNat) :
    ∃ fuel k s, measure env loops step fuel start = some (.ok s) ∧
      Rounds env step.toInt.toNat k s ∧ loops.toNat ≤ k * step.toInt.toNat % 2 ^ 32 ∧
      ∀ j < k, j * step.toInt.toNat % 2 ^ 32 < loops.toNat := by
  obtain ⟨k₀, halloc, hk₀⟩ := h
  have hex : ∃ k, loops.toNat ≤ k * step.toInt.toNat % 2 ^ 32 := ⟨k₀, hk₀⟩
  have hfirst : ∀ j < Nat.find hex, j * step.toInt.toNat % 2 ^ 32 < loops.toNat := fun j hj =>
    Nat.lt_of_not_le (Nat.find_min hex hj)
  have hle : Nat.find hex ≤ k₀ := Nat.find_min' hex hk₀
  obtain ⟨s, hrun, hs⟩ := exists_measure_eq_ok (Nat.find_spec hex) hfirst fun c hc =>
    halloc c (Nat.lt_of_lt_of_le hc (Nat.mul_le_mul_right _ hle))
  exact ⟨_, _, s, hrun, hs, Nat.find_spec hex, hfirst⟩

/-- The exit without an array. -/
theorem eq_some_of_hasStore_eq_false (h : env.hasStore = false) :
    timeAllocPagesOutstanding env loops step fuel = some (0, out env step start) := by
  rw [timeAllocPagesOutstanding, if_pos (by rw [h]; rfl)]

/-- The exit for a request that is too big. -/
theorem eq_some_of_requestTooBig (h : env.hasStore = true) (hbig : maxStore < step.toInt) :
    timeAllocPagesOutstanding env loops step fuel =
      some (0, { start with lines := [.requestTooBig step] }) := by
  rw [timeAllocPagesOutstanding, if_neg (by rw [h]; decide), if_pos hbig]

/-- The exits of the measuring loop. -/
theorem eq_some_iff (h : env.hasStore = true) (hbig : step.toInt ≤ maxStore) {ret : Int32} :
    timeAllocPagesOutstanding env loops step fuel = some (ret, s) ↔
      (measure env loops step fuel start = some (.ok s) ∧ ret = s.i) ∨
        ∃ s₁, measure env loops step fuel start = some (.error s₁) ∧ ret = 0 ∧
          s = out env step s₁ := by
  rw [timeAllocPagesOutstanding, if_neg (by rw [h]; decide), if_neg (Int.not_lt.mpr hbig)]
  cases measure env loops step fuel start with
  | none => simp
  | some r =>
    cases r with
    | ok s₁ => simp only [Option.some_inj, Prod.mk.injEq, Except.ok.injEq]; grind
    | error s₁ => simp only [Option.some_inj, Prod.mk.injEq]; grind

/-- **When nothing is left on every return**: there is no array, or the function neither refuses the
request nor comes to its success exit. -/
theorem clean_iff (env : Env Page) (loops : UInt32) (step : Int32) :
    (∀ fuel ret s, timeAllocPagesOutstanding env loops step fuel = some (ret, s) → Clean env s) ↔
      env.hasStore = false ∨
        step.toInt ≤ maxStore ∧ ¬ Completes env loops step.toInt.toNat := by
  by_cases hstore : env.hasStore = false
  · refine iff_of_true (fun fuel ret s h => ?_) (.inl hstore)
    rw [eq_some_of_hasStore_eq_false hstore] at h
    cases h
    exact clean_out step partial_start
  rw [or_iff_right hstore]
  rw [Bool.not_eq_false] at hstore
  by_cases hbig : maxStore < step.toInt
  · refine iff_of_false (fun h => ?_) fun hboth => Int.not_le.mpr hbig hboth.1
    exact absurd ((h 0 0 _ (eq_some_of_requestTooBig hstore hbig)).store hstore) Nat.zero_ne_one
  rw [Int.not_lt] at hbig
  rw [and_iff_right hbig]
  constructor
  · intro h hcompletes
    obtain ⟨fuel, k, s, hrun, hs, -⟩ := exists_measure_of_completes hcompletes
    have hclean := (h fuel s.i s ((eq_some_iff hstore hbig).mpr (.inl ⟨hrun, rfl⟩))).store hstore
    rw [hs.storeFrees] at hclean
    exact Nat.zero_ne_one hclean
  · intro hnot fuel ret s h
    obtain ⟨hrun, -⟩ | ⟨s₁, hrun, -, rfl⟩ := (eq_some_iff hstore hbig).mp h
    · obtain ⟨k, s₁, -, hs₁, hdone⟩ | ⟨k, s₁, c, hr, -⟩ := measure_cases hrun
      · exact absurd ⟨k, hs₁.alloc, hdone⟩ hnot
      · cases hr
    · obtain ⟨k, s, hr, -⟩ | ⟨k, s, c, hr, hpartial, -⟩ := measure_cases hrun
      · cases hr
      · cases hr
        exact clean_out step hpartial

/-- Allocations that all succeed. -/
def allocating : Env Unit := ⟨true, fun _ => some (), 0⟩

/-- **A success leaves the array**: one page is allocated and freed, and there is no `kfree()`. -/
theorem not_clean_allocating :
    ¬ ∀ fuel ret s, timeAllocPagesOutstanding allocating 1 1 fuel = some (ret, s) →
      Clean allocating s := by
  intro h
  have hrun : (timeAllocPagesOutstanding allocating 1 1 2).map
      (fun r => (r.1, r.2.freed, r.2.storeFrees)) = some (1, [some ()], 0) := by decide
  obtain ⟨⟨ret, s⟩, hs, hfrees⟩ := Option.map_eq_some_iff.mp hrun
  have hclean := (h 2 ret s hs).store rfl
  rw [(Prod.mk.inj (Prod.mk.inj hfrees).2).2] at hclean
  exact Nat.zero_ne_one hclean

/-! ## The end of the measuring loop -/

/-- The function comes to its measuring loop. -/
def ReachesMeasure (env : Env Page) (step : Int32) : Prop :=
  env.hasStore = true ∧ step.toInt ≤ maxStore

/-- **The measuring loop ends**, with its counter, as its comparison reads it, at the bound or less
than `step` above it. -/
def MeasureEnds (env : Env Page) (loops : UInt32) (step : Int32) : Prop :=
  ∃ fuel s, measure env loops step fuel start = some (.ok s) ∧
    loops.toNat ≤ s.i.toUInt32.toNat ∧ (s.i.toUInt32.toNat : ℤ) < loops.toNat + step.toInt

/-- **When the measuring loop ends**, if no allocation fails: it is not reached, or the step is
positive and some multiple of it is, modulo 2^32, not below the bound. -/
theorem measure_ends_iff (env : Env Page) (halloc : ∀ c, env.alloc c ≠ none) (loops : UInt32)
    (step : Int32) :
    (ReachesMeasure env step → MeasureEnds env loops step) ↔
      ¬ ReachesMeasure env step ∨
        0 < step.toInt ∧ loops.toNat + Nat.gcd step.toInt.toNat (2 ^ 32) ≤ 2 ^ 32 := by
  rw [imp_iff_not_or]
  refine or_congr_right ?_
  rw [← WrappingCounter.exists_le_mul_mod_iff (Nat.two_pow_pos 32)]
  constructor
  · rintro ⟨fuel, s, hrun, hbound, hover⟩
    refine ⟨by omega, ?_⟩
    obtain ⟨k, s₁, -, -, hdone⟩ | ⟨k, s₁, c, -, -, -, hnone, -⟩ := measure_cases hrun
    · exact ⟨k, hdone⟩
    · exact absurd hnone (halloc c)
  · rintro ⟨hpos, k, hk⟩
    obtain ⟨fuel, k, s, hrun, hs, hdone, hfirst⟩ :=
      exists_measure_of_completes ⟨k, fun c _ => halloc c, hk⟩
    have hover := WrappingCounter.mul_mod_lt_of_first (by omega : 0 < step.toInt.toNat) hfirst
    refine ⟨fuel, s, hrun, by rwa [hs.i], ?_⟩
    rw [hs.i]
    omega

/-- Three rounds of four pages for a bound of ten. -/
theorem measure_ends_allocating : MeasureEnds allocating 10 4 :=
  (measure_ends_iff allocating (fun _ h => by cases h) 10 4).mpr
    (.inr ⟨by decide, by decide⟩) ⟨rfl, by decide⟩

/-- **A step of 0 never ends**, for any bound above 0. -/
theorem not_measure_ends_allocating :
    ¬ (ReachesMeasure allocating 0 → MeasureEnds allocating 1 0) := by
  intro h
  obtain ⟨-, s, -, hbound, hover⟩ := h ⟨rfl, by decide⟩
  have hstep : (0 : Int32).toInt = 0 := by decide
  rw [hstep] at hover
  omega

end PageBench02
