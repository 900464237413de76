import PrototypeKernel.QMempool.Moves

/-! # A refill in which the slab fails

`__qmempool_alloc_from_slab()` as one function: an element for the caller, and then
`QMEMPOOL_REFILL_MULTIPLIER` batches for the shared queue. When the slab returns `NULL` for
`elems[j]`, the elements before it are `elems[0]` to `elems[j - 1]`, which are `j`, but the code
enqueues `j - 1` of them. So no such refill accounts for its elements: with `j ≤ 1` the enqueue
returns 0, which the code takes for a full queue, and with `j ≥ 2` the last element is lost. -/

namespace QMempool

open AlfQueue

variable {N : ℕ} {E : Type*}

/-! ## The function -/

/-- The loop over `elems` from position `j`, with `k` positions to go: the array, and the position
at which the slab returned `NULL`. `slab n` is the answer to allocation `n` of the call, and
allocation `base` is for `elems[0]`. -/
def fillElems (slab : ℕ → Option E) (base : ℕ) :
    ℕ → ℕ → (ℕ → Option E) → (ℕ → Option E) × Option ℕ
  | 0, _, elems => (elems, none)
  | k + 1, j, elems =>
      let elems := Function.update elems j (slab (base + j))
      if elems j = none then (elems, some j) else fillElems slab base k (j + 1) elems

/-- The rounds of the refill from round `i`, with `k` rounds to go: the returned element and the
shared queue. -/
def refillRounds (slab : ℕ → Option E) (elem : Option E) :
    ℕ → ℕ → (ℕ → Option E) → AlfQueue (Option E) → Option (Option E × AlfQueue (Option E))
  | 0, _, _, sharedq => some (elem, sharedq)
  | k + 1, i, elems, sharedq =>
      match fillElems slab (1 + bulk * i) bulk 0 elems with
      | (elems, some j) => do
          -- `j - 1` is an `int` passed as a `u32`
          let (sharedq, num) ← sharedq.alfMpEnqueue elems (UInt32.ofInt (j - 1))
          if num = 0 then none else return (elem, sharedq)
      | (elems, none) => do
          let (sharedq, num) ← sharedq.alfMpEnqueue elems (UInt32.ofNat bulk)
          if num = 0 then none else refillRounds slab elem k (i + 1) elems sharedq

/-- `__qmempool_alloc_from_slab()`, with some content of the stack array: the returned element and
the shared queue, or `none` when a `BUG_ON` fires. -/
def qmempoolAllocFromSlab (wait gfp : UInt32) (slab : ℕ → Option E) (stack : ℕ → Option E)
    (sharedq : AlfQueue (Option E)) : Option (Option E × AlfQueue (Option E)) :=
  if gfp &&& wait ≠ 0 then none
  else if slab 0 = none then some (none, sharedq)
  else refillRounds slab (slab 0) refillMultiplier 0 stack sharedq

/-! ## Filling the array -/

/-- The slab fails at position `n`. -/
theorem fillElems_null {slab : ℕ → Option E} {base k j n : ℕ} (hj : j ≤ n) (hn : n < j + k)
    (hnull : slab (base + n) = none) (hbefore : ∀ m, j ≤ m → m < n → slab (base + m) ≠ none)
    (elems : ℕ → Option E) :
    ∃ elems', fillElems slab base k j elems = (elems', some n) ∧
      (∀ m, m < j → elems' m = elems m) ∧
      ∀ m, j ≤ m → m < n → elems' m = slab (base + m) := by
  induction k generalizing j elems with
  | zero => omega
  | succ k ih =>
    rcases hj.eq_or_lt with rfl | hlt
    · refine ⟨Function.update elems j none, by simp [fillElems, hnull], fun m hm => ?_,
        fun m hjm hmj => absurd hjm (by omega)⟩
      exact Function.update_of_ne (by omega) ..
    · obtain ⟨elems', hfill, hlow, hhigh⟩ := ih hlt (by omega)
        (fun m hm => hbefore m (by omega)) (Function.update elems j (slab (base + j)))
      refine ⟨elems', by simpa [fillElems, hbefore j le_rfl hlt] using hfill, fun m hm => ?_,
        fun m hjm hmn => ?_⟩
      · rw [hlow m (by omega), Function.update_of_ne (by omega)]
      · rcases hjm.eq_or_lt with rfl | hjm
        · rw [hlow j (by omega), Function.update_self]
        · exact hhigh m hjm hmn

/-- The slab fills the array. -/
theorem fillElems_full {slab : ℕ → Option E} {base k j : ℕ}
    (hslab : ∀ m, j ≤ m → m < j + k → slab (base + m) ≠ none) (elems : ℕ → Option E) :
    ∃ elems', fillElems slab base k j elems = (elems', none) ∧
      (∀ m, m < j → elems' m = elems m) ∧
      ∀ m, j ≤ m → m < j + k → elems' m = slab (base + m) := by
  induction k generalizing j elems with
  | zero => exact ⟨elems, rfl, fun _ _ => rfl, fun m _ _ => by omega⟩
  | succ k ih =>
    obtain ⟨elems', hfill, hlow, hhigh⟩ := ih (j := j + 1)
      (fun m hm hmk => hslab m (by omega) (by omega)) (Function.update elems j (slab (base + j)))
    refine ⟨elems', by simpa [fillElems, hslab j le_rfl (by omega)] using hfill, fun m hm => ?_,
      fun m hjm hmk => ?_⟩
    · rw [hlow m (by omega), Function.update_of_ne (by omega)]
    · rcases hjm.eq_or_lt with rfl | hjm
      · rw [hlow j (by omega), Function.update_self]
      · exact hhigh m hjm (by omega)

/-! ## What a refill leaves -/

/-- The first `n` elements of an array with the answers from allocation `base` on. -/
theorem entries_eq {slab elems : ℕ → Option E} {base n : ℕ}
    (h : ∀ m, 0 ≤ m → m < n → elems m = slab (base + m)) :
    entries elems n = entries (fun m => slab (base + m)) n :=
  List.map_congr_left fun m hm => h m (Nat.zero_le m) (List.mem_range.mp hm)

/-- The entries of an array in two parts. -/
theorem entries_add (elems : ℕ → Option E) (m n : ℕ) :
    entries elems (m + n) = entries elems m ++ entries (fun j => elems (m + j)) n := by
  simp [entries, List.range_add]

/-- An enqueue to a shared queue with room for `k` elements. -/
theorem mpEnqueue_room {size k : ℕ} {q : AlfQueue (Option E)} {xs : List (Option E)} {n : UInt32}
    (h : Represents size q xs) (elems : ℕ → Option E) (hn : n.toNat = k)
    (hroom : xs.length + k ≤ size) :
    ∃ q', q.alfMpEnqueue elems n = some (q', (k : ℤ)) ∧
      Represents size q' (xs ++ entries elems k) := by
  obtain ⟨hret, hrep⟩ := h.alfSpEnqueue elems n
  rw [fifoEnqueue, hn, if_pos hroom] at hret hrep
  exact ⟨_, by rw [h.alfMpEnqueue, show (k : ℤ) = _ from hret.symm], hrep⟩

/-- An enqueue of more elements than the shared queue has slots. -/
theorem mpEnqueue_full {size : ℕ} {q : AlfQueue (Option E)} {xs : List (Option E)} {n : UInt32}
    (h : Represents size q xs) (elems : ℕ → Option E) (hn : size < n.toNat) :
    ∃ q', q.alfMpEnqueue elems n = some (q', 0) := by
  obtain ⟨hret, -⟩ := h.alfSpEnqueue elems n
  rw [fifoEnqueue, if_neg (by omega)] at hret
  exact ⟨_, by rw [h.alfMpEnqueue, show (0 : ℤ) = _ from hret.symm]⟩

/-- An enqueue to the shared queue returns. -/
theorem exists_mpEnqueue {size : ℕ} {q : AlfQueue (Option E)} {xs : List (Option E)}
    (h : Represents size q xs) (elems : ℕ → Option E) (n : UInt32) :
    ∃ q' num ys, q.alfMpEnqueue elems n = some (q', num) ∧ Represents size q' ys :=
  ⟨_, _, _, h.alfMpEnqueue elems n, (h.alfSpEnqueue elems n).2⟩

/-- The round in which the slab fails at position `j` ends the call. -/
theorem refillRounds_of_null {slab : ℕ → Option E} {k i j : ℕ} {elem : Option E}
    {elems elems' : ℕ → Option E} {q q' : AlfQueue (Option E)} {num : ℤ}
    (hfill : fillElems slab (1 + bulk * i) bulk 0 elems = (elems', some j))
    (henq : q.alfMpEnqueue elems' (UInt32.ofInt (j - 1)) = some (q', num)) :
    refillRounds slab elem (k + 1) i elems q = if num = 0 then none else some (elem, q') := by
  rw [refillRounds, hfill]
  dsimp only
  rw [henq]
  rfl

/-- A complete round is followed by the next one, if there was room for it. -/
theorem refillRounds_of_full {slab : ℕ → Option E} {k i : ℕ} {elem : Option E}
    {elems elems' : ℕ → Option E} {q q' : AlfQueue (Option E)} {num : ℤ}
    (hfill : fillElems slab (1 + bulk * i) bulk 0 elems = (elems', none))
    (henq : q.alfMpEnqueue elems' (UInt32.ofNat bulk) = some (q', num)) :
    refillRounds slab elem (k + 1) i elems q
      = if num = 0 then none else refillRounds slab elem k (i + 1) elems' q' := by
  rw [refillRounds, hfill]
  dsimp only
  rw [henq]
  rfl

/-- **The rounds of a refill in which the slab fails at position `j` of round `r`.** A failure at
position 0 or 1 hits the `BUG_ON`; later ones leave all elements but the last in the queue. -/
theorem refillRounds_null {slab : ℕ → Option E} {size k i r j : ℕ} {q : AlfQueue (Option E)}
    {xs : List (Option E)} (h : Represents size q xs) (hroom : xs.length + bulk * k ≤ size)
    (hir : i ≤ r) (hrk : r < i + k) (hj : j < bulk) (hnull : slab (1 + bulk * r + j) = none)
    (hbefore : ∀ m, m < 1 + bulk * r + j → slab m ≠ none) (elem : Option E)
    (elems : ℕ → Option E) :
    (j ≤ 1 → refillRounds slab elem k i elems q = none) ∧
      (2 ≤ j → ∃ q', refillRounds slab elem k i elems q = some (elem, q') ∧
        Represents size q' (xs ++
          entries (fun m => slab (1 + bulk * i + m)) (bulk * (r - i) + (j - 1)))) := by
  have hsize := h.size_le
  have hbulk : bulk = 16 := rfl
  induction k generalizing i q xs elems with
  | zero => omega
  | succ k ih =>
    have hround : bulk * (k + 1) = bulk + bulk * k := by rw [Nat.mul_succ, Nat.add_comm]
    rcases hir.eq_or_lt with rfl | hlt
    · -- the round that fails
      obtain ⟨elems', hfill, -, helems⟩ := fillElems_null (k := bulk) (Nat.zero_le j) (by omega)
        hnull (fun m _ hm => hbefore _ (by omega)) elems
      constructor
      · intro hj1
        obtain ⟨q', henq⟩ : ∃ q', q.alfMpEnqueue elems' (UInt32.ofInt (j - 1)) = some (q', 0) := by
          obtain rfl | rfl : j = 0 ∨ j = 1 := by omega
          · -- `0 - 1` is `2 ^ 32 - 1` as a `u32`
            exact mpEnqueue_full h elems' (show size < 2 ^ 32 - 1 by omega)
          · obtain ⟨q', henq, -⟩ := mpEnqueue_room (k := 0) (n := 0) h elems' rfl (by omega)
            exact ⟨q', henq⟩
        rw [refillRounds_of_null hfill henq, if_pos rfl]
      · intro hj2
        have hcount : (UInt32.ofInt ((j : ℤ) - 1)).toNat = j - 1 := by
          rw [show (j : ℤ) - 1 = ((j - 1 : ℕ) : ℤ) by omega, toNat_ofInt_natCast (by omega)]
        obtain ⟨q', henq, hrep⟩ := mpEnqueue_room h elems' hcount (by omega)
        refine ⟨q', ?_, ?_⟩
        · rw [refillRounds_of_null hfill henq, if_neg (by omega)]
        · rw [Nat.sub_self, Nat.mul_zero, Nat.zero_add,
            ← entries_eq fun m h0 hm => helems m h0 (by omega)]
          exact hrep
    · -- a complete round: all its elements are in the queue
      have hrounds : bulk * (i + 1) ≤ bulk * r := Nat.mul_le_mul_left bulk hlt
      rw [Nat.mul_succ] at hrounds
      have hslab : ∀ m, 0 ≤ m → m < 0 + bulk → slab (1 + bulk * i + m) ≠ none :=
        fun m _ hm => hbefore _ (by omega)
      obtain ⟨elems', hfill, -, helems⟩ := fillElems_full hslab elems
      obtain ⟨q', henq, hrep⟩ := mpEnqueue_room (k := bulk) (n := UInt32.ofNat bulk) h elems' rfl
        (by omega)
      obtain ⟨hfail, hleft⟩ := ih hrep
        (by rw [List.length_append, length_entries]; omega) hlt (by omega) elems'
      rw [refillRounds_of_full hfill henq, if_neg (by omega)]
      refine ⟨hfail, fun hj2 => ?_⟩
      obtain ⟨q'', hrun, hrep'⟩ := hleft hj2
      have hsplit : bulk * (r - i) + (j - 1) = bulk + (bulk * (r - (i + 1)) + (j - 1)) := by
        rw [show r - i = r - (i + 1) + 1 by omega, Nat.mul_succ]
        omega
      have hshift : (fun m => slab (1 + bulk * (i + 1) + m))
          = fun m => slab (1 + bulk * i + (bulk + m)) :=
        funext fun m => congrArg slab (by rw [Nat.mul_succ]; omega)
      refine ⟨q'', hrun, ?_⟩
      rw [hsplit, entries_add, ← entries_eq fun m h0 hm => helems m h0 (by omega), ← hshift,
        ← List.append_assoc]
      exact hrep'

/-! ## The function and the machine

On the machine, a CPU that runs alone from the entry of `__qmempool_alloc_from_slab()` takes the
steps of the function. The slab does not hand out an element that is in use. -/

/-- CPU `c` runs, and no other. -/
def Alone (c : Fin N) {Q : Type*} (_ : State N E Q) (a : Action N E) : Prop := ∃ x, a = .run c x

/-- The answers from allocation `n` on are elements that the slab has not handed out. -/
def Fresh (slab : ℕ → Option E) (n : ℕ) (out : List E) : Prop :=
  ∀ m, n ≤ m → ∀ e, slab m = some e → e ∉ out

/-- An element that the slab hands out does not come again. -/
theorem Fresh.handOut {slab : ℕ → Option E} {n : ℕ} {out : List E} {e : E} (h : Fresh slab n out)
    (hslab : ∀ m n e, slab m = some e → slab n = some e → m = n) (he : slab n = some e) :
    Fresh slab (n + 1) (e :: out) := by
  intro m hm e' he' hmem
  rcases List.mem_cons.mp hmem with rfl | hmem
  · exact absurd (hslab m n e' he' he) (by omega)
  · exact h m (by omega) e' he' hmem

/-- The later answers of the slab are new as well. -/
theorem Fresh.mono {slab : ℕ → Option E} {m n : ℕ} {out : List E} (h : Fresh slab m out)
    (hmn : m ≤ n) : Fresh slab n out :=
  fun k hk => h k (hmn.trans hk)

/-- Where the loop over `elems` leaves the CPU. -/
def afterFill (elem : Option E) (i : ℕ) : (ℕ → Option E) × Option ℕ → Pc E
  | (elems, some j) => .slabPartial elem elems j
  | (elems, none) => .slabEnq elem elems i

/-- Where the call leaves the CPU. -/
def Finished (c : Fin N) (result : Option (Option E × AlfQueue (Option E)))
    (s : State N E (QueuePtr E)) : Prop :=
  match result with
  | some (elem, sharedq) => s.pc c = .allocRet elem ∧ s.sharedq = .queue sharedq
  | none => (s.pc c).bug?.isSome

section Machine

open TransitionSystem

variable [DecidableEq E] (wait : UInt32) {slab : ℕ → Option E} {c : Fin N}
  {s : State N E (QueuePtr E)}

/-- The slab answers with an element that is not in use, or with `NULL`. -/
theorem exists_slabAlloc (hslab : ∀ m n e, slab m = some e → slab n = some e → m = n) {n : ℕ}
    (hfresh : Fresh slab n s.out) (next : Option E → Pc E) :
    ∃ s', s.slabAlloc c (slab n) next = some s' ∧ s'.sharedq = s.sharedq ∧
      s'.pc c = next (slab n) ∧ Fresh slab (n + 1) s'.out := by
  cases hn : slab n with
  | none => exact ⟨_, rfl, rfl, State.goto_pc_self .., hfresh.mono (Nat.le_succ n)⟩
  | some e =>
    exact ⟨_, if_neg (hfresh n le_rfl e hn), rfl, State.goto_pc_self .., hfresh.handOut hslab hn⟩

/-- One element of the array. -/
theorem run_slabElem (hslab : ∀ m n e, slab m = some e → slab n = some e → m = n)
    {elem : Option E} {elems : ℕ → Option E} {n i j : ℕ}
    (hpc : s.pc c = .slabElem elem elems i j) (hfresh : Fresh slab n s.out) :
    ∃ s', Reachable (step ptrOps wait) (Alone c) s s' ∧ s'.sharedq = s.sharedq ∧
      s'.pc c =
        (if slab n = none then .slabPartial elem (Function.update elems j (slab n)) j
        else if j + 1 < bulk then .slabElem elem (Function.update elems j (slab n)) i (j + 1)
        else .slabEnq elem (Function.update elems j (slab n)) i) ∧
      Fresh slab (n + 1) s'.out := by
  obtain ⟨s', hstep, hshared, hpc', hfresh'⟩ := exists_slabAlloc (c := c) hslab hfresh fun new =>
    if new = none then .slabPartial elem (Function.update elems j new) j
    else if j + 1 < bulk then .slabElem elem (Function.update elems j new) i (j + 1)
    else .slabEnq elem (Function.update elems j new) i
  refine ⟨s', .single ⟨slab n, rfl⟩ ?_, hshared, hpc', hfresh'⟩
  rw [step, State.advance, hpc]
  exact hstep

/-- The loop over `elems`, step by step. -/
theorem run_fillElems (hslab : ∀ m n e, slab m = some e → slab n = some e → m = n)
    {elem : Option E} {elems : ℕ → Option E} {base i j k : ℕ}
    (hpc : s.pc c = .slabElem elem elems i j) (hk : j + (k + 1) = bulk)
    (hfresh : Fresh slab (base + j) s.out) :
    ∃ s', Reachable (step ptrOps wait) (Alone c) s s' ∧ s'.sharedq = s.sharedq ∧
      s'.pc c = afterFill elem i (fillElems slab base (k + 1) j elems) ∧
      Fresh slab (base + bulk) s'.out := by
  induction k generalizing s j elems with
  | zero =>
    obtain ⟨s', hrun, hshared, hpc', hfresh'⟩ := run_slabElem wait hslab hpc hfresh
    refine ⟨s', hrun, hshared, hpc'.trans ?_, hfresh'.mono (by omega)⟩
    cases hn : slab (base + j) <;> simp [fillElems, afterFill, hn, show ¬ j + 1 < bulk by omega]
  | succ k ih =>
    obtain ⟨s₁, hrun₁, hshared₁, hpc₁, hfresh₁⟩ := run_slabElem wait hslab hpc hfresh
    cases hn : slab (base + j) with
    | none =>
      -- the loop ends here
      refine ⟨s₁, hrun₁, hshared₁, hpc₁.trans ?_, hfresh₁.mono (by omega)⟩
      simp [fillElems, afterFill, hn]
    | some e =>
      rw [hn, if_neg (Option.some_ne_none e), if_pos (by omega)] at hpc₁
      obtain ⟨s', hrun, hshared, hpc', hfresh'⟩ := ih hpc₁ (by omega) hfresh₁
      refine ⟨s', hrun₁.trans hrun, hshared.trans hshared₁, hpc'.trans ?_, hfresh'⟩
      rw [fillElems.eq_def slab base (k + 1 + 1)]
      simp [hn]

/-- The enqueue of a batch. -/
theorem run_enqShared {elems : ℕ → Option E} {n : UInt32} {q q' : AlfQueue (Option E)} {num : ℤ}
    {next : ℤ → Pc E} (hshared : s.sharedq = .queue q)
    (henq : q.alfMpEnqueue elems n = some (q', num))
    (hadvance : s.advance ptrOps wait c none = s.enqShared ptrOps c elems n next) :
    ∃ s' : State N E (QueuePtr E), Reachable (step ptrOps wait) (Alone c) s s' ∧
      s'.sharedq = .queue q' ∧ s'.pc c = next num ∧ s'.out = s.out := by
  refine ⟨({ s with sharedq := QueuePtr.queue q' }).goto c (next num), .single ⟨none, rfl⟩ ?_, rfl,
    State.goto_pc_self .., rfl⟩
  rw [step, hadvance, State.enqShared, hshared]
  simp [ptrOps, QueuePtr.deref, henq]

/-- The rounds of a refill, step by step. -/
theorem run_refillRounds (hslab : ∀ m n e, slab m = some e → slab n = some e → m = n)
    {elem : Option E} {elems : ℕ → Option E} {size i k : ℕ} {q : AlfQueue (Option E)}
    {xs : List (Option E)} (hpc : s.pc c = .slabElem elem elems i 0)
    (hk : i + (k + 1) = refillMultiplier) (hshared : s.sharedq = .queue q)
    (hrep : Represents size q xs) (hfresh : Fresh slab (1 + bulk * i) s.out) :
    ∃ s', Reachable (step ptrOps wait) (Alone c) s s' ∧
      Finished c (refillRounds slab elem (k + 1) i elems q) s' := by
  induction k using Nat.strong_induction_on generalizing s i elems q xs with
  | h k ih =>
    obtain ⟨s₁, hrun₁, hshared₁, hpc₁, hfresh₁⟩ :=
      run_fillElems wait (k := 15) hslab hpc rfl
        (show Fresh slab (1 + bulk * i + 0) s.out from hfresh)
    rw [hshared] at hshared₁
    rw [show 15 + 1 = bulk from rfl] at hpc₁
    obtain ⟨⟨elems', stop⟩, hfill⟩ : ∃ r, fillElems slab (1 + bulk * i) bulk 0 elems = r :=
      ⟨_, rfl⟩
    rw [hfill] at hpc₁
    cases stop with
    | some j =>
      -- the slab has failed: the enqueue of `j - 1` elements ends the call
      obtain ⟨q', num, -, henq, -⟩ := exists_mpEnqueue hrep elems' (UInt32.ofInt ((j : ℤ) - 1))
      obtain ⟨s', hrun, hshared', hpc', -⟩ := run_enqShared wait (c := c) hshared₁ henq
        (by rw [State.advance, hpc₁]; rfl)
      refine ⟨s', hrun₁.trans hrun, ?_⟩
      rw [refillRounds_of_null hfill henq]
      by_cases hnum : num = 0
      · simp [Finished, hpc', hnum, Pc.bug?]
      · simp [Finished, hpc', hnum, hshared']
    | none =>
      obtain ⟨q', num, ys, henq, hrep₂⟩ := exists_mpEnqueue hrep elems' (UInt32.ofNat bulk)
      obtain ⟨s₂, hrun₂, hshared₂, hpc₂, hout₂⟩ :=
        run_enqShared wait (c := c) hshared₁ henq (by rw [State.advance, hpc₁]; rfl)
      by_cases hnum : num = 0
      · -- sharedq has no room
        refine ⟨s₂, hrun₁.trans hrun₂, ?_⟩
        rw [refillRounds_of_full hfill henq]
        simp [Finished, hpc₂, hnum, Pc.bug?]
      · rw [refillRounds_of_full hfill henq, if_neg hnum]
        rw [if_neg hnum] at hpc₂
        cases k with
        | zero =>
          rw [if_neg (by omega)] at hpc₂
          exact ⟨s₂, hrun₁.trans hrun₂, hpc₂, hshared₂⟩
        | succ k =>
          rw [if_pos (by omega)] at hpc₂
          obtain ⟨s', hrun, hfinished⟩ := ih k (by omega) hpc₂ (by omega) hshared₂ hrep₂
            (by rw [hout₂]; exact hfresh₁.mono (by rw [Nat.mul_succ]; omega))
          exact ⟨s', (hrun₁.trans hrun₂).trans hrun, hfinished⟩

/-- **A CPU that runs alone takes the steps of `__qmempool_alloc_from_slab()`.** -/
theorem run_qmempoolAllocFromSlab
    (hslab : ∀ m n e, slab m = some e → slab n = some e → m = n) {gfp : UInt32}
    {stack : ℕ → Option E} {size : ℕ} {q : AlfQueue (Option E)} {xs : List (Option E)}
    (hpc : s.pc c = .slabFirst gfp stack) (hshared : s.sharedq = .queue q)
    (hrep : Represents size q xs) (hfresh : Fresh slab 0 s.out) :
    ∃ s', Reachable (step ptrOps wait) (Alone c) s s' ∧
      Finished c (qmempoolAllocFromSlab wait gfp slab stack q) s' := by
  by_cases hgfp : gfp &&& wait ≠ 0
  · -- `BUG_ON(gfp_mask & __GFP_WAIT)`
    refine ⟨s.goto c (.bug .gfpWait []), .single ⟨none, rfl⟩ ?_, ?_⟩
    · rw [step, State.advance, hpc]
      exact if_pos hgfp
    · simp [qmempoolAllocFromSlab, if_pos hgfp, Finished, Pc.bug?]
  · obtain ⟨s₁, hstep, hshared₁, hpc₁, hfresh₁⟩ := exists_slabAlloc (c := c) hslab hfresh
      fun elem => if elem = none then .allocRet none else .slabElem elem stack 0 0
    have hrun₁ : Reachable (step ptrOps wait) (Alone c) s s₁ := by
      refine .single ⟨slab 0, rfl⟩ ?_
      rw [step, State.advance, hpc]
      exact (if_neg hgfp).trans hstep
    rw [hshared] at hshared₁
    rw [qmempoolAllocFromSlab, if_neg hgfp]
    split
    · rename_i hnull
      rw [if_pos hnull] at hpc₁
      exact ⟨s₁, hrun₁, hpc₁, hshared₁⟩
    · rename_i hfirst
      rw [if_neg hfirst] at hpc₁
      obtain ⟨s', hrun, hfinished⟩ :=
        run_refillRounds wait (k := 1) hslab hpc₁ rfl hshared₁ hrep hfresh₁
      exact ⟨s', hrun₁.trans hrun, hfinished⟩

end Machine

/-! ## Accounting for the elements -/

/-- **A refill accounts for its elements.** When the slab has given `n` elements, the call returns,
and the returned element and those in the shared queue, which was empty, are these elements, each
of them once: none is lost or duplicated, and nothing else is in the queue. -/
def RefillAccounted (size : ℕ) (slab : ℕ → Option E) (n : ℕ)
    (result : Option (Option E × AlfQueue (Option E))) : Prop :=
  ∃ elem sharedq xs, result = some (elem, sharedq) ∧ Represents size sharedq xs ∧
    (elem :: xs).Perm (entries slab n)

/-- A call that accounts for its elements leaves all but one of them in the queue. -/
theorem RefillAccounted.count {size n : ℕ} {slab : ℕ → Option E}
    {result : Option (Option E × AlfQueue (Option E))} (h : RefillAccounted size slab n result) :
    result.map (fun r => (r.2.producer.tail - r.2.consumer.head).toNat + 1) = some n := by
  obtain ⟨elem, sharedq, xs, rfl, hrep, hperm⟩ := h
  rw [Option.map_some, hrep.elems, ← List.length_cons, hperm.length_eq, length_entries]

/-- A refill in which the slab fails is one of its rounds. -/
theorem qmempoolAllocFromSlab_eq {wait gfp : UInt32} {slab : ℕ → Option E} (hgfp : gfp &&& wait = 0)
    (hfirst : slab 0 ≠ none) (stack : ℕ → Option E) (sharedq : AlfQueue (Option E)) :
    qmempoolAllocFromSlab wait gfp slab stack sharedq
      = refillRounds slab (slab 0) refillMultiplier 0 stack sharedq := by
  rw [qmempoolAllocFromSlab, if_neg (not_not.mpr hgfp), if_neg hfirst]

/-- **No refill in which the slab fails accounts for its elements**, in whichever round `i` and at
whichever position `j` it fails. -/
theorem slab_failure_not_accounted {size : ℕ} {sharedq : AlfQueue (Option E)}
    (hempty : Represents size sharedq []) (hsize : bulk * refillMultiplier ≤ size)
    (wait gfp : UInt32) (stack slab : ℕ → Option E) {i j : ℕ} (hi : i < refillMultiplier)
    (hj : j < bulk) (hnull : slab (1 + bulk * i + j) = none)
    (hbefore : ∀ m, m < 1 + bulk * i + j → slab m ≠ none) :
    ¬ RefillAccounted size slab (1 + bulk * i + j)
      (qmempoolAllocFromSlab wait gfp slab stack sharedq) := by
  intro hacc
  by_cases hgfp : gfp &&& wait = 0
  · rw [qmempoolAllocFromSlab_eq hgfp (hbefore 0 (by omega))] at hacc
    obtain ⟨hbug, hlost⟩ := refillRounds_null hempty (by simpa using hsize) (Nat.zero_le i)
      (by omega) hj hnull hbefore (slab 0) stack
    by_cases hj1 : j ≤ 1
    · -- the `BUG_ON` has fired
      rw [hbug hj1] at hacc
      exact absurd hacc.count (Option.some_ne_none _).symm
    · -- `elems[j - 1]` is not in the queue
      obtain ⟨q', hrun, hrep⟩ := hlost (by omega)
      rw [hrun] at hacc
      have hcount := Option.some.inj hacc.count
      dsimp only at hcount
      rw [hrep.elems, List.nil_append, length_entries, Nat.sub_zero] at hcount
      omega
  · -- the caller may sleep
    rw [qmempoolAllocFromSlab, if_pos hgfp] at hacc
    exact absurd hacc.count (Option.some_ne_none _).symm

/-- An empty shared queue of 32 slots. -/
def thirtyTwo : AlfQueue (Option ℕ) := ⟨32, 31, 0, ⟨0, 0⟩, ⟨0, 0⟩, fun _ => none⟩

/-- The local queue is empty. -/
theorem represents_thirtyTwo : Represents 32 thirtyTwo [] :=
  represents_of_alloc (show alfQueueAlloc none 32 true = .ok thirtyTwo from rfl)

/-- A slab that has six elements left. -/
def sixLeft (n : ℕ) : Option ℕ := if n < 6 then some n else none

/-- The slab fails at position 5 of round 0. -/
theorem slab_failure_not_accounted_six :
    ¬ RefillAccounted 32 sixLeft 6 (qmempoolAllocFromSlab 16 0 sixLeft (fun _ => none) thirtyTwo) :=
  slab_failure_not_accounted (i := 0) (j := 5) represents_thirtyTwo (by decide) 16 0 (fun _ => none)
    sixLeft (by decide) (by decide) rfl (by decide)

/-- The slab gives the elements 0 to 5 and then `NULL`. Element 0 is returned, elements 1 to 4 are
in the shared queue, and element 5 is nowhere. -/
theorem slab_failure_loses_element :
    Represents 32 thirtyTwo [] ∧ (∀ m, m < 6 → sixLeft m ≠ none) ∧ sixLeft 6 = none ∧
      (qmempoolAllocFromSlab 16 0 sixLeft (fun _ => none) thirtyTwo).map
          (fun r => (r.1, entries r.2.ring 5, r.2.producer, r.2.consumer))
        = some (some 0, [some 1, some 2, some 3, some 4, none], ⟨4, 4⟩, ⟨0, 0⟩) ∧
      ¬ RefillAccounted 32 sixLeft 6
        (qmempoolAllocFromSlab 16 0 sixLeft (fun _ => none) thirtyTwo) := by
  refine ⟨represents_thirtyTwo, by decide, rfl, by decide, fun hacc => ?_⟩
  have hcount : (qmempoolAllocFromSlab 16 0 sixLeft (fun _ => none) thirtyTwo).map
      (fun r => (r.2.producer.tail - r.2.consumer.head).toNat + 1) = some 5 := by decide
  exact absurd (hcount.symm.trans hacc.count) (by decide)

end QMempool
