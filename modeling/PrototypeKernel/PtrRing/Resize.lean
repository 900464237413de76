import PrototypeKernel.PtrRing.Fifo

/-! # Resizing a pointer ring

`ptr_ring_resize()` moves the oldest pointers to new slots and stores the number of pointers moved
as the new `producer`, without the wrap that `__ptr_ring_produce()` makes. When the pointers fill
the new ring, `producer` is no slot index. -/

namespace PtrRing

open CallSequence KernelInt TransitionSystem

variable {E : Type*} {r r' : PtrRing E} {x : E} {xs : List E}

/-! ## The loop -/

/-- The slots after the stores `queue[producer++] = ptr` of the pointers of a list. -/
def fill : (ℕ → Option E) → ℕ → List E → ℕ → Option E
  | queue, _, [] => queue
  | queue, producer, x :: xs => fill (Function.update queue producer (some x)) (producer + 1) xs

/-- Filling leaves the slots before its first one. -/
theorem fill_of_lt {queue : ℕ → Option E} {producer i : ℕ} (hi : i < producer) (xs : List E) :
    fill queue producer xs i = queue i := by
  induction xs generalizing queue producer with
  | nil => rfl
  | cons x xs ih => rw [fill, ih (Nat.lt_succ_of_lt hi), Function.update_of_ne hi.ne]

/-- Filling empty slots. -/
theorem fill_add {queue : ℕ → Option E} {producer : ℕ} (h : ∀ i, producer ≤ i → queue i = none)
    (xs : List E) (k : ℕ) : fill queue producer xs (producer + k) = xs[k]? := by
  induction xs generalizing queue producer k with
  | nil => exact h _ (Nat.le_add_right _ _)
  | cons x xs ih =>
    rw [fill]
    -- the later stores leave the first slot alone
    cases k with
    | zero =>
      show fill (Function.update queue producer (some x)) (producer + 1) xs producer = some x
      rw [fill_of_lt (Nat.lt_add_one _), Function.update_self]
    | succ k =>
      have hrest : ∀ i, producer + 1 ≤ i → Function.update queue producer (some x) i = none := by
        intro i hi
        rw [Function.update_of_ne (by omega), h i (by omega)]
      rw [Nat.add_comm k 1, ← Nat.add_assoc, ih hrest, Nat.add_comm 1 k, List.getElem?_cons_succ]

/-- **The loop** moves as many pointers as the new slots take, and destroys the others. -/
theorem resizeLoop_eq {size fuel producer : ℕ} (queue : ℕ → Option E) (h : Holds r xs)
    (hfuel : xs.length < fuel) (hle : producer ≤ size) (destroy : Bool) :
    ∃ r', resizeLoop size destroy fuel r queue producer = some (r',
      fill queue producer (xs.take (size - producer)), min (producer + xs.length) size,
      if destroy then xs.drop (size - producer) else []) := by
  induction xs generalizing fuel r queue producer with
  | nil =>
    obtain ⟨fuel, rfl⟩ : ∃ k, fuel = k + 1 := ⟨fuel - 1, by simp at hfuel; omega⟩
    refine ⟨r, ?_⟩
    simp [resizeLoop, h.ptrRingConsume_nil, fill, Nat.min_eq_left hle]
  | cons x xs ih =>
    obtain ⟨fuel, rfl⟩ : ∃ k, fuel = k + 1 := ⟨fuel - 1, by simp at hfuel; omega⟩
    obtain ⟨r₁, hconsume, hholds, -, -⟩ := h.ptrRingConsume_cons
    have hfuel : xs.length < fuel := by simpa using hfuel
    by_cases hroom : producer < size
    · -- the pointer moves to the next new slot
      obtain ⟨r₂, hloop⟩ := ih (Function.update queue producer (some x)) hholds
        hfuel (Nat.succ_le_of_lt hroom)
      refine ⟨r₂, ?_⟩
      obtain ⟨m, hm⟩ : ∃ m, size - producer = m + 1 := ⟨size - producer - 1, by omega⟩
      have hm' : size - (producer + 1) = m := by omega
      rw [hm'] at hloop
      simp [resizeLoop, hconsume, hroom, hloop, hm, fill, Nat.add_right_comm, Nat.add_assoc]
    · -- the new slots are full, so this pointer and all later ones are destroyed
      obtain ⟨r₂, hloop⟩ := ih queue hholds hfuel hle
      have hend : size - producer = 0 := by omega
      refine ⟨r₂, ?_⟩
      rw [hend] at hloop ⊢
      have hmin : min (producer + xs.length) size = min (producer + (x :: xs).length) size := by
        rw [List.length_cons]
        omega
      cases destroy <;> simp [resizeLoop, hconsume, hroom, hloop, fill] <;> omega

/-! ## The resized ring -/

/-- **What a resize does** to a ring that holds `xs`. -/
theorem Holds.ptrRingResize (h : Holds r xs) (cacheBytes : ℕ) {size : ℕ} (hsize : 0 < size)
    (destroy : Bool) :
    ∃ r', r.ptrRingResize cacheBytes size true destroy
        = some (r', if destroy then xs.drop size else [], 0) ∧
      Holds r' (xs.take size) ∧ r'.size = size ∧ r'.producer = min xs.length size := by
  obtain ⟨r₁, hloop⟩ := resizeLoop_eq (fun _ => none) h (Nat.lt_succ_of_le h.ring.length_le)
    (Nat.zero_le size) destroy
  rw [Nat.sub_zero, Nat.zero_add] at hloop
  refine ⟨⟨min xs.length size, 0, size, queueSlots cacheBytes size,
    fill (fun _ => none) 0 (xs.take size)⟩, ?_, ?_, rfl, rfl⟩
  · simp [PtrRing.ptrRingResize, ptrRingInitQueueAlloc, hloop]
  · refine ⟨⟨hsize, List.length_take_le _ _, fun k hk => ?_⟩, hsize, Nat.min_le_right _ _, ?_,
      le_queueSlots cacheBytes size⟩
    · rw [Nat.zero_add, Nat.mod_eq_of_lt hk]
      have hfill : fill (fun _ => none) 0 (xs.take size) (0 + k) = (xs.take size)[k]? :=
        fill_add (fun _ _ => rfl) _ k
      rwa [Nat.zero_add] at hfill
    · rw [Nat.zero_add, List.length_take, Nat.min_comm]

/-! ## Reachable rings -/

/-- A step in the life of a ring. -/
inductive Op (E : Type*) where
  | call (c : Call E)
  | resize (size : ℕ) (kzalloc destroy : Bool)

/-- New sizes are positive. -/
def Op.sized : Op E → Bool
  | .call _ => true
  | .resize size .. => 0 < size

/-- The step function of a ring. -/
def step (cacheBytes : ℕ) (r : PtrRing E) : Op E → Option (PtrRing E)
  | .call c => (r.call c).map fun (r, _) => r
  | .resize size kzalloc destroy =>
      (r.ptrRingResize cacheBytes size kzalloc destroy).map fun (r, _) => r

/-- A produce behind the last slot, as it can happen after a resize, changes no slot of the ring. -/
theorem Holds.produce_past {ret : ℤ} (h : Holds r xs) (hend : r.producer = r.size)
    (hcall : r.ptrRingProduce (some x) = some (r', ret)) : Holds r' xs := by
  by_cases hi : r.producer < r.slots
  · by_cases hfull : (r.queue r.producer).isSome
    · rw [PtrRing.ptrRingProduce_full hi hfull] at hcall
      cases hcall
      exact h
    · rw [Option.not_isSome_iff_eq_none] at hfull
      rw [ptrRingProduce_eq hi hfull] at hcall
      cases hcall
      -- the slot is not one of the ring, and the index wraps to 0
      have hnext : next r.size r.producer = 0 := by
        rw [next, if_pos (by omega)]
      refine ⟨h.ring.congr rfl fun i hi => ?_, h.consumer_lt, ?_, ?_, h.size_le⟩
      · exact Function.update_of_ne (by omega) ..
      · exact hnext.le.trans (Nat.zero_le _)
      · show next r.size r.producer % r.size = _
        rw [hnext, ← h.producer_mod, hend, Nat.mod_self, Nat.zero_mod]
  · simp [PtrRing.ptrRingProduce, load, hi] at hcall

/-- Every step of a ring keeps the invariant. -/
theorem Holds.step {cacheBytes : ℕ} {op : Op E} (h : Holds r xs) (hop : op.sized)
    (hs : PtrRing.step cacheBytes r op = some r') : ∃ xs', Holds r' xs' := by
  cases op with
  | call c =>
    obtain ⟨⟨r₁, ret⟩, hcall, rfl⟩ := Option.map_eq_some_iff.mp hs
    rcases Nat.lt_or_eq_of_le h.producer_le with hlt | hend
    · -- `producer` is a slot index, and the ring is a FIFO list
      obtain ⟨r₂, hcall', hrep⟩ := simulates_fifo r.size r xs c ⟨h, rfl, hlt⟩
      rw [hcall] at hcall'
      cases hcall'
      exact ⟨_, hrep.holds⟩
    · cases c with
      | produce ptr =>
        obtain ⟨⟨r₂, ret⟩, hproduce, heq⟩ := Option.map_eq_some_iff.mp hcall
        cases heq
        exact ⟨xs, h.produce_past hend hproduce⟩
      | consume =>
        obtain ⟨⟨r₂, ptr⟩, hconsume, heq⟩ := Option.map_eq_some_iff.mp hcall
        cases heq
        cases xs with
        | nil =>
          rw [h.ptrRingConsume_nil] at hconsume
          cases hconsume
          exact ⟨[], h⟩
        | cons x xs =>
          obtain ⟨r₃, hconsume', hholds, -, -⟩ := h.ptrRingConsume_cons
          rw [hconsume] at hconsume'
          cases hconsume'
          exact ⟨xs, hholds⟩
  | resize size kzalloc destroy =>
    obtain ⟨⟨r₁, destroyed, ret⟩, hresize, rfl⟩ := Option.map_eq_some_iff.mp hs
    cases kzalloc with
    | false =>
      cases hresize
      exact ⟨xs, h⟩
    | true =>
      obtain ⟨r₂, hresize', hholds, -, -⟩ :=
        h.ptrRingResize cacheBytes (of_decide_eq_true hop) destroy
      rw [hresize] at hresize'
      cases hresize'
      exact ⟨_, hholds⟩

/-- Every reachable ring satisfies the invariant. -/
theorem holds_of_reachable {cacheBytes size : ℕ} {r₀ : PtrRing E} (hsize : 0 < size)
    (hinit : ptrRingInit cacheBytes size true = .ok r₀)
    (hreach : Reachable (PtrRing.step cacheBytes) (fun _ op => op.sized) r₀ r) :
    ∃ xs, Holds r xs := by
  refine hreach.invariant (P := fun r => ∃ xs, Holds r xs) ⟨[], (holds_of_init hsize hinit).1⟩ ?_
  rintro r op r' ⟨xs, h⟩ hop hs
  exact h.step hop hs

/-! ## When a resize is right -/

/-- **A resize to `size` slots does what it is for**: both indices are slot indices, the ring holds
the oldest pointers in order, `destroy` gets the others, and the ring goes on as a bounded FIFO
list. -/
def ResizesWell (cacheBytes size : ℕ) (r : PtrRing E) : Prop :=
  ∃ r', r.ptrRingResize cacheBytes size true true = some (r', r.contents.drop size, 0) ∧
    r'.size = size ∧ r'.producer < size ∧ r'.consumer < size ∧
    r'.contents = r.contents.take size ∧
    ∀ calls, ∃ r'', runAll call r' calls
        = some (r'', (specAll (fifo size) (r.contents.take size) calls).2) ∧
      r''.contents = (specAll (fifo size) (r.contents.take size) calls).1

/-- **A resize is right exactly when the ring holds fewer pointers than the new size.** -/
theorem resizesWell_iff {cacheBytes n size : ℕ} {r₀ : PtrRing E} (hn : 0 < n)
    (hinit : ptrRingInit cacheBytes n true = .ok r₀)
    (hreach : Reachable (step cacheBytes) (fun _ op => op.sized) r₀ r) (hsize : 0 < size) :
    r.ResizesWell cacheBytes size ↔ r.contents.length < size := by
  obtain ⟨xs, h⟩ := holds_of_reachable hn hinit hreach
  obtain ⟨r', hresize, hholds, hsize', hproducer⟩ := h.ptrRingResize cacheBytes hsize true
  rw [if_pos rfl] at hresize
  simp only [ResizesWell, h.contents]
  constructor
  · -- the new `producer` is the number of pointers moved: `size`, when they fill the ring
    rintro ⟨r₁, hresize', -, hlt, -⟩
    rw [hresize] at hresize'
    cases hresize'
    omega
  · intro hlt
    have hrep : Represents size r' (xs.take size) := ⟨hholds, hsize', by omega⟩
    refine ⟨r', hresize, hsize', hrep.producer_lt, hsize' ▸ hholds.consumer_lt, hholds.contents, ?_⟩
    intro calls
    obtain ⟨r'', hcalls, hrep'⟩ := (simulates_fifo size).runAll calls hrep
    exact ⟨r'', hcalls, hrep'.holds.contents⟩

/-- A new ring of two slots, in a cache line of eight. -/
def two : PtrRing ℕ := ⟨0, 0, 2, 8, fun _ => none⟩

/-- Two pointers are moved to a ring of three slots. -/
theorem resizesWell_iff_two :
    ∃ r, runOk (step 64) (fun _ op => op.sized) two
        [.call (.produce 1), .call (.produce 2)] = some r ∧
      (r.ResizesWell 64 3 ↔ r.contents.length < 3) := by
  obtain ⟨r, hrun⟩ : ∃ r, runOk (step 64) (fun _ op => op.sized) two
      [.call (.produce 1), .call (.produce 2)] = some r := ⟨_, rfl⟩
  exact ⟨r, hrun, resizesWell_iff (by decide) (show ptrRingInit 64 2 true = .ok two from rfl)
    (reachable_of_runOk hrun) (by decide)⟩

/-- **A resize of a ring of two pointers to one slot leaves `producer = size`.** -/
theorem resize_leaves_producer_at_size :
    ∃ r, Reachable (step 64) (fun _ op => op.sized) two r ∧ ¬ r.ResizesWell 64 1 := by
  have hrun : (runOk (step 64) (fun _ op => op.sized) two
      [.call (.produce 1), .call (.produce 2)]).any fun r =>
        (r.ptrRingResize 64 1 true true).all fun res => res.1.producer = 1 := by decide
  obtain ⟨r, hr, hproducer⟩ := (Option.any_eq_true _ _).mp hrun
  refine ⟨r, reachable_of_runOk hr, ?_⟩
  rintro ⟨r', hresize, -, hlt, -⟩
  rw [hresize, Option.all_some, decide_eq_true_eq] at hproducer
  exact hlt.ne hproducer

-- what follows: after a resize to its own size, a full ring accepts a pointer and loses it
example : ((runOk (step 64) (fun _ op => op.sized) two
    [.call (.produce 1), .call (.produce 2), .resize 2 true true]).bind fun r =>
      (runAll call r [.consume, .produce 3, .consume, .consume]).map Prod.snd)
        = some [.ptr (some 1), .code 0, .ptr (some 2), .ptr none] := by decide

end PtrRing
