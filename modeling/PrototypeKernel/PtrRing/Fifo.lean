import PrototypeKernel.PtrRing.Ring

/-! # The pointer ring as a bounded FIFO list

`Holds` is what every reachable ring satisfies. A ring whose `producer` is a slot index (`producer <
size`) is a bounded FIFO list of its size: `simulates_fifo`. -/

namespace PtrRing

open CallSequence KernelInt

variable {E : Type*} {r : PtrRing E} {x : E} {xs : List E}

/-! ## Indices -/

/-- The index after `i`. -/
def next (size i : ℕ) : ℕ := if i + 1 ≥ size then 0 else i + 1

/-- The next index is one of the ring. -/
theorem next_lt {size i : ℕ} (hi : i < size) : next size i < size := by
  unfold next
  split <;> omega

/-- The next index is the successor modulo the size. -/
theorem next_mod {size i : ℕ} (hi : i < size) : next size i % size = (i + 1) % size := by
  unfold next
  split
  · -- the wrap of the index
    rw [show i + 1 = size by omega, Nat.mod_self, Nat.zero_mod]
  · rfl

/-- The residue of the next position. -/
theorem succ_mod {n p : ℕ} (hn : 0 < n) : (p + 1) % n = next n (p % n) := by
  have hlt := Nat.mod_lt p hn
  rw [← Nat.mod_eq_of_lt (next_lt hlt), next_mod hlt, Nat.mod_add_mod]

/-! ## The invariant -/

/-- **A reachable ring** with the pointers `xs`. A resize can leave `producer = size`. -/
structure Holds (r : PtrRing E) (xs : List E) : Prop where
  ring : SlotRing.Holds r.size r.queue r.consumer xs
  consumer_lt : r.consumer < r.size
  producer_le : r.producer ≤ r.size
  producer_mod : r.producer % r.size = (r.consumer + xs.length) % r.size
  size_le : r.size ≤ r.slots

/-- Alignment rounds up. -/
theorem le_align (x a : ℕ) : x ≤ align x a := Nat.le_add_right _ _

/-- The array has a slot for each index. -/
theorem le_queueSlots (cacheBytes size : ℕ) : size ≤ queueSlots cacheBytes size :=
  (Nat.le_div_iff_mul_le (by decide)).mpr (le_align _ _)

/-- A new ring is empty. -/
theorem holds_of_init {cacheBytes size : ℕ} {kzalloc : Bool} (hsize : 0 < size)
    (h : ptrRingInit cacheBytes size kzalloc = .ok r) : Holds r [] ∧ r.producer < r.size := by
  cases kzalloc with
  | false => cases h
  | true =>
    cases h
    exact ⟨⟨.init hsize, hsize, Nat.zero_le _, rfl, le_queueSlots cacheBytes size⟩, hsize⟩

/-- The pointers read from the consumer's slot on are those of the list. -/
theorem Holds.contents (h : Holds r xs) : r.contents = xs := h.ring.read

/-! ## Single slots -/

/-- A slot in the array can be read. -/
theorem load_eq {i : ℕ} (hi : i < r.slots) : r.load i = some (r.queue i) := if_pos hi

/-- What is read is the slot, which is in the array. -/
theorem load_eq_some {i : ℕ} {entry : Option E} :
    r.load i = some entry ↔ i < r.slots ∧ r.queue i = entry := by
  rw [load, Option.ite_none_right_eq_some, Option.some.injEq]

/-- A slot in the array can be written. -/
theorem store_eq {i : ℕ} (hi : i < r.slots) (ptr : Option E) :
    r.store i ptr = some { r with queue := Function.update r.queue i ptr } := if_pos hi

/-! ## Consuming -/

/-- `__ptr_ring_discard_one()` clears its slot and moves the index on. -/
theorem ptrRingDiscardOne_eq (hi : r.consumer < r.slots) :
    r.ptrRingDiscardOne = some { r with
      queue := Function.update r.queue r.consumer none
      consumer := next r.size r.consumer } := by
  simp only [ptrRingDiscardOne, store_eq hi, next, Option.bind_eq_bind, Option.bind_some]
  split <;> rfl

/-- Nothing is consumed from an empty ring. -/
theorem Holds.ptrRingConsume_nil (h : Holds r []) : r.ptrRingConsume = some (r, none) := by
  have hempty : r.queue r.consumer = none := by
    have hfront := h.ring.front
    rwa [Nat.mod_eq_of_lt h.consumer_lt] at hfront
  have hi := h.consumer_lt.trans_le h.size_le
  simp [ptrRingConsume, ptrRingPeek, load_eq hi, hempty]

/-- A consume takes the first pointer. -/
theorem Holds.ptrRingConsume_cons (h : Holds r (x :: xs)) :
    ∃ r', r.ptrRingConsume = some (r', some x) ∧ Holds r' xs ∧ r'.size = r.size ∧
      r'.producer = r.producer := by
  have hmod : r.consumer % r.size = r.consumer := Nat.mod_eq_of_lt h.consumer_lt
  have hfront : r.queue r.consumer = some x := by
    have hfront := h.ring.front
    rwa [hmod] at hfront
  have hi := h.consumer_lt.trans_le h.size_le
  refine ⟨{ r with
    queue := Function.update r.queue r.consumer none
    consumer := next r.size r.consumer }, ?_, ?_, rfl, rfl⟩
  · simp only [ptrRingConsume, ptrRingPeek, load_eq hi, hfront, Option.bind_eq_bind,
      Option.bind_some, Option.isSome_some, if_true, ptrRingDiscardOne_eq hi]
    rfl
  · have hpop := h.ring.pop
    rw [hmod] at hpop
    refine ⟨hpop.congr (next_mod h.consumer_lt) fun _ _ => rfl, next_lt h.consumer_lt,
      h.producer_le, ?_, h.size_le⟩
    rw [Nat.add_mod, next_mod h.consumer_lt, ← Nat.add_mod, h.producer_mod, List.length_cons,
      Nat.add_right_comm, Nat.add_assoc]

/-! ## Producing -/

/-- A pointer is stored in a free slot. -/
theorem ptrRingProduce_eq (hi : r.producer < r.slots) (hfree : r.queue r.producer = none)
    (ptr : Option E) :
    r.ptrRingProduce ptr = some ({ r with
      queue := Function.update r.queue r.producer ptr
      producer := next r.size r.producer }, 0) := by
  simp only [ptrRingProduce, load_eq hi, hfree, store_eq hi, next, Option.bind_eq_bind,
    Option.bind_some, Option.isSome_none, Bool.false_eq_true, if_false]
  split <;> rfl

/-- A produce is refused when its slot is occupied. -/
theorem ptrRingProduce_full (hi : r.producer < r.slots) (hfull : (r.queue r.producer).isSome)
    (ptr : Option E) : r.ptrRingProduce ptr = some (r, -enospc) := by
  simp [ptrRingProduce, load_eq hi, hfull]

/-- A produce appends its pointer when there is room. -/
theorem Holds.ptrRingProduce_room (h : Holds r xs) (hlt : r.producer < r.size)
    (hroom : xs.length < r.size) (x : E) :
    ∃ r', r.ptrRingProduce (some x) = some (r', 0) ∧ Holds r' (xs ++ [x]) ∧ r'.size = r.size ∧
      r'.producer < r'.size := by
  have hmod : (r.consumer + xs.length) % r.size = r.producer := by
    rw [← h.producer_mod, Nat.mod_eq_of_lt hlt]
  have hfree : r.queue r.producer = none := by
    rw [← hmod]
    exact h.ring.back_eq_none.mpr hroom
  refine ⟨_, ptrRingProduce_eq (hlt.trans_le h.size_le) hfree _, ?_, rfl, next_lt hlt⟩
  have hpush := h.ring.push hroom x
  rw [hmod] at hpush
  refine ⟨hpush, h.consumer_lt, (next_lt hlt).le, ?_, h.size_le⟩
  rw [next_mod hlt, Nat.add_mod, h.producer_mod, ← Nat.add_mod, List.length_append,
    List.length_singleton, Nat.add_assoc]

/-- A full ring refuses. -/
theorem Holds.ptrRingProduce_full (h : Holds r xs) (hlt : r.producer < r.size)
    (hfull : ¬ xs.length < r.size) (x : E) :
    r.ptrRingProduce (some x) = some (r, -enospc) := by
  apply PtrRing.ptrRingProduce_full (hlt.trans_le h.size_le)
  rw [Option.isSome_iff_ne_none, ne_eq, ← Nat.mod_eq_of_lt hlt, h.producer_mod,
    h.ring.back_eq_none]
  exact hfull

/-! ## Call sequences -/

/-- The ring is a bounded FIFO list of `size` pointers. -/
structure Represents (size : ℕ) (r : PtrRing E) (xs : List E) : Prop where
  holds : Holds r xs
  size_eq : r.size = size
  producer_lt : r.producer < size

/-- Each call on the ring does what it does on the list. -/
theorem simulates_fifo (size : ℕ) : Simulates (call (E := E)) (fifo size) (Represents size) := by
  rintro r xs c ⟨hholds, rfl, hlt⟩
  cases c with
  | produce ptr =>
    by_cases hroom : xs.length < r.size
    · -- the slot at `producer` is the one behind the arc, so it is empty
      obtain ⟨r', hcall, hholds', hsize, hlt'⟩ := hholds.ptrRingProduce_room hlt hroom ptr
      refine ⟨r', by simp [call, fifo, hcall, hroom], ?_⟩
      rw [fifo, if_pos hroom]
      exact ⟨hholds', hsize, hsize ▸ hlt'⟩
    · -- the arc goes all around, so `producer` finds the oldest pointer
      have hcall := hholds.ptrRingProduce_full hlt hroom ptr
      refine ⟨r, by simp [call, fifo, hcall, hroom], ?_⟩
      rw [fifo, if_neg hroom]
      exact ⟨hholds, rfl, hlt⟩
  | consume =>
    cases xs with
    | nil => exact ⟨r, by simp [call, fifo, hholds.ptrRingConsume_nil], hholds, rfl, hlt⟩
    | cons x xs =>
      obtain ⟨r', hcall, hholds', hsize, hproducer⟩ := hholds.ptrRingConsume_cons
      exact ⟨r', by simp [call, fifo, hcall], hholds', hsize, hproducer ▸ hlt⟩

/-! ## The observers -/

/-- `__ptr_ring_full()` tells that all slots are occupied. -/
theorem Represents.ptrRingFull {size : ℕ} (h : Represents size r xs) :
    r.ptrRingFull = some (decide (xs.length = size)) := by
  obtain ⟨hholds, rfl, hlt⟩ := h
  rw [PtrRing.ptrRingFull, load_eq (hlt.trans_le hholds.size_le), Option.map_some]
  congr 1
  rw [Bool.eq_iff_iff, decide_eq_true_eq, Option.isSome_iff_ne_none, ne_eq,
    ← Nat.mod_eq_of_lt hlt, hholds.producer_mod, hholds.ring.back_eq_none]
  have hle := hholds.ring.length_le
  omega

/-- `__ptr_ring_empty()` tells that there is no pointer. -/
theorem Represents.ptrRingEmpty {size : ℕ} (h : Represents size r xs) :
    r.ptrRingEmpty = some xs.isEmpty := by
  obtain ⟨hholds, rfl, -⟩ := h
  have hfront := hholds.ring.front
  rw [Nat.mod_eq_of_lt hholds.consumer_lt] at hfront
  rw [PtrRing.ptrRingEmpty, ptrRingPeek, load_eq (hholds.consumer_lt.trans_le hholds.size_le),
    hfront]
  cases xs <;> rfl

end PtrRing
