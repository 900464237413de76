import PrototypeKernel.Foundation.Cyclic
import Mathlib.Data.List.Basic

/-! # A ring of slots without a counter

A ring of `n` slots, for any `n`, in which an empty slot is recognisable. The entries lie in the arc
that starts at position `d`, and all other slots are empty, so whether there is an entry to take or
room for another one is read off a single slot. -/

namespace SlotRing

variable {α : Type*} {n d : ℕ} {slots : ℕ → Option α} {xs : List α}

/-- **The entries `xs` lie in the arc from position `d`**, and the other slots are empty. -/
structure Holds (n : ℕ) (slots : ℕ → Option α) (d : ℕ) (xs : List α) : Prop where
  pos : 0 < n
  length_le : xs.length ≤ n
  slot : ∀ k, k < n → slots ((d + k) % n) = xs[k]?

/-- Empty slots hold the empty list. -/
theorem Holds.init (hn : 0 < n) : Holds n (fun _ => none : ℕ → Option α) 0 [] :=
  ⟨hn, Nat.zero_le n, fun _ _ => rfl⟩

/-- The first slot of the arc holds the first entry. -/
theorem Holds.front (h : Holds n slots d xs) : slots (d % n) = xs[0]? := by
  have hslot := h.slot 0 h.pos
  rwa [Nat.add_zero] at hslot

/-- The first slot is empty when the list is. -/
theorem Holds.front_eq_none (h : Holds n slots d xs) : slots (d % n) = none ↔ xs = [] := by
  rw [h.front]
  cases xs <;> simp

/-- The slot behind the arc is empty unless the ring is full. -/
theorem Holds.back_eq_none (h : Holds n slots d xs) :
    slots ((d + xs.length) % n) = none ↔ xs.length < n := by
  constructor
  · intro hback
    by_contra hfull
    -- the slot behind the arc of a full ring is the first one of the arc
    have hlen : xs.length = n := Nat.le_antisymm h.length_le (Nat.not_lt.mp hfull)
    rw [hlen, Nat.add_mod_right, h.front_eq_none] at hback
    rw [hback, List.length_nil] at hlen
    exact h.pos.ne hlen
  · intro hlt
    rw [h.slot _ hlt]
    exact List.getElem?_eq_none le_rfl

/-- Only the position modulo `n` and the contents of the `n` slots matter. -/
theorem Holds.congr (h : Holds n slots d xs) {slots' : ℕ → Option α} {d' : ℕ} (hd : d' % n = d % n)
    (hslots : ∀ i, i < n → slots' i = slots i) : Holds n slots' d' xs := by
  refine ⟨h.pos, h.length_le, fun k hk => ?_⟩
  rw [hslots _ (Nat.mod_lt _ h.pos), Nat.add_mod, hd, ← Nat.add_mod]
  exact h.slot k hk

/-- **Filling the slot behind the arc** appends an entry. -/
theorem Holds.push (h : Holds n slots d xs) (hroom : xs.length < n) (x : α) :
    Holds n (Function.update slots ((d + xs.length) % n) (some x)) d (xs ++ [x]) := by
  refine ⟨h.pos, by rwa [List.length_append], fun k hk => ?_⟩
  by_cases hkx : k = xs.length
  · rw [hkx, Function.update_self, List.getElem?_concat_length]
  · -- less than a revolution apart, so not the slot that is filled
    have hne : (d + k) % n ≠ (d + xs.length) % n := by
      intro heq
      have heq := Cyclic.eq_of_mod_eq (by omega) (by omega) heq
      omega
    rw [Function.update_of_ne hne, h.slot k hk]
    rcases Nat.lt_or_ge k xs.length with hlt | hge
    · rw [List.getElem?_append_left hlt]
    · rw [List.getElem?_eq_none hge, List.getElem?_eq_none]
      rw [List.length_append, List.length_singleton]
      omega

/-- **Emptying the first slot of the arc** removes the first entry. -/
theorem Holds.pop {x : α} (h : Holds n slots d (x :: xs)) :
    Holds n (Function.update slots (d % n) none) (d + 1) xs := by
  have hlen := h.length_le
  rw [List.length_cons] at hlen
  refine ⟨h.pos, by omega, fun k hk => ?_⟩
  by_cases hlast : k + 1 = n
  · -- the slot just emptied is the last one of the new arc
    rw [Nat.add_assoc, Nat.add_comm 1 k, hlast, Nat.add_mod_right, Function.update_self,
      List.getElem?_eq_none (by omega)]
  · have hne : (d + 1 + k) % n ≠ d % n := by
      intro heq
      have heq := Cyclic.eq_of_mod_eq (by omega) (by omega) heq
      omega
    rw [Function.update_of_ne hne, Nat.add_assoc, Nat.add_comm 1 k, h.slot (k + 1) (by omega),
      List.getElem?_cons_succ]

/-- All slots of an empty ring are empty. -/
theorem Holds.slot_eq_none (h : Holds n slots d ([] : List α)) {i : ℕ} (hi : i < n) :
    slots i = none := by
  -- the distance from `d` to the slot
  have hpos : (d + (n - d % n + i) % n) % n = i := by
    have hmod := Nat.mod_lt d h.pos
    have hd := Nat.div_add_mod d n
    have hround : d + (n - d % n + i) = i + n * (d / n + 1) := by
      rw [Nat.mul_add]
      omega
    rw [Nat.add_mod_mod, hround, Nat.add_mul_mod_self_left, Nat.mod_eq_of_lt hi]
  rw [← hpos]
  exact h.slot _ (Nat.mod_lt _ h.pos)

/-- A ring of empty slots is empty, at every position. -/
theorem Holds.of_slot_eq_none (hn : 0 < n) (h : ∀ i, i < n → slots i = none) (d : ℕ) :
    Holds n slots d [] :=
  ⟨hn, Nat.zero_le n, fun _ _ => h _ (Nat.mod_lt _ hn)⟩

/-- The entries of a list by index. -/
theorem filterMap_getElem? {n : ℕ} (xs : List α) (h : xs.length ≤ n) :
    ((List.range n).filterMap fun k => xs[k]?) = xs := by
  induction xs generalizing n with
  | nil => simp
  | cons x xs ih =>
    obtain ⟨n, rfl⟩ : ∃ m, n = m + 1 := ⟨n - 1, by rw [List.length_cons] at h; omega⟩
    rw [List.range_succ_eq_map, List.filterMap_cons, List.filterMap_map]
    exact congrArg (x :: ·) (ih (Nat.le_of_succ_le_succ h))

/-- Reading the slots once around gives the entries in order. -/
theorem Holds.read (h : Holds n slots d xs) :
    ((List.range n).filterMap fun k => slots ((d + k) % n)) = xs := by
  have hslots : ((List.range n).filterMap fun k => slots ((d + k) % n))
      = (List.range n).filterMap fun k => xs[k]? :=
    List.filterMap_congr fun k hk => h.slot k (List.mem_range.mp hk)
  rw [hslots, filterMap_getElem? xs h.length_le]

end SlotRing
