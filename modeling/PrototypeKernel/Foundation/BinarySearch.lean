import PrototypeKernel.Foundation.WhileLoop
import Mathlib.Algebra.Group.Nat.Defs
import Mathlib.Data.Int.Notation

/-! # Sorting and bisection by signs

`qsort()` calls a comparator that returns a number, and sorts when the comparator is an order of the
elements. A bisection halves a window of places by the sign of a number at its middle place. It ends
at a place between a positive and a negative number, wherever the signs come from, and when they are
not those of a sorted table there may be several such places. -/

/-! ## Sorting -/

namespace Qsort

variable {α : Type*} {cmp : α → α → ℤ} {l t : List α}

/-- The comparator is an order of the elements of `l`: of two elements the first one is less exactly
when the second one is greater, and it is transitive. -/
structure Consistent (cmp : α → α → ℤ) (l : List α) : Prop where
  antisymm : ∀ a ∈ l, ∀ b ∈ l, cmp a b < 0 ↔ 0 < cmp b a
  trans : ∀ a ∈ l, ∀ b ∈ l, ∀ c ∈ l, cmp a b ≤ 0 → cmp b c ≤ 0 → cmp a c ≤ 0

/-- No element is greater than one behind it. -/
def Sorted (cmp : α → α → ℤ) (t : List α) : Prop := t.Pairwise fun a b => cmp a b ≤ 0

/-- `qsort()` **may leave** `t` of an array `l`. Nothing is promised about the elements when the
comparator is not an order. -/
structure Leaves (cmp : α → α → ℤ) (l t : List α) : Prop where
  length_eq : t.length = l.length
  sorts : Consistent cmp l → t.Perm l ∧ Sorted cmp t

/-- An array can be sorted by an order of its elements. -/
theorem Consistent.exists_sorted (h : Consistent cmp l) : ∃ t, t.Perm l ∧ Sorted cmp t := by
  obtain ⟨le, hle⟩ : ∃ le : {a // a ∈ l} → {a // a ∈ l} → Bool, ∀ a b, le a b ↔ cmp a.1 b.1 ≤ 0 :=
    ⟨fun a b => decide (cmp a.1 b.1 ≤ 0), fun a b => decide_eq_true_iff⟩
  have htrans : ∀ a b c, le a b → le b c → le a c := by
    intro a b c hab hbc
    rw [hle] at hab hbc ⊢
    exact h.trans _ a.2 _ b.2 _ c.2 hab hbc
  have htotal : ∀ a b, (le a b || le b a) = true := by
    intro a b
    have hanti := h.antisymm _ b.2 _ a.2
    rw [Bool.or_eq_true, hle, hle]
    omega
  refine ⟨(l.attach.mergeSort le).map Subtype.val, ?_, ?_⟩
  · have hperm := (List.mergeSort_perm l.attach le).map Subtype.val
    rwa [List.attach_map_subtype_val] at hperm
  · rw [Sorted, List.pairwise_map]
    exact (List.pairwise_mergeSort htrans htotal l.attach).imp fun hab => (hle _ _).mp hab

/-- A sorted permutation is a table that the sort may leave. -/
theorem Leaves.of_sorted (hperm : t.Perm l) (hsorted : Sorted cmp t) : Leaves cmp l t :=
  ⟨hperm.length_eq, fun _ => ⟨hperm, hsorted⟩⟩

/-- With a comparison that is not consistent, every table of the length may be left. -/
theorem Leaves.of_not_consistent (h : ¬ Consistent cmp l) (hlen : t.length = l.length) :
    Leaves cmp l t := ⟨hlen, fun hcons => absurd hcons h⟩

end Qsort

/-! ## Bisection -/

namespace BinarySearch

variable {c : ℕ → ℤ} {n lo hi p i : ℕ}

/-- The middle of the window from `lo` to `hi`. -/
def mid (lo hi : ℕ) : ℕ := lo + (hi - lo) / 2

/-- The middle is not before the window. -/
theorem le_mid (lo hi : ℕ) : lo ≤ mid lo hi := Nat.le_add_right ..

/-- The middle is in the window. -/
theorem mid_lt (h : lo < hi) : mid lo hi < hi := by
  unfold mid
  omega

/-- What is known about a **window** of the places below `n`: the number before it is positive, the
number behind it is negative, and it is on the side that the first probe has chosen. -/
structure Window (c : ℕ → ℤ) (n lo hi : ℕ) : Prop where
  le : lo ≤ hi
  hi_le : hi ≤ n
  below : lo = 0 ∨ 0 < c (lo - 1)
  above : hi = n ∨ c hi < 0
  side : (lo = 0 ∧ hi = n) ∨ (c (n / 2) < 0 ∧ hi ≤ n / 2) ∨ (0 < c (n / 2) ∧ n / 2 < lo)

/-- The whole table is a window. -/
theorem Window.start : Window c n 0 n where
  le := Nat.zero_le n
  hi_le := Nat.le_refl n
  below := .inl rfl
  above := .inl rfl
  side := .inl ⟨rfl, rfl⟩

/-- The window before a negative number. -/
theorem Window.left (h : Window c n lo hi) (hlt : lo < hi) (hneg : c (mid lo hi) < 0) :
    Window c n lo (mid lo hi) where
  le := le_mid lo hi
  hi_le := Nat.le_trans (Nat.le_of_lt (mid_lt hlt)) h.hi_le
  below := h.below
  above := .inr hneg
  side := by
    have hmid := mid_lt hlt
    rcases h.side with ⟨rfl, rfl⟩ | ⟨hc, hle⟩ | hside
    · -- the first probe
      have heq : mid 0 hi = hi / 2 := Nat.zero_add _
      rw [heq] at hneg ⊢
      exact .inr (.inl ⟨hneg, Nat.le_refl _⟩)
    · exact .inr (.inl ⟨hc, by omega⟩)
    · exact .inr (.inr hside)

/-- The window behind a positive number. -/
theorem Window.right (h : Window c n lo hi) (hlt : lo < hi) (hpos : 0 < c (mid lo hi)) :
    Window c n (mid lo hi + 1) hi where
  le := mid_lt hlt
  hi_le := h.hi_le
  below := .inr hpos
  above := h.above
  side := by
    have hmid := le_mid lo hi
    rcases h.side with ⟨rfl, rfl⟩ | hside | ⟨hc, hle⟩
    · have heq : mid 0 hi = hi / 2 := Nat.zero_add _
      rw [heq] at hpos ⊢
      exact .inr (.inr ⟨hpos, Nat.lt_succ_self _⟩)
    · exact .inr (.inl hside)
    · exact .inr (.inr ⟨hc, by omega⟩)

/-! ## Where a bisection ends -/

/-- The signs **fall**: positive numbers, then zeros, then negative numbers. -/
def Falling (c : ℕ → ℤ) (n : ℕ) : Prop :=
  ∀ i j, i < j → j < n → (c i < 0 → c j < 0) ∧ (0 < c j → 0 < c i)

/-- A positive number with a negative one behind it. -/
def Boundary (c : ℕ → ℤ) (n i : ℕ) : Prop := i + 1 < n ∧ 0 < c i ∧ c (i + 1) < 0

/-- Between a positive number and a negative one behind it there is a boundary, when none is zero.
-/
theorem exists_boundary {j : ℕ} (hnonzero : ∀ k, k < n → c k ≠ 0) (hij : i < j) (hj : j < n)
    (hpos : 0 < c i) (hneg : c j < 0) : ∃ k, Boundary c n k := by
  induction j with
  | zero => exact absurd hij (Nat.not_lt_zero i)
  | succ j ih =>
    have hzero := hnonzero j (Nat.lt_of_succ_lt hj)
    by_cases hlast : 0 < c j
    · exact ⟨j, hj, hlast, hneg⟩
    · have hne : i ≠ j := fun heq => hlast (heq ▸ hpos)
      exact ih (by omega) (Nat.lt_of_succ_lt hj) (by omega)

/-- When the signs fall, all of the numbers before the end of a search are positive, and all of them
from there on are negative. -/
theorem Window.signs_of_falling (h : Window c n p p) (hfall : Falling c n) :
    (∀ i, i < p → 0 < c i) ∧ ∀ i, p ≤ i → i < n → c i < 0 := by
  have hle := h.hi_le
  constructor
  · intro i hi
    have hlast : 0 < c (p - 1) := h.below.resolve_left (by omega)
    rcases Nat.lt_or_eq_of_le (Nat.le_sub_one_of_lt hi) with hlt | rfl
    · exact (hfall i (p - 1) hlt (by omega)).2 hlast
    · exact hlast
  · intro i hi hn
    have hfirst : c p < 0 := h.above.resolve_left (by omega)
    rcases Nat.lt_or_eq_of_le hi with hlt | rfl
    · exact (hfall p i hlt hn).1 hfirst
    · exact hfirst

/-- When the signs fall, a search without a hit ends behind their boundary. -/
theorem Window.eq_of_boundary (h : Window c n p p) (hfall : Falling c n) (hb : Boundary c n i) :
    p = i + 1 := by
  obtain ⟨hbefore, hbehind⟩ := h.signs_of_falling hfall
  obtain ⟨hlt, hpos, hneg⟩ := hb
  refine Nat.le_antisymm (Nat.le_of_not_lt fun hp => ?_) (Nat.lt_of_not_le fun hp => ?_)
  · have := hbefore (i + 1) hp
    omega
  · have := hbehind i hp (by omega)
    omega

/-- **Without a boundary** a search without a hit ends at the side that its first probe chooses. -/
theorem Window.eq_of_no_boundary (h : Window c n p p) (hn : 0 < n) (hno : ∀ i, ¬ Boundary c n i) :
    (p = 0 ∧ c (n / 2) < 0) ∨ (p = n ∧ 0 < c (n / 2)) := by
  have hend : p = 0 ∨ p = n := by
    have hle := h.hi_le
    rcases h.below with hzero | hpos
    · exact .inl hzero
    rcases h.above with hlast | hneg
    · exact .inr hlast
    by_cases hzero : p = 0
    · exact .inl hzero
    · -- a boundary in between
      have hsucc : p - 1 + 1 = p := Nat.sub_add_cancel (Nat.pos_of_ne_zero hzero)
      by_cases hlast : p = n
      · exact .inr hlast
      · exact absurd ⟨by omega, hpos, hsucc.symm ▸ hneg⟩ (hno (p - 1))
  rcases h.side with ⟨rfl, rfl⟩ | ⟨hneg, hle⟩ | ⟨hpos, hlt⟩
  · exact absurd hn (Nat.lt_irrefl 0)
  · exact .inl ⟨hend.resolve_right (by omega), hneg⟩
  · exact .inr ⟨hend.resolve_left (by omega), hpos⟩

end BinarySearch
