import Mathlib.Data.List.Infix
import Mathlib.Data.List.Nodup
import Mathlib.Logic.Function.Basic
import Mathlib.Tactic.TypeStar

/-! # Families of lists that share no entry

A family of lists says where each of some objects is, and in which order: every object is in one
list at most, and once. Objects come in at the end of a list, a list moves as a whole to the end of
another one, and the first entry of a list moves to the end of another one. The neighbours in a list
are the pairs `[a, b] <:+: l`. -/

namespace ListFamily

variable {ι α : Type*}

/-! ## Neighbours -/

section Neighbours

variable {a b x : α} {l m : List α}

/-- Two neighbours are the first two, or are further back. -/
theorem pair_infix_cons :
    [a, b] <:+: x :: l ↔ a = x ∧ l.head? = some b ∨ [a, b] <:+: l := by
  rw [List.infix_cons_iff, List.cons_prefix_cons, List.singleton_prefix_iff_head?_eq_some]

/-- **The neighbours in two lists after one another** are those in each, and the two that meet. -/
theorem pair_infix_append :
    [a, b] <:+: l ++ m ↔
      [a, b] <:+: l ∨ [a, b] <:+: m ∨ l.getLast? = some a ∧ m.head? = some b := by
  induction l with
  | nil => simp
  | cons y l ih =>
    rw [List.cons_append, pair_infix_cons, ih, pair_infix_cons]
    cases l with
    | nil =>
      rw [List.nil_append, List.getLast?_singleton, Option.some.injEq, eq_comm (a := y)]
      simp [or_comm]
    | cons z l => rw [List.cons_append, List.head?_cons, List.head?_cons, List.getLast?_cons_cons,
        or_assoc]

/-- The empty list has no neighbours. -/
theorem not_pair_infix_nil : ¬[a, b] <:+: ([] : List α) := fun h => by
  cases List.infix_nil.mp h

/-- Neighbours are in the list. -/
theorem pair_infix_mem (h : [a, b] <:+: l) : a ∈ l ∧ b ∈ l :=
  ⟨h.subset (List.mem_cons_self ..), h.subset (List.mem_cons_of_mem _ (List.mem_cons_self ..))⟩

/-- Nothing stands behind the last element. -/
theorem not_pair_infix_of_getLast? (hnodup : l.Nodup) (hlast : l.getLast? = some a) :
    ¬[a, b] <:+: l := by
  rintro ⟨l₁, l₂, rfl⟩
  rw [List.append_assoc] at hnodup hlast
  have hpair : (a :: b :: l₂).Nodup := (List.nodup_append.mp hnodup).2.1
  have hne : [a, b] ++ l₂ ≠ [] := List.cons_ne_nil a (b :: l₂)
  rw [List.getLast?_append_of_ne_nil _ hne] at hlast
  -- the last entry is not before itself
  exact (List.nodup_cons.mp hpair).1 (List.mem_of_getLast? hlast)

end Neighbours

/-! ## Families -/

section Families

variable {L : ι → List α} {i j k : ι} {x y : α} {l : List α}

/-- **No object is in two places.** -/
structure Apart (L : ι → List α) : Prop where
  nodup : ∀ i, (L i).Nodup
  unique : ∀ ⦃i j x⦄, x ∈ L i → x ∈ L j → i = j

/-- The first element of a list is not in its tail. -/
theorem Apart.not_mem_tail (h : Apart L) (hi : L i = x :: l) : x ∉ l := by
  have hnodup := h.nodup i
  rw [hi] at hnodup
  exact (List.nodup_cons.mp hnodup).1

variable [DecidableEq ι]

/-- `x` comes in at the end of the list at `j`. -/
def push (L : ι → List α) (j : ι) (x : α) : ι → List α := Function.update L j (L j ++ [x])

/-- The list at `i` moves to the end of the list at `j`. -/
def move (L : ι → List α) (i j : ι) : ι → List α :=
  Function.update (Function.update L j (L j ++ L i)) i []

/-- The first entry of the list at `i` leaves it. -/
def pop (L : ι → List α) (i : ι) : ι → List α := Function.update L i (L i).tail

/-- The list that is pushed to has the element at its end. -/
theorem push_self : push L j x j = L j ++ [x] := Function.update_self ..

/-- A push leaves the other lists. -/
theorem push_of_ne (h : k ≠ j) : push L j x k = L k := Function.update_of_ne h ..

/-- A list that is moved is empty. -/
theorem move_source : move L i j i = [] := Function.update_self ..

/-- A list that another one is moved to has its elements at the end. -/
theorem move_target (h : j ≠ i) : move L i j j = L j ++ L i := by
  rw [move, Function.update_of_ne h, Function.update_self]

/-- A move leaves the other lists. -/
theorem move_of_ne (hi : k ≠ i) (hj : k ≠ j) : move L i j k = L k := by
  rw [move, Function.update_of_ne hi, Function.update_of_ne hj]

/-- A pop takes the first element. -/
theorem pop_self : pop L i i = (L i).tail := Function.update_self ..

/-- A pop leaves the other lists. -/
theorem pop_of_ne (h : k ≠ i) : pop L i k = L k := Function.update_of_ne h ..

/-! ## Where an object is -/

/-- The members of the lists after a push. -/
theorem mem_push : x ∈ push L j y k ↔ x ∈ L k ∨ k = j ∧ x = y := by
  by_cases hk : k = j
  · rw [hk, push_self, List.mem_append, List.mem_singleton]
    simp
  · rw [push_of_ne hk]
    simp [hk]

/-- The members of the lists after a move. -/
theorem mem_move (h : j ≠ i) :
    x ∈ move L i j k ↔ k ≠ i ∧ (x ∈ L k ∨ k = j ∧ x ∈ L i) := by
  by_cases hi : k = i
  · rw [hi, move_source]
    simp
  · by_cases hj : k = j
    · rw [hj, move_target h, List.mem_append]
      simp [h]
    · rw [move_of_ne hi hj]
      simp [hi, hj]

/-- What is left of the places when the first entry of a list leaves. -/
theorem Apart.mem_pop (h : Apart L) (hi : L i = x :: l) :
    y ∈ pop L i k ↔ y ∈ L k ∧ y ≠ x := by
  by_cases hk : k = i
  · rw [hk, pop_self, hi, List.tail_cons, List.mem_cons]
    constructor
    · intro hy
      exact ⟨.inr hy, fun heq => h.not_mem_tail hi (heq ▸ hy)⟩
    · rintro ⟨heq | hy, hne⟩
      · exact absurd heq hne
      · exact hy
  · rw [pop_of_ne hk]
    refine ⟨fun hy => ⟨hy, fun heq => hk (h.unique (heq ▸ hy) ?_)⟩, And.left⟩
    rw [hi]
    exact List.mem_cons_self ..

/-- A push adds one element to the family. -/
theorem exists_mem_push : (∃ k, x ∈ push L j y k) ↔ (∃ k, x ∈ L k) ∨ x = y := by
  simp only [mem_push, exists_or, exists_and_right, exists_eq, true_and]

/-- A move keeps the elements of the family. -/
theorem exists_mem_move (h : j ≠ i) : (∃ k, x ∈ move L i j k) ↔ ∃ k, x ∈ L k := by
  constructor
  · rintro ⟨k, hk⟩
    obtain ⟨-, hx | ⟨-, hx⟩⟩ := (mem_move h).mp hk
    · exact ⟨k, hx⟩
    · exact ⟨i, hx⟩
  · rintro ⟨k, hx⟩
    by_cases hk : k = i
    · exact ⟨j, (mem_move h).mpr ⟨h, .inr ⟨rfl, hk ▸ hx⟩⟩⟩
    · exact ⟨k, (mem_move h).mpr ⟨hk, .inl hx⟩⟩

/-- The first entry of a list goes to the end of another one. -/
theorem exists_mem_push_pop (hi : L i = y :: l) :
    (∃ k, x ∈ push (pop L i) j y k) ↔ ∃ k, x ∈ L k := by
  rw [exists_mem_push]
  constructor
  · rintro (⟨k, hx⟩ | rfl)
    · by_cases hk : k = i
      · rw [hk, pop_self] at hx
        exact ⟨i, List.mem_of_mem_tail hx⟩
      · exact ⟨k, by rwa [pop_of_ne hk] at hx⟩
    · exact ⟨i, by rw [hi]; exact List.mem_cons_self ..⟩
  · rintro ⟨k, hx⟩
    by_cases hk : k = i
    · rw [hk, hi, List.mem_cons] at hx
      refine hx.symm.imp (fun hx => ⟨i, ?_⟩) id
      rwa [pop_self, hi, List.tail_cons]
    · exact .inl ⟨k, by rwa [pop_of_ne hk]⟩

/-! ## Neighbours after a move -/

/-- **The neighbours after a move**, in places that a predicate selects. -/
theorem exists_pair_infix_move {P : ι → Prop} {a b : α} (hij : j ≠ i) (hi : P i) (hj : P j) :
    (∃ k, P k ∧ [a, b] <:+: move L i j k) ↔
      (∃ k, P k ∧ [a, b] <:+: L k) ∨ (L j).getLast? = some a ∧ (L i).head? = some b := by
  have htarget : [a, b] <:+: move L i j j ↔ [a, b] <:+: L j ∨ [a, b] <:+: L i ∨
      (L j).getLast? = some a ∧ (L i).head? = some b := by
    rw [move_target hij, pair_infix_append]
  constructor
  · rintro ⟨k, hk, h⟩
    by_cases hki : k = i
    · rw [hki, move_source] at h
      exact absurd h not_pair_infix_nil
    · by_cases hkj : k = j
      · rcases htarget.mp (hkj ▸ h) with h | h | h
        · exact .inl ⟨j, hj, h⟩
        · exact .inl ⟨i, hi, h⟩
        · exact .inr h
      · exact .inl ⟨k, hk, by rwa [move_of_ne hki hkj] at h⟩
  · rintro (⟨k, hk, h⟩ | h)
    · by_cases hki : k = i
      · exact ⟨j, hj, htarget.mpr (.inr (.inl (hki ▸ h)))⟩
      · by_cases hkj : k = j
        · exact ⟨j, hj, htarget.mpr (.inl (hkj ▸ h))⟩
        · exact ⟨k, hk, by rwa [move_of_ne hki hkj]⟩
    · exact ⟨j, hj, htarget.mpr (.inr (.inr h))⟩

/-! ## Moves keep objects in one place -/

/-- A push of a new element keeps the lists apart. -/
theorem Apart.push (h : Apart L) (hx : ∀ k, x ∉ L k) (j : ι) : Apart (push L j x) where
  nodup k := by
    by_cases hk : k = j
    · rw [hk, push_self, List.nodup_append]
      refine ⟨h.nodup j, List.nodup_singleton x, ?_⟩
      rintro y hy _ hz rfl
      rw [List.mem_singleton] at hz
      exact hx j (hz ▸ hy)
    · rw [push_of_ne hk]
      exact h.nodup k
  unique k₁ k₂ y h₁ h₂ := by
    rcases mem_push.mp h₁ with hy₁ | ⟨rfl, rfl⟩
    · rcases mem_push.mp h₂ with hy₂ | ⟨-, rfl⟩
      · exact h.unique hy₁ hy₂
      · exact absurd hy₁ (hx k₁)
    · rcases mem_push.mp h₂ with hy₂ | ⟨rfl, -⟩
      · exact absurd hy₂ (hx k₂)
      · rfl

/-- A move keeps the lists apart. -/
theorem Apart.move (h : Apart L) (hij : j ≠ i) : Apart (move L i j) where
  nodup k := by
    by_cases hi : k = i
    · rw [hi, move_source]
      exact List.nodup_nil
    · by_cases hj : k = j
      · rw [hj, move_target hij, List.nodup_append]
        exact ⟨h.nodup j, h.nodup i, fun y hy z hz heq => hij (h.unique hy (heq ▸ hz))⟩
      · rw [move_of_ne hi hj]
        exact h.nodup k
  unique k₁ k₂ y h₁ h₂ := by
    -- an object of the target comes from there or from the source, which is empty now
    obtain ⟨hne₁, hy₁ | ⟨heq₁, hy₁⟩⟩ := (mem_move hij).mp h₁
    · obtain ⟨hne₂, hy₂ | ⟨-, hy₂⟩⟩ := (mem_move hij).mp h₂
      · exact h.unique hy₁ hy₂
      · exact absurd (h.unique hy₁ hy₂) hne₁
    · obtain ⟨hne₂, hy₂ | ⟨heq₂, -⟩⟩ := (mem_move hij).mp h₂
      · exact absurd (h.unique hy₂ hy₁) hne₂
      · rw [heq₁, heq₂]

/-- A pop keeps the lists apart. -/
theorem Apart.pop (h : Apart L) (i : ι) : Apart (pop L i) where
  nodup k := by
    by_cases hk : k = i
    · rw [hk, pop_self]
      exact (h.nodup i).tail
    · rw [pop_of_ne hk]
      exact h.nodup k
  unique k₁ k₂ y h₁ h₂ := by
    have hsub : ∀ k, y ∈ ListFamily.pop L i k → y ∈ L k := by
      intro k hy
      by_cases hk : k = i
      · rw [hk, pop_self] at hy
        exact hk ▸ List.mem_of_mem_tail hy
      · rwa [pop_of_ne hk] at hy
    exact h.unique (hsub k₁ h₁) (hsub k₂ h₂)

/-- A first element that is put at the end of a list keeps the lists apart. -/
theorem Apart.push_pop (h : Apart L) (hi : L i = x :: l) (j : ι) :
    Apart (ListFamily.push (ListFamily.pop L i) j x) :=
  (h.pop i).push (fun _ hx => ((h.mem_pop hi).mp hx).2 rfl) j

end Families

end ListFamily
