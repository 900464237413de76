import Mathlib.Algebra.Group.Nat.Defs
import Mathlib.Data.Int.Notation
import Mathlib.Tactic.TypeStar

/-! # Writes into a buffer

A write that is not inside the buffer is a fault. Writing one value over and over fills a range of
the buffer, and ranges that meet are one range, in whichever order they are filled. -/

namespace FilledRange

variable {α : Type*} {z : α} {a b c k : ℕ} {buf : List α}

/-- Write `xs` from place `off` on. The error is the place of a write that is not inside the
buffer. -/
def write (buf : List α) (off : ℤ) (xs : List α) : Except ℤ (List α) :=
  if 0 ≤ off ∧ off + xs.length ≤ buf.length then
    .ok (buf.take off.toNat ++ xs ++ buf.drop (off.toNat + xs.length))
  else .error off

/-- The buffer with `z` at the places from `a` to `b`. -/
def fill (z : α) (a b : ℕ) (buf : List α) : List α :=
  buf.mapIdx fun k x => if a ≤ k ∧ k < b then z else x

/-- Filling a range keeps the length. -/
@[simp] theorem length_fill : (fill z a b buf).length = buf.length := List.length_mapIdx

/-- A filled buffer has `z` at the places of the range, and is as it was at every other. -/
theorem getElem?_fill :
    (fill z a b buf)[k]? = if a ≤ k ∧ k < b then buf[k]?.map fun _ => z else buf[k]? := by
  rw [fill, List.getElem?_mapIdx]
  split
  · rfl
  · exact Option.map_id'

/-- Filling no place. -/
theorem fill_of_le (h : b ≤ a) : fill z a b buf = buf := by
  refine List.ext_getElem? fun k => ?_
  rw [getElem?_fill, if_neg (by omega)]

/-- **Two ranges that meet, the first one filled first.** -/
theorem fill_fill_next (hab : a ≤ b) (hbc : b ≤ c) :
    fill z b c (fill z a b buf) = fill z a c buf := by
  refine List.ext_getElem? fun k => ?_
  simp only [getElem?_fill]
  by_cases hlow : k < b
  · rw [if_neg (show ¬(b ≤ k ∧ k < c) by omega)]
    simp only [hlow, Nat.lt_of_lt_of_le hlow hbc]
  · rw [if_neg (show ¬(a ≤ k ∧ k < b) by omega)]
    have hrange : (b ≤ k ∧ k < c) ↔ (a ≤ k ∧ k < c) := by omega
    simp only [hrange]

/-- The order in which two ranges are filled does not matter. -/
theorem fill_comm {d : ℕ} : fill z a b (fill z c d buf) = fill z c d (fill z a b buf) := by
  refine List.ext_getElem? fun k => ?_
  simp only [getElem?_fill]
  by_cases hab : a ≤ k ∧ k < b
  · by_cases hcd : c ≤ k ∧ k < d
    · simp only [if_pos hab, if_pos hcd]
    · simp only [if_pos hab, if_neg hcd]
  · simp only [if_neg hab]

/-- **Two ranges that meet, the second one filled first.** -/
theorem fill_fill_previous (hab : a ≤ b) (hbc : b ≤ c) :
    fill z a b (fill z b c buf) = fill z a c buf := by
  rw [fill_comm, fill_fill_next hab hbc]

/-- Filling a range from the start of the buffer. -/
theorem fill_zero_eq (h : b ≤ buf.length) :
    fill z 0 b buf = List.replicate b z ++ buf.drop b := by
  refine List.ext_getElem? fun k => ?_
  rw [getElem?_fill]
  by_cases hk : k < b
  · rw [if_pos ⟨Nat.zero_le k, hk⟩, List.getElem?_append_left (by simpa using hk),
      List.getElem?_replicate_of_lt hk, List.getElem?_eq_getElem (by omega), Option.map_some]
  · rw [if_neg (by omega), List.getElem?_append_right (by simpa using hk), List.length_replicate,
      List.getElem?_drop, Nat.add_sub_cancel' (by omega)]

/-- **A longer range makes the same buffer** when what it adds holds `z` already. -/
theorem fill_zero_eq_iff (hab : a ≤ b) (hb : b ≤ buf.length) :
    fill z 0 a buf = fill z 0 b buf ↔ ∀ k, a ≤ k → k < b → buf[k]? = some z := by
  constructor
  · intro heq k hak hkb
    have hplace : (fill z 0 a buf)[k]? = (fill z 0 b buf)[k]? := by rw [heq]
    rw [getElem?_fill, getElem?_fill, if_neg (by omega), if_pos (by omega)] at hplace
    rw [hplace, List.getElem?_eq_getElem (by omega), Option.map_some]
  · intro hz
    refine List.ext_getElem? fun k => ?_
    rw [getElem?_fill, getElem?_fill]
    by_cases hka : k < a
    · rw [if_pos (by omega), if_pos (by omega)]
    · by_cases hkb : k < b
      · rw [if_neg (by omega), if_pos (by omega), hz k (by omega) hkb, Option.map_some]
      · rw [if_neg (by omega), if_neg (by omega)]

/-- **Writing one value over and over fills a range.** -/
theorem write_replicate {off : ℤ} {n : ℕ} (hoff : off = a) (h : a + n ≤ buf.length) :
    write buf off (List.replicate n z) = .ok (fill z a (a + n) buf) := by
  subst hoff
  rw [write, List.length_replicate, Int.toNat_natCast, if_pos (by omega)]
  refine congrArg Except.ok (List.ext_getElem? fun k => ?_)
  rw [getElem?_fill]
  have htake : (buf.take a).length = a := by rw [List.length_take]; omega
  by_cases hka : k < a
  · rw [if_neg (by omega), List.append_assoc, List.getElem?_append_left (by omega),
      List.getElem?_take_of_lt hka]
  · rw [List.append_assoc, List.getElem?_append_right (by omega), htake]
    by_cases hkn : k < a + n
    · rw [if_pos (by omega), List.getElem?_append_left (by rw [List.length_replicate]; omega),
        List.getElem?_replicate_of_lt (by omega), List.getElem?_eq_getElem (by omega),
        Option.map_some]
    · rw [if_neg (by omega), List.getElem?_append_right (by rw [List.length_replicate]; omega),
        List.length_replicate, List.getElem?_drop]
      congr 1
      omega

end FilledRange
