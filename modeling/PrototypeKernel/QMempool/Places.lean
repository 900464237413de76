import PrototypeKernel.QMempool.LocalQueue
import Mathlib.Data.List.Nodup
import Mathlib.Algebra.Order.BigOperators.Group.Finset

/-! # Where the elements are

An element that the slab has handed out is with a caller, in a queue, or in the hands of a running
call, `Pc.transit`. A move takes it from one place to another. The one exception is a refill in
which the slab gives up halfway, which drops an element. -/

namespace QMempool

variable {N : ℕ} {E : Type*} {localqSz sharedqSz : ℕ} {wait : UInt32}

/-- The elements in the hands of a call. -/
def Pc.transit : Pc E → List (Option E)
  | .refillLocal elems num | .freeShared elems num => entries elems num.toNat
  | .slabElem elem elems _ j | .slabPartial elem elems j => elem :: entries elems j
  | .slabEnq elem elems _ => elem :: entries elems bulk
  | .allocRet elem | .freeLocal elem _ | .freeSpill elem _ => [elem]
  | .freeSlab elems n i => (entries elems n.toNat).drop i
  | .drainFree elems _ num j => (entries elems num.toNat).drop j
  | .bug _ lost => lost
  | _ => []

/-! ## Arrays -/

/-- An element before an array is its first entry. -/
theorem entries_consArray (elem : Option E) (elems : ℕ → Option E) (n : ℕ) :
    entries (consArray elem elems) (n + 1) = elem :: entries elems n :=
  entries_succ _ n

/-- An array of no entries. -/
@[simp] theorem entries_zero (elems : ℕ → Option E) : entries elems 0 = [] := rfl

/-- A store past the first `j` entries does not change them. -/
@[simp] theorem entries_update_self (elems : ℕ → Option E) (j : ℕ) (x : Option E) :
    entries (Function.update elems j x) j = entries elems j := by
  apply List.map_congr_left
  intro i hi
  rw [Function.update_of_ne (List.mem_range.mp hi).ne]

/-- An entry that is stored behind the others is the last one. -/
theorem entries_update_succ (elems : ℕ → Option E) (j : ℕ) (x : Option E) :
    entries (Function.update elems j x) (j + 1) = entries elems j ++ [x] := by
  rw [entries, List.range_succ, List.map_append, List.map_singleton, Function.update_self]
  exact congrArg (· ++ [x]) (entries_update_self elems j x)

/-- The entries from one on. -/
theorem drop_entries (elems : ℕ → Option E) {i n : ℕ} (h : i < n) :
    (entries elems n).drop i = elems i :: (entries elems n).drop (i + 1) := by
  rw [List.drop_eq_getElem_cons (by rwa [length_entries])]
  simp [entries]

/-! ## Conservation -/

section Conservation

variable [DecidableEq E]

/-- How often a CPU sees element `e` with a caller, in a queue, or in its own hands. -/
def View.count (v : View E) (e : E) : ℕ :=
  v.held.count e + v.shared.count (some e) + v.own.count (some e) + v.pc.transit.count (some e)

/-- An element is counted as an entry. -/
theorem count_toList (x : Option E) (e : E) : x.toList.count e = [x].count (some e) := by
  cases x <;> simp [List.count_cons]

/-- An element goes back to the slab. -/
theorem count_erase_add {x : Option E} {o : List E} {e : E} (h : [x].count (some e) ≤ o.count e) :
    (x.elim o o.erase).count e + [x].count (some e) = o.count e := by
  cases x with
  | none => simp
  | some y =>
    simp only [Option.elim_some]
    by_cases hy : y = e
    · subst hy
      rw [List.count_erase_self, List.count_singleton_self] at *
      omega
    · rw [List.count_erase_of_ne (Ne.symm hy), List.count_singleton]
      simp [hy]

/-- Element `i` of an array of `n` goes back to the slab. -/
theorem count_giveBack {elems : ℕ → Option E} {o : List E} {e : E} {i n : ℕ} (h : i < n)
    (hle : ((entries elems n).drop i).count (some e) ≤ o.count e) :
    ((elems i).elim o o.erase).count e + ((entries elems n).drop i).count (some e)
      = o.count e + ((entries elems n).drop (i + 1)).count (some e) := by
  have hcons : ((entries elems n).drop i).count (some e)
      = [elems i].count (some e) + ((entries elems n).drop (i + 1)).count (some e) := by
    rw [drop_entries elems h, ← List.singleton_append, List.count_append]
  have herase := count_erase_add (x := elems i) (o := o) (e := e) (by omega)
  omega

/-- **A move conserves the elements** that the slab has handed out, as long as the slab does not
give up in the middle of a refill. -/
theorem Move.conserves {slab : Option E} {v v' : View E}
    (hm : Move localqSz sharedqSz wait slab v v')
    (hgiven : ∀ elem elems j, v.pc ≠ .slabPartial elem elems j) (e : E)
    (hle : v.pc.transit.count (some e) ≤ v.out.count e) :
    v'.count e + v.out.count e = v.count e + v'.out.count e := by
  -- most moves only take an element from one list to another
  cases hm <;> simp [View.count, Pc.transit, List.count_cons] at hle hgiven ⊢
  case refill => simp [entries_succ, List.count_cons]; omega
  case elem => simp [entries_update_succ, List.count_cons]; omega
  case elemLast hlast => simp [← hlast, entries_update_succ, List.count_cons]; omega
  case ret => simp [count_toList, List.count_cons]; omega
  case spill => simp [entries_consArray, List.count_cons]; omega
  case giveBack hlt => have hback := count_giveBack hlt hle; omega
  case drainBack hlt => have hback := count_giveBack hlt hle; omega
  case givenBack hge => rw [List.drop_eq_nil_of_le (by rwa [length_entries])]; rfl
  case drainedBack hge => rw [List.drop_eq_nil_of_le (by rwa [length_entries])]; rfl
  all_goals omega

/-- The slab never hands out an element twice. -/
theorem Move.nodup {slab : Option E} {v v' : View E}
    (hm : Move localqSz sharedqSz wait slab v v') (hnodup : v.out.Nodup) : v'.out.Nodup := by
  have herase : ∀ (x : Option E) {o : List E}, o.Nodup → (x.elim o o.erase).Nodup := by
    intro x o ho
    cases x with
    | none => exact ho
    | some y => exact ho.erase y
  cases hm
  case first hfresh => exact List.nodup_cons.mpr ⟨hfresh, hnodup⟩
  case elem hfresh _ => exact List.nodup_cons.mpr ⟨hfresh, hnodup⟩
  case elemLast hfresh _ => exact List.nodup_cons.mpr ⟨hfresh, hnodup⟩
  case giveBack => exact herase _ hnodup
  case drainBack => exact herase _ hnodup
  all_goals exact hnodup

/-- **Every element that the slab has handed out is in exactly one place, once.** -/
structure Placed (t : State N E (BoundedList E)) : Prop where
  nodup : t.out.Nodup
  count : ∀ e, t.held.count e + t.sharedq.items.count (some e) +
    ∑ c, ((t.localq c).items.count (some e) + (t.pc c).transit.count (some e)) = t.out.count e

variable {t t' : State N E (BoundedList E)} {c : Fin N}

/-- What one CPU sees of an element is at most what there is. -/
theorem Placed.view_count_le (h : Placed t) (c : Fin N) (e : E) :
    (t.view c).count e ≤ t.out.count e := by
  -- the stepping CPU is one of those summed over
  have hsum : (t.localq c).items.count (some e) + (t.pc c).transit.count (some e) ≤
      ∑ c, ((t.localq c).items.count (some e) + (t.pc c).transit.count (some e)) :=
    Finset.single_le_sum
      (f := fun c => (t.localq c).items.count (some e) + (t.pc c).transit.count (some e))
      (fun _ _ => Nat.zero_le _) (Finset.mem_univ c)
  have hcount := h.count e
  simp only [View.count, State.view]
  omega

/-- A step of CPU `c` that conserves what `c` sees conserves all. -/
theorem Placed.of_frame (h : Placed t) (hframe : t.Frame c t') (hnodup : t'.out.Nodup)
    (hcons : ∀ e, (t'.view c).count e + t.out.count e = (t.view c).count e + t'.out.count e) :
    Placed t' := by
  refine ⟨hnodup, fun e => ?_⟩
  have hsum := Tally.sum_change
    (f := fun c => (t.localq c).items.count (some e) + (t.pc c).transit.count (some e))
    (g := fun c => (t'.localq c).items.count (some e) + (t'.pc c).transit.count (some e))
    (i := c) fun c' hc => by rw [hframe.pc c' hc, hframe.localq c' hc]
  have hcount := h.count e
  have hview := hcons e
  simp only [View.count, State.view] at hview
  omega

/-- An allocation starts with nothing in its hands. -/
theorem Placed.alloc (h : Placed t) (hidle : t.pc c = .idle) (gfp : UInt32) (stack : ℕ → Option E) :
    Placed (t.goto c (.allocLocal gfp stack)) := by
  refine h.of_frame (State.frame_goto _) h.nodup fun e => ?_
  simp [View.count, State.view, hidle, Pc.transit]

/-- A free starts with an element that its caller held. -/
theorem Placed.free (h : Placed t) (hidle : t.pc c = .idle) {e : E} (he : e ∈ t.held)
    (stack : ℕ → Option E) :
    Placed ((t.unhold (some e)).goto c (.freeLocal (some e) stack)) := by
  refine h.of_frame (State.frame_ghost ..) h.nodup fun e' => ?_
  rw [State.view_goto, State.view, hidle]
  simp only [View.count, Pc.transit, State.unhold, Option.elim_some, List.count_nil, State.goto_out]
  -- the freed element goes from its caller into the hands of the call
  by_cases heq : e' = e
  · subst heq
    have hpos := List.count_pos_iff.mpr he
    rw [List.count_erase_self, List.count_singleton_self]
    omega
  · rw [List.count_erase_of_ne heq, List.count_singleton]
    simp [Ne.symm heq]

/-- A step of a running call. -/
theorem Placed.run {slab : Option E} (h : Placed t) (hframe : t.Frame c t')
    (hm : Move localqSz sharedqSz wait slab (t.view c) (t'.view c))
    (hgiven : ∀ elem elems j, t.pc c ≠ .slabPartial elem elems j) : Placed t' := by
  refine h.of_frame hframe (hm.nodup h.nodup) fun e => hm.conserves hgiven e ?_
  have hle := h.view_count_le c e
  simp only [View.count, State.view] at hle ⊢
  omega

/-- The elements of a new pool are in its shared queue. -/
theorem Placed.start {es : List E} (hes : es.Nodup) :
    Placed (startLists (N := N) localqSz sharedqSz es) where
  nodup := hes
  count e := by
    simp [startLists, Pc.transit, List.count_map_of_injective _ _ (Option.some_injective E)]

end Conservation

end QMempool
