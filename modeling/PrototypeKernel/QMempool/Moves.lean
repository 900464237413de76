import PrototypeKernel.QMempool.Lists
import PrototypeKernel.Foundation.Tally
import Mathlib.Algebra.BigOperators.Fin

/-! # What a step of the pool can do

`Move` lists the outcomes of one step of a running call, as far as the stepping CPU sees: its place,
the shared queue, its own local queue, the held elements and those handed out by the slab. The facts
`Pc.Ok` about the local queue exclude the assertions about it, so `Move` has no outcome for these:
`BaseInv.move`. -/

namespace QMempool

open TransitionSystem

variable {N : ℕ} {E : Type*}

/-- What is known of a call from its place, when its local queue holds `own`: the queue is empty
where an allocation refills it and full where a free makes room in it, and the stack arrays hold at
most `QMEMPOOL_BULK` elements. -/
def Pc.Ok (localqSz : ℕ) (own : List (Option E)) : Pc E → Prop
  | .allocShared .. => own = []
  | .refillLocal _ num => own = [] ∧ ∃ k : ℕ, num = k + 1 ∧ 0 < k ∧ k + 1 ≤ bulk
  | .slabElem _ _ i j => i < refillMultiplier ∧ j < bulk
  | .slabPartial _ _ j => j < bulk
  | .slabEnq _ _ i => i < refillMultiplier
  | .freeSpill .. => own.length = localqSz
  | .freeShared _ num | .freeSlab _ num _ => ∃ k : ℕ, num = k ∧ 0 < k ∧ k ≤ bulk
  | .drainFree _ _ num _ => ∃ k : ℕ, num = k ∧ k ≤ bulk
  | .bug site _ => site ≠ .localqRefill ∧ site ≠ .localqSpill ∧ site ≠ .overrun
  | _ => True

/-- What a CPU sees of the pool. -/
structure View (E : Type*) where
  pc : Pc E
  shared : List (Option E)
  own : List (Option E)
  held : List E
  out : List E

/-- The view of CPU `c`. -/
def State.view (t : State N E (BoundedList E)) (c : Fin N) : View E :=
  ⟨t.pc c, t.sharedq.items, (t.localq c).items, t.held, t.out⟩

/-! ## Operations on bounded lists -/

/-- A batch with room is appended. -/
theorem BoundedList.enqueue_of_le {l : BoundedList E} {n : ℕ} (h : l.items.length + n ≤ l.capacity)
    (ptr : ℕ → Option E) :
    l.enqueue ptr n = ({ l with items := l.items ++ entries ptr n }, (n : ℤ)) := if_pos h

/-- A batch without room is refused. -/
theorem BoundedList.enqueue_of_lt {l : BoundedList E} {n : ℕ} (h : l.capacity < l.items.length + n)
    (ptr : ℕ → Option E) : l.enqueue ptr n = (l, 0) := if_neg (Nat.not_le.mpr h)

/-- An array of `n` entries has `n` of them. -/
theorem length_entries (elems : ℕ → Option E) (n : ℕ) : (entries elems n).length = n := by
  simp [entries]

/-- The first entry stands before the others. -/
theorem entries_succ (elems : ℕ → Option E) (n : ℕ) :
    entries elems (n + 1) = elems 0 :: entries (fun j => elems (j + 1)) n := by
  rw [entries, List.range_succ_eq_map, List.map_cons, List.map_map]
  rfl

/-- **A dequeue splits the list**: the first `k` elements are those the caller finds at the front of
its array. -/
theorem BoundedList.dequeue_spec (l : BoundedList E) (ptr : ℕ → Option E) (n : ℕ) :
    ∃ elems rest, l.items = entries elems (min l.items.length n) ++ rest ∧
      l.dequeue ptr n = ({ l with items := rest }, elems, ((min l.items.length n : ℕ) : ℤ)) := by
  refine ⟨ReserveRing.writeFront (l.items.take (min l.items.length n)) ptr,
    l.items.drop (min l.items.length n), ?_, rfl⟩
  have hentries : entries (ReserveRing.writeFront (l.items.take (min l.items.length n)) ptr)
      (min l.items.length n) = l.items.take (min l.items.length n) := by
    apply List.ext_getElem
    · simp [length_entries]
    · intro j hj _
      have hj : j < min l.items.length n := by simpa [length_entries] using hj
      simp only [entries, List.getElem_map, List.getElem_range, ReserveRing.writeFront,
        List.getElem?_take_of_lt hj]
      rw [List.getElem?_eq_getElem (by omega), Option.getD_some, List.getElem_take]
  rw [hentries, List.take_append_drop]

/-! ## Views and frames -/

/-- A step of CPU `c` leaves the other CPUs and the sizes of the queues alone. -/
structure State.Frame (c : Fin N) (t t' : State N E (BoundedList E)) : Prop where
  pc : ∀ c', c' ≠ c → t'.pc c' = t.pc c'
  localq : ∀ c', c' ≠ c → t'.localq c' = t.localq c'
  shared_cap : t'.sharedq.capacity = t.sharedq.capacity
  local_cap : ∀ c', (t'.localq c').capacity = (t.localq c').capacity

/-- What holds of every call before the step, and of the stepping call after it. -/
theorem State.Frame.forall_pc {t t' : State N E (BoundedList E)} {c : Fin N} {P : Pc E → Prop}
    (h : t.Frame c t') (hbefore : ∀ c', P (t.pc c')) (hafter : P (t'.pc c)) (c' : Fin N) :
    P (t'.pc c') := by
  by_cases hc : c' = c
  · rwa [hc]
  · rw [h.pc c' hc]
    exact hbefore c'

/-- A count that fits in a `u32` is not changed by the conversion. -/
theorem toNat_ofInt_natCast {k : ℕ} (hk : k < 2 ^ 32) : (UInt32.ofInt (k : ℤ)).toNat = k := by
  rw [UInt32.ofInt, UInt32.toNat_ofNat']
  omega

section Views

variable {t : State N E (BoundedList E)} {c : Fin N}

/-- What a CPU sees after it goes on. -/
theorem State.view_goto (pc : Pc E) :
    (t.goto c pc).view c = ⟨pc, t.sharedq.items, (t.localq c).items, t.held, t.out⟩ := by
  simp [State.view, State.goto]

/-- A CPU that goes on changes nothing for the others. -/
theorem State.frame_goto (pc : Pc E) : t.Frame c (t.goto c pc) where
  pc c' hc := by simp [State.goto, hc]
  localq _ _ := rfl
  shared_cap := rfl
  local_cap _ := rfl

/-- A step that changes nothing but the held elements and those handed out. -/
theorem State.frame_ghost (held out : List E) (pc : Pc E) :
    t.Frame c (({ t with held := held, out := out } : State N E _).goto c pc) where
  pc c' hc := by simp [State.goto, hc]
  localq _ _ := rfl
  shared_cap := rfl
  local_cap _ := rfl

/-- A new shared queue of the same capacity changes nothing for the other CPUs. -/
theorem State.frame_shared {l : BoundedList E} (hl : l.capacity = t.sharedq.capacity) (pc : Pc E) :
    t.Frame c (({ t with sharedq := l } : State N E _).goto c pc) where
  pc c' hc := by simp [State.goto, hc]
  localq _ _ := rfl
  shared_cap := hl
  local_cap _ := rfl

/-- A new local queue of the CPU changes nothing for the others. -/
theorem State.frame_local {l : BoundedList E} (hl : l.capacity = (t.localq c).capacity)
    (pc : Pc E) :
    t.Frame c (({ t with localq := Function.update t.localq c l } : State N E _).goto c pc) where
  pc c' hc := by simp [State.goto, hc]
  localq c' hc := by simp [State.goto, hc]
  shared_cap := rfl
  local_cap c' := by
    by_cases hc : c' = c
    · subst hc; simpa [State.goto] using hl
    · simp [State.goto, hc]

/-- What a CPU sees with a new local queue. -/
theorem State.view_local {l : BoundedList E} (pc : Pc E) :
    (({ t with localq := Function.update t.localq c l } : State N E _).goto c pc).view c
      = ⟨pc, t.sharedq.items, l.items, t.held, t.out⟩ := by
  simp [State.view, State.goto]

/-- What a CPU sees with a new shared queue. -/
theorem State.view_shared {l : BoundedList E} (pc : Pc E) :
    (({ t with sharedq := l } : State N E _).goto c pc).view c
      = ⟨pc, l.items, (t.localq c).items, t.held, t.out⟩ := by
  simp [State.view, State.goto]

end Views

/-- **What holds in every run**: the sizes of the queues, and `Pc.Ok` of every call. -/
structure BaseInv (localqSz sharedqSz : ℕ) (t : State N E (BoundedList E)) : Prop where
  shared_cap : t.sharedq.capacity = sharedqSz
  local_cap : ∀ c, (t.localq c).capacity = localqSz
  shared_le : t.sharedq.items.length ≤ sharedqSz
  local_le : ∀ c, (t.localq c).items.length ≤ localqSz
  calls : ∀ c, (t.pc c).Ok localqSz (t.localq c).items

/-! ## Moves -/

section Moves

variable [DecidableEq E]

/-- **The outcomes of a step** with the slab answer `slab`. -/
inductive Move (localqSz sharedqSz : ℕ) (wait : UInt32) : Option E → View E → View E → Prop
  | hit {slab gfp st x sh own h o} :
      Move localqSz sharedqSz wait slab ⟨.allocLocal gfp st, sh, x :: own, h, o⟩
        ⟨.allocRet x, sh, own, h, o⟩
  | miss {slab gfp st sh h o} :
      Move localqSz sharedqSz wait slab ⟨.allocLocal gfp st, sh, [], h, o⟩
        ⟨.allocShared gfp st, sh, [], h, o⟩
  | sharedOne {slab gfp st x own h o} :
      Move localqSz sharedqSz wait slab ⟨.allocShared gfp st, [x], own, h, o⟩
        ⟨.allocRet x, [], own, h, o⟩
  | sharedBulk {slab gfp st elems rest own h o} {k : ℕ} (hpos : 0 < k) (hle : k + 1 ≤ bulk) :
      Move localqSz sharedqSz wait slab
        ⟨.allocShared gfp st, entries elems (k + 1) ++ rest, own, h, o⟩
        ⟨.refillLocal elems (k + 1), rest, own, h, o⟩
  | sharedMiss {slab gfp st own h o} :
      Move localqSz sharedqSz wait slab ⟨.allocShared gfp st, [], own, h, o⟩
        ⟨.slabFirst gfp st, [], own, h, o⟩
  | refill {slab elems sh h o} {k : ℕ} :
      Move localqSz sharedqSz wait slab ⟨.refillLocal elems (k + 1), sh, [], h, o⟩
        ⟨.allocRet (elems 0), sh, entries (fun j => elems (j + 1)) k, h, o⟩
  | gfpBug {slab gfp st sh own h o} (hgfp : gfp &&& wait ≠ 0) :
      Move localqSz sharedqSz wait slab ⟨.slabFirst gfp st, sh, own, h, o⟩
        ⟨.bug .gfpWait [], sh, own, h, o⟩
  | firstNull {gfp st sh own h o} :
      Move localqSz sharedqSz wait none ⟨.slabFirst gfp st, sh, own, h, o⟩
        ⟨.allocRet none, sh, own, h, o⟩
  | first {e gfp st sh own h o} (hfresh : e ∉ o) :
      Move localqSz sharedqSz wait (some e) ⟨.slabFirst gfp st, sh, own, h, o⟩
        ⟨.slabElem (some e) st 0 0, sh, own, h, e :: o⟩
  | elemNull {elem elems i j sh own h o} :
      Move localqSz sharedqSz wait none ⟨.slabElem elem elems i j, sh, own, h, o⟩
        ⟨.slabPartial elem (Function.update elems j none) j, sh, own, h, o⟩
  | elem {e elem elems i j sh own h o} (hfresh : e ∉ o) (hlt : j + 1 < bulk) :
      Move localqSz sharedqSz wait (some e) ⟨.slabElem elem elems i j, sh, own, h, o⟩
        ⟨.slabElem elem (Function.update elems j (some e)) i (j + 1), sh, own, h, e :: o⟩
  | elemLast {e elem elems i j sh own h o} (hfresh : e ∉ o) (hlast : j + 1 = bulk) :
      Move localqSz sharedqSz wait (some e) ⟨.slabElem elem elems i j, sh, own, h, o⟩
        ⟨.slabEnq elem (Function.update elems j (some e)) i, sh, own, h, e :: o⟩
  | partialEnq {slab elem elems sh own h o} {k : ℕ} (hpos : 0 < k)
      (hroom : sh.length + k ≤ sharedqSz) :
      Move localqSz sharedqSz wait slab ⟨.slabPartial elem elems (k + 1), sh, own, h, o⟩
        ⟨.allocRet elem, sh ++ entries elems k, own, h, o⟩
  | partialBug {slab elem elems j sh own h o} :
      Move localqSz sharedqSz wait slab ⟨.slabPartial elem elems j, sh, own, h, o⟩
        ⟨.bug .slabPartial (elem :: entries elems j), sh, own, h, o⟩
  | enq {slab elem elems i sh own h o} (hroom : sh.length + bulk ≤ sharedqSz)
      (hlt : i + 1 < refillMultiplier) :
      Move localqSz sharedqSz wait slab ⟨.slabEnq elem elems i, sh, own, h, o⟩
        ⟨.slabElem elem elems (i + 1) 0, sh ++ entries elems bulk, own, h, o⟩
  | enqLast {slab elem elems i sh own h o} (hroom : sh.length + bulk ≤ sharedqSz)
      (hlast : refillMultiplier ≤ i + 1) :
      Move localqSz sharedqSz wait slab ⟨.slabEnq elem elems i, sh, own, h, o⟩
        ⟨.allocRet elem, sh ++ entries elems bulk, own, h, o⟩
  | enqBug {slab elem elems i sh own h o} (hfull : sharedqSz < sh.length + bulk) :
      Move localqSz sharedqSz wait slab ⟨.slabEnq elem elems i, sh, own, h, o⟩
        ⟨.bug .sharedqRoom (elem :: entries elems bulk), sh, own, h, o⟩
  | ret {slab elem sh own h o} :
      Move localqSz sharedqSz wait slab ⟨.allocRet elem, sh, own, h, o⟩
        ⟨.idle, sh, own, elem.toList ++ h, o⟩
  | put {slab elem st sh own h o} (hroom : own.length + 1 ≤ localqSz) :
      Move localqSz sharedqSz wait slab ⟨.freeLocal elem st, sh, own, h, o⟩
        ⟨.idle, sh, own ++ [elem], h, o⟩
  | full {slab elem st sh own h o} (hfull : own.length = localqSz) :
      Move localqSz sharedqSz wait slab ⟨.freeLocal elem st, sh, own, h, o⟩
        ⟨.freeSpill elem st, sh, own, h, o⟩
  | spill {slab elem st elems rest sh h o} {k : ℕ} (hpos : 0 < k) (hle : k + 1 ≤ bulk) :
      Move localqSz sharedqSz wait slab ⟨.freeSpill elem st, sh, entries elems k ++ rest, h, o⟩
        ⟨.freeShared (consArray elem elems) (k + 1), sh, rest, h, o⟩
  | putShared {slab elems sh own h o} {k : ℕ} (hroom : sh.length + k ≤ sharedqSz) :
      Move localqSz sharedqSz wait slab ⟨.freeShared elems k, sh, own, h, o⟩
        ⟨.idle, sh ++ entries elems k, own, h, o⟩
  | sharedFull {slab elems num sh own h o} :
      Move localqSz sharedqSz wait slab ⟨.freeShared elems num, sh, own, h, o⟩
        ⟨.freeSlab elems num 0, sh, own, h, o⟩
  | giveBack {slab elems i sh own h o} {k : ℕ} (hlt : i < k) :
      Move localqSz sharedqSz wait slab ⟨.freeSlab elems k i, sh, own, h, o⟩
        ⟨.freeSlab elems k (i + 1), sh, own, h, (elems i).elim o o.erase⟩
  | givenBack {slab elems i sh own h o} {k : ℕ} (hge : k ≤ i) :
      Move localqSz sharedqSz wait slab ⟨.freeSlab elems k i, sh, own, h, o⟩
        ⟨.drain elems 0, sh, own, h, o⟩
  | drain {slab elems elems' i rest own h o} {k : ℕ} (hle : k ≤ bulk) :
      Move localqSz sharedqSz wait slab ⟨.drain elems i, entries elems' k ++ rest, own, h, o⟩
        ⟨.drainFree elems' i k 0, rest, own, h, o⟩
  | drained {slab elems i sh own h o} :
      Move localqSz sharedqSz wait slab ⟨.drain elems i, sh, own, h, o⟩ ⟨.idle, sh, own, h, o⟩
  | drainBack {slab elems i j sh own h o} {k : ℕ} (hlt : j < k) :
      Move localqSz sharedqSz wait slab ⟨.drainFree elems i k j, sh, own, h, o⟩
        ⟨.drainFree elems i k (j + 1), sh, own, h, (elems j).elim o o.erase⟩
  | drainedBack {slab elems i j sh own h o} {k : ℕ} (hge : k ≤ j) :
      Move localqSz sharedqSz wait slab ⟨.drainFree elems i k j, sh, own, h, o⟩
        ⟨.drain elems (i + 1), sh, own, h, o⟩

end Moves

/-! ## Single operations -/

section Operations

variable {t t' : State N E (BoundedList E)} {c : Fin N} {elems : ℕ → Option E} {n : UInt32}

/-- An enqueue to sharedq appends all or nothing. -/
theorem State.of_enqShared {next : ℤ → Pc E}
    (hs : t.enqShared listOps c elems n next = some t') :
    t.Frame c t' ∧
      ((t.sharedq.items.length + n.toNat ≤ t.sharedq.capacity ∧
          t'.view c = ⟨next n.toNat, t.sharedq.items ++ entries elems n.toNat,
            (t.localq c).items, t.held, t.out⟩) ∨
        (t.sharedq.capacity < t.sharedq.items.length + n.toNat ∧
          t'.view c = ⟨next 0, t.sharedq.items, (t.localq c).items, t.held, t.out⟩)) := by
  simp only [State.enqShared, listOps, Option.map_some, Option.some.injEq] at hs
  subst hs
  rcases Nat.lt_or_ge t.sharedq.capacity (t.sharedq.items.length + n.toNat) with hlt | hle
  · rw [BoundedList.enqueue_of_lt hlt]
    exact ⟨State.frame_shared (by rfl) _, .inr ⟨hlt, State.view_shared _⟩⟩
  · rw [BoundedList.enqueue_of_le hle]
    exact ⟨State.frame_shared (by rfl) _, .inl ⟨hle, State.view_shared _⟩⟩

/-- An enqueue to localq appends all or nothing. -/
theorem State.of_enqLocal {next : ℤ → Pc E}
    (hs : t.enqLocal listOps c elems n next = some t') :
    t.Frame c t' ∧
      (((t.localq c).items.length + n.toNat ≤ (t.localq c).capacity ∧
          t'.view c = ⟨next n.toNat, t.sharedq.items,
            (t.localq c).items ++ entries elems n.toNat, t.held, t.out⟩) ∨
        ((t.localq c).capacity < (t.localq c).items.length + n.toNat ∧
          t'.view c = ⟨next 0, t.sharedq.items, (t.localq c).items, t.held, t.out⟩)) := by
  simp only [State.enqLocal, listOps, Option.map_some, Option.some.injEq] at hs
  subst hs
  rcases Nat.lt_or_ge (t.localq c).capacity ((t.localq c).items.length + n.toNat) with hlt | hle
  · rw [BoundedList.enqueue_of_lt hlt]
    exact ⟨State.frame_local (by rfl) _, .inr ⟨hlt, State.view_local _⟩⟩
  · rw [BoundedList.enqueue_of_le hle]
    exact ⟨State.frame_local (by rfl) _, .inl ⟨hle, State.view_local _⟩⟩

/-- A dequeue from sharedq takes the first elements. -/
theorem State.of_deqShared {next : (ℕ → Option E) → ℤ → Pc E}
    (hs : t.deqShared listOps c elems n next = some t') :
    t.Frame c t' ∧ ∃ elems' rest,
      t.sharedq.items = entries elems' (min t.sharedq.items.length n.toNat) ++ rest ∧
      t'.view c = ⟨next elems' (min t.sharedq.items.length n.toNat : ℕ), rest,
        (t.localq c).items, t.held, t.out⟩ := by
  simp only [State.deqShared, listOps, Option.map_some, Option.some.injEq] at hs
  subst hs
  obtain ⟨elems', rest, hitems, hdeq⟩ := t.sharedq.dequeue_spec elems n.toNat
  rw [hdeq]
  exact ⟨State.frame_shared (by rfl) _, elems', rest, hitems, State.view_shared _⟩

/-- A dequeue from localq takes the first elements. -/
theorem State.of_deqLocal {next : (ℕ → Option E) → ℤ → Pc E}
    (hs : t.deqLocal listOps c elems n next = some t') :
    t.Frame c t' ∧ ∃ elems' rest,
      (t.localq c).items = entries elems' (min (t.localq c).items.length n.toNat) ++ rest ∧
      t'.view c = ⟨next elems' (min (t.localq c).items.length n.toNat : ℕ), t.sharedq.items,
        rest, t.held, t.out⟩ := by
  simp only [State.deqLocal, listOps, Option.map_some, Option.some.injEq] at hs
  subst hs
  obtain ⟨elems', rest, hitems, hdeq⟩ := (t.localq c).dequeue_spec elems n.toNat
  rw [hdeq]
  exact ⟨State.frame_local (by rfl) _, elems', rest, hitems, State.view_local _⟩

variable [DecidableEq E]

/-- The slab answers NULL, or an element that is not handed out. -/
theorem State.of_slabAlloc {slab : Option E} {next : Option E → Pc E}
    (hs : t.slabAlloc c slab next = some t') :
    t.Frame c t' ∧
      ((slab = none ∧
          t'.view c = ⟨next none, t.sharedq.items, (t.localq c).items, t.held, t.out⟩) ∨
        ∃ e, slab = some e ∧ e ∉ t.out ∧
          t'.view c
            = ⟨next (some e), t.sharedq.items, (t.localq c).items, t.held, e :: t.out⟩) := by
  cases slab with
  | none =>
    simp only [State.slabAlloc, Option.some.injEq] at hs
    subst hs
    exact ⟨State.frame_goto _, .inl ⟨rfl, State.view_goto _⟩⟩
  | some e =>
    simp only [State.slabAlloc] at hs
    split at hs
    · cases hs
    · rename_i hfresh
      cases hs
      exact ⟨State.frame_ghost .., .inr ⟨e, rfl, hfresh, State.view_goto _⟩⟩

/-- The slab takes back an element. -/
theorem State.of_slabFree (elem : Option E) (pc : Pc E) :
    t.Frame c ((t.slabFree elem).goto c pc) ∧
      ((t.slabFree elem).goto c pc).view c
        = ⟨pc, t.sharedq.items, (t.localq c).items, t.held, elem.elim t.out t.out.erase⟩ := by
  cases elem with
  | none => exact ⟨State.frame_goto _, State.view_goto _⟩
  | some e => exact ⟨State.frame_ghost .., State.view_goto _⟩

end Operations

/-! ## The start of a call -/

section Calls

variable {Q : Type*} [DecidableEq E] {ops : QueueOps Q E} {wait : UInt32} {s s' : State N E Q}
  {c : Fin N} {stack : ℕ → Option E}

omit [DecidableEq E] in
/-- A CPU is ready when it is idle. -/
theorem Pc.ready_iff {pc : Pc E} : pc.ready ↔ pc = .idle := by
  cases pc <;> simp [Pc.ready]

/-- An allocation starts at an idle CPU. -/
theorem step_alloc_eq_some {gfp : UInt32} :
    step ops wait s (.alloc c gfp stack) = some s' ↔
      s.pc c = .idle ∧ s' = s.goto c (.allocLocal gfp stack) := by
  rw [step, Option.ite_none_right_eq_some, Pc.ready_iff, Option.some.injEq]
  exact and_congr_right fun _ => eq_comm

/-- A free starts at an idle CPU, with an element that is no longer held. -/
theorem step_free_eq_some {elem : Option E} :
    step ops wait s (.free c elem stack) = some s' ↔
      s.pc c = .idle ∧ s' = (s.unhold elem).goto c (.freeLocal elem stack) := by
  rw [step, Option.ite_none_right_eq_some, Pc.ready_iff, Option.some.injEq]
  exact and_congr_right fun _ => eq_comm

end Calls

/-! ## Every step is a move -/

section MoveOfStep

variable {localqSz sharedqSz : ℕ} {wait : UInt32} {t t' : State N E (BoundedList E)} {c : Fin N}
  {slab : Option E}

/-- What a CPU sees, by the place of its call. -/
theorem State.view_eq {pc : Pc E} (hpc : t.pc c = pc) :
    t.view c = ⟨pc, t.sharedq.items, (t.localq c).items, t.held, t.out⟩ := by
  rw [State.view, hpc]

variable [DecidableEq E]

/-! ### Allocations -/

/-- localq gives the element, or is empty. -/
theorem move_allocLocal {gfp : UInt32} {stack : ℕ → Option E} (hpc : t.pc c = .allocLocal gfp stack)
    (hs : t.advance listOps wait c slab = some t') :
    Move localqSz sharedqSz wait slab (t.view c) (t'.view c) ∧ t.Frame c t' := by
  simp only [State.advance, hpc] at hs
  obtain ⟨hframe, elems', rest, hitems, hview⟩ := State.of_deqLocal hs
  refine ⟨?_, hframe⟩
  rw [State.view_eq hpc, hview]
  cases hown : (t.localq c).items with
  | nil =>
    rw [hown] at hitems
    obtain rfl : rest = [] := by simpa [entries] using hitems.symm
    exact .miss
  | cons x own =>
    have hmin : min (x :: own).length (1 : UInt32).toNat = 1 := by simp
    rw [hown, hmin] at hitems
    rw [hmin]
    obtain ⟨rfl, rfl⟩ : x = elems' 0 ∧ own = rest := by simpa [entries] using hitems
    exact .hit

/-- sharedq gives nothing, one element, or a batch. -/
theorem move_allocShared {gfp : UInt32} {stack : ℕ → Option E}
    (hpc : t.pc c = .allocShared gfp stack) (hs : t.advance listOps wait c slab = some t') :
    Move localqSz sharedqSz wait slab (t.view c) (t'.view c) ∧ t.Frame c t' := by
  simp only [State.advance, hpc] at hs
  obtain ⟨hframe, elems', rest, hitems, hview⟩ := State.of_deqShared hs
  refine ⟨?_, hframe⟩
  rw [show (UInt32.ofNat bulk).toNat = bulk from rfl] at hitems hview
  have hle : min t.sharedq.items.length bulk ≤ bulk := Nat.min_le_right _ _
  have h16 : bulk = 16 := rfl
  rw [State.view_eq hpc, hview, if_neg (by omega)]
  -- the answer of the dequeue decides between the slab, a return and a refill
  obtain hnone | hone | ⟨k, hpos, hk⟩ : min t.sharedq.items.length bulk = 0 ∨
      min t.sharedq.items.length bulk = 1 ∨
      ∃ k, 0 < k ∧ min t.sharedq.items.length bulk = k + 1 := by
    rcases hn : min t.sharedq.items.length bulk with _ | _ | k
    · exact .inl rfl
    · exact .inr (.inl rfl)
    · exact .inr (.inr ⟨k + 1, Nat.succ_pos k, rfl⟩)
  · have hempty : t.sharedq.items = [] := by
      rw [← List.length_eq_zero_iff]
      omega
    rw [hnone] at hitems ⊢
    obtain rfl : rest = [] := by simpa [hempty, entries] using hitems.symm
    rw [hempty]
    exact .sharedMiss
  · have hsingle : t.sharedq.items.length = 1 := by omega
    rw [hone] at hitems ⊢
    obtain rfl : rest = [] := by
      rw [hitems] at hsingle
      simpa [length_entries] using hsingle
    rw [hitems]
    exact .sharedOne
  · rw [hk] at hitems hle ⊢
    rw [hitems, if_pos (by omega), if_pos (by omega)]
    exact .sharedBulk hpos hle

/-- The refill fits in the empty localq. -/
theorem BaseInv.move_refillLocal (h : BaseInv localqSz sharedqSz t) (hlocal : bulk ≤ localqSz)
    {elems : ℕ → Option E} {num : ℤ} (hpc : t.pc c = .refillLocal elems num)
    (hs : t.advance listOps wait c slab = some t') :
    Move localqSz sharedqSz wait slab (t.view c) (t'.view c) ∧ t.Frame c t' := by
  have hok := h.calls c
  rw [hpc] at hok
  obtain ⟨hempty, k, rfl, hpos, hle⟩ := hok
  simp only [State.advance, hpc] at hs
  obtain ⟨hframe, hview⟩ := State.of_enqLocal hs
  refine ⟨?_, hframe⟩
  have h16 : bulk = 16 := rfl
  -- `num - 1` is small and not negative, so its conversion changes nothing
  have hk : (UInt32.ofInt ((k : ℤ) + 1 - 1)).toNat = k := by
    rw [add_sub_cancel_right, toNat_ofInt_natCast (by omega)]
  rw [hk, h.local_cap, hempty, List.length_nil] at hview
  obtain ⟨-, hview⟩ | ⟨hlt, -⟩ := hview
  · rw [State.view_eq hpc, hview, if_neg (by omega), hempty]
    exact .refill
  · omega

/-- The slab gives the element to return, or nothing. -/
theorem move_slabFirst {gfp : UInt32} {stack : ℕ → Option E} (hpc : t.pc c = .slabFirst gfp stack)
    (hs : t.advance listOps wait c slab = some t') :
    Move localqSz sharedqSz wait slab (t.view c) (t'.view c) ∧ t.Frame c t' := by
  simp only [State.advance, hpc] at hs
  rw [State.view_eq hpc]
  split at hs
  · cases hs
    exact ⟨by rw [State.view_goto]; exact .gfpBug ‹_›, State.frame_goto _⟩
  · obtain ⟨hframe, ⟨rfl, hview⟩ | ⟨e, rfl, hfresh, hview⟩⟩ := State.of_slabAlloc hs
    · exact ⟨by rw [hview]; exact .firstNull, hframe⟩
    · exact ⟨by rw [hview]; exact .first hfresh, hframe⟩

/-- The slab gives an element of a batch, or nothing. -/
theorem BaseInv.move_slabElem (h : BaseInv localqSz sharedqSz t) {elem : Option E}
    {elems : ℕ → Option E} {i j : ℕ} (hpc : t.pc c = .slabElem elem elems i j)
    (hs : t.advance listOps wait c slab = some t') :
    Move localqSz sharedqSz wait slab (t.view c) (t'.view c) ∧ t.Frame c t' := by
  have hok := h.calls c
  rw [hpc] at hok
  obtain ⟨-, hj⟩ := hok
  simp only [State.advance, hpc] at hs
  rw [State.view_eq hpc]
  obtain ⟨hframe, ⟨rfl, hview⟩ | ⟨e, rfl, hfresh, hview⟩⟩ := State.of_slabAlloc hs
  · exact ⟨by rw [hview]; exact .elemNull, hframe⟩
  · refine ⟨?_, hframe⟩
    rw [hview, if_neg (Option.some_ne_none e)]
    split
    · exact .elem hfresh ‹_›
    · exact .elemLast hfresh (by omega)

/-- What was collected of a batch goes to sharedq without its last element. -/
theorem BaseInv.move_slabPartial (h : BaseInv localqSz sharedqSz t)
    (hshared : sharedqSz < 2 ^ 32 - 1) {elem : Option E} {elems : ℕ → Option E} {j : ℕ}
    (hpc : t.pc c = .slabPartial elem elems j) (hs : t.advance listOps wait c slab = some t') :
    Move localqSz sharedqSz wait slab (t.view c) (t'.view c) ∧ t.Frame c t' := by
  have hok : j < bulk := (hpc ▸ h.calls c : (Pc.slabPartial elem elems j).Ok localqSz _)
  have h16 : bulk = 16 := rfl
  simp only [State.advance, hpc] at hs
  obtain ⟨hframe, hview⟩ := State.of_enqShared hs
  refine ⟨?_, hframe⟩
  rw [State.view_eq hpc]
  obtain ⟨hroom, hview⟩ | ⟨-, hview⟩ := hview
  · rw [h.shared_cap] at hroom
    cases j with
    | zero =>
      -- num = (u32)-1 pointers never fit
      have hnum : (UInt32.ofInt (((0 : ℕ) : ℤ) - 1)).toNat = 2 ^ 32 - 1 := rfl
      omega
    | succ k =>
      have hk : (UInt32.ofInt (((k + 1 : ℕ) : ℤ) - 1)).toNat = k := by
        rw [show ((k + 1 : ℕ) : ℤ) - 1 = k by omega, toNat_ofInt_natCast (by omega)]
      rw [hk] at hroom hview
      rw [hview]
      cases k with
      | zero =>
        rw [if_pos (by rfl), show entries elems 0 = [] from rfl, List.append_nil]
        exact .partialBug
      | succ k =>
        rw [if_neg (by omega)]
        exact .partialEnq (Nat.succ_pos k) hroom
  · rw [hview, if_pos rfl]
    exact .partialBug

/-- A batch goes to sharedq, or does not fit. -/
theorem BaseInv.move_slabEnq (h : BaseInv localqSz sharedqSz t) {elem : Option E}
    {elems : ℕ → Option E} {i : ℕ} (hpc : t.pc c = .slabEnq elem elems i)
    (hs : t.advance listOps wait c slab = some t') :
    Move localqSz sharedqSz wait slab (t.view c) (t'.view c) ∧ t.Frame c t' := by
  simp only [State.advance, hpc] at hs
  obtain ⟨hframe, hview⟩ := State.of_enqShared hs
  refine ⟨?_, hframe⟩
  rw [show (UInt32.ofNat bulk).toNat = bulk from rfl, h.shared_cap] at hview
  rw [State.view_eq hpc]
  obtain ⟨hroom, hview⟩ | ⟨hfull, hview⟩ := hview
  · rw [hview, if_neg (by decide)]
    split
    · exact .enq hroom ‹_›
    · exact .enqLast hroom (by omega)
  · rw [hview, if_pos rfl]
    exact .enqBug hfull

/-! ### Frees -/

/-- localq takes the element, or is full. -/
theorem BaseInv.move_freeLocal (h : BaseInv localqSz sharedqSz t) {elem : Option E}
    {stack : ℕ → Option E} (hpc : t.pc c = .freeLocal elem stack)
    (hs : t.advance listOps wait c slab = some t') :
    Move localqSz sharedqSz wait slab (t.view c) (t'.view c) ∧ t.Frame c t' := by
  have hllen := h.local_le c
  simp only [State.advance, hpc] at hs
  obtain ⟨hframe, hview⟩ := State.of_enqLocal hs
  refine ⟨?_, hframe⟩
  rw [show (1 : UInt32).toNat = 1 from rfl, h.local_cap] at hview
  rw [State.view_eq hpc]
  obtain ⟨hroom, hview⟩ | ⟨hfull, hview⟩ := hview
  · rw [hview]
    exact .put hroom
  · rw [hview]
    exact .full (by omega)

/-- The full localq gives a batch. -/
theorem BaseInv.move_freeSpill (h : BaseInv localqSz sharedqSz t) (hlocal : bulk ≤ localqSz)
    {elem : Option E} {stack : ℕ → Option E} (hpc : t.pc c = .freeSpill elem stack)
    (hs : t.advance listOps wait c slab = some t') :
    Move localqSz sharedqSz wait slab (t.view c) (t'.view c) ∧ t.Frame c t' := by
  have hfull : (t.localq c).items.length = localqSz :=
    (hpc ▸ h.calls c : (Pc.freeSpill elem stack).Ok localqSz _)
  have h16 : bulk = 16 := rfl
  simp only [State.advance, hpc] at hs
  obtain ⟨hframe, elems', rest, hitems, hview⟩ := State.of_deqLocal hs
  refine ⟨?_, hframe⟩
  rw [show (UInt32.ofNat (bulk - 1)).toNat = bulk - 1 from rfl] at hitems hview
  -- localq is full, so there is something to dequeue
  obtain ⟨k, hk, hpos, hle⟩ : ∃ k, min (t.localq c).items.length (bulk - 1) = k ∧
      0 < k ∧ k + 1 ≤ bulk := ⟨_, rfl, by omega, by omega⟩
  rw [hk] at hitems hview
  rw [State.view_eq hpc, hview, if_neg (by omega), if_neg (by omega), hitems]
  exact .spill hpos hle

/-- sharedq takes the batch, or is full. -/
theorem BaseInv.move_freeShared (h : BaseInv localqSz sharedqSz t) {elems : ℕ → Option E} {num : ℤ}
    (hpc : t.pc c = .freeShared elems num) (hs : t.advance listOps wait c slab = some t') :
    Move localqSz sharedqSz wait slab (t.view c) (t'.view c) ∧ t.Frame c t' := by
  have hok := h.calls c
  rw [hpc] at hok
  obtain ⟨k, rfl, hpos, hle⟩ := hok
  simp only [State.advance, hpc] at hs
  obtain ⟨hframe, hview⟩ := State.of_enqShared hs
  refine ⟨?_, hframe⟩
  have h16 : bulk = 16 := rfl
  rw [toNat_ofInt_natCast (by omega), h.shared_cap] at hview
  rw [State.view_eq hpc]
  obtain ⟨hroom, hview⟩ | ⟨-, hview⟩ := hview
  · rw [hview, if_pos rfl]
    exact .putShared hroom
  · rw [hview, if_neg (by omega)]
    exact .sharedFull

/-- An element of the batch goes back to the slab, or all have gone. -/
theorem BaseInv.move_freeSlab (h : BaseInv localqSz sharedqSz t) {elems : ℕ → Option E} {n : ℤ}
    {i : ℕ} (hpc : t.pc c = .freeSlab elems n i) (hs : t.advance listOps wait c slab = some t') :
    Move localqSz sharedqSz wait slab (t.view c) (t'.view c) ∧ t.Frame c t' := by
  have hok := h.calls c
  rw [hpc] at hok
  obtain ⟨k, rfl, -, -⟩ := hok
  simp only [State.advance, hpc] at hs
  rw [State.view_eq hpc]
  split at hs <;> cases hs
  · obtain ⟨hframe, hview⟩ := State.of_slabFree (t := t) (c := c) (elems i)
      (.freeSlab elems k (i + 1))
    exact ⟨by rw [hview]; exact .giveBack (by omega), hframe⟩
  · exact ⟨by rw [State.view_goto]; exact .givenBack (by omega), State.frame_goto _⟩

/-- sharedq gives what it has of a batch, or both rounds are over. -/
theorem move_drain {elems : ℕ → Option E} {i : ℕ} (hpc : t.pc c = .drain elems i)
    (hs : t.advance listOps wait c slab = some t') :
    Move localqSz sharedqSz wait slab (t.view c) (t'.view c) ∧ t.Frame c t' := by
  simp only [State.advance, hpc] at hs
  rw [State.view_eq hpc]
  split at hs
  · obtain ⟨hframe, elems', rest, hitems, hview⟩ := State.of_deqShared hs
    rw [show (UInt32.ofNat bulk).toNat = bulk from rfl] at hitems hview
    have hle : min t.sharedq.items.length bulk ≤ bulk := Nat.min_le_right _ _
    refine ⟨?_, hframe⟩
    rw [hview, if_neg (by omega)]
    -- only the queue before the step is split
    nth_rewrite 1 [hitems]
    exact .drain hle
  · cases hs
    exact ⟨by rw [State.view_goto]; exact .drained, State.frame_goto _⟩

/-- An element of sharedq goes back to the slab, or all of the round have gone. -/
theorem BaseInv.move_drainFree (h : BaseInv localqSz sharedqSz t) {elems : ℕ → Option E} {num : ℤ}
    {i j : ℕ} (hpc : t.pc c = .drainFree elems i num j)
    (hs : t.advance listOps wait c slab = some t') :
    Move localqSz sharedqSz wait slab (t.view c) (t'.view c) ∧ t.Frame c t' := by
  have hok := h.calls c
  rw [hpc] at hok
  obtain ⟨k, rfl, -⟩ := hok
  simp only [State.advance, hpc] at hs
  rw [State.view_eq hpc]
  split at hs <;> cases hs
  · obtain ⟨hframe, hview⟩ := State.of_slabFree (t := t) (c := c) (elems j)
      (.drainFree elems i k (j + 1))
    exact ⟨by rw [hview]; exact .drainBack (by omega), hframe⟩
  · exact ⟨by rw [State.view_goto]; exact .drainedBack (by omega), State.frame_goto _⟩

/-- **Every step of a running call is a move.** The cases are the places of the call. -/
theorem BaseInv.move (h : BaseInv localqSz sharedqSz t) (hlocal : bulk ≤ localqSz)
    (hshared : sharedqSz < 2 ^ 32 - 1) (hs : step listOps wait t (.run c slab) = some t') :
    Move localqSz sharedqSz wait slab (t.view c) (t'.view c) ∧ t.Frame c t' := by
  have hs : t.advance listOps wait c slab = some t' := hs
  cases hpc : t.pc c with
  | idle | bug => simp [State.advance, hpc] at hs
  | allocLocal => exact move_allocLocal hpc hs
  | allocShared => exact move_allocShared hpc hs
  | refillLocal => exact h.move_refillLocal hlocal hpc hs
  | slabFirst => exact move_slabFirst hpc hs
  | slabElem => exact h.move_slabElem hpc hs
  | slabPartial => exact h.move_slabPartial hshared hpc hs
  | slabEnq => exact h.move_slabEnq hpc hs
  | allocRet elem =>
    simp only [State.advance, hpc, Option.some.injEq] at hs
    subst hs
    rw [State.view_eq hpc, State.view_goto]
    exact ⟨.ret, State.frame_ghost ..⟩
  | freeLocal => exact h.move_freeLocal hpc hs
  | freeSpill => exact h.move_freeSpill hlocal hpc hs
  | freeShared => exact h.move_freeShared hpc hs
  | freeSlab => exact h.move_freeSlab hpc hs
  | drain => exact move_drain hpc hs
  | drainFree => exact h.move_drainFree hpc hs

end MoveOfStep

end QMempool
