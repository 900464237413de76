import PrototypeKernel.BpfLoad.Kallsyms
import PrototypeKernel.Foundation.WrappedOrder
import Mathlib.Data.List.GetD

/-! # What the search of the symbols finds

The signs by which `ksym_search()` bisects are those of wrapped differences, and so is the order in
which `qsort()` leaves the symbols. Where the two of them and the range check behind the loop are
right is said exactly. -/

namespace BpfLoad

open KernelInt Qsort BinarySearch

variable {l t t' : List Ksym} {key : Int64} {s : Ksym} {i p fuel : ℕ}

/-- The entry of the table at place `i`. -/
def entry (t : List Ksym) (i : ℕ) : Ksym := t.getD i ⟨0, []⟩

/-- The number by whose sign the search goes on at place `i`. -/
def sign (t : List Ksym) (key : Int64) (i : ℕ) : ℤ := (keyResult key (entry t i)).toInt

/-- The symbol `s` is **right** for the key: its address is the greatest one up to the key when the
key is between the addresses of the symbols, and the smallest one otherwise. -/
def Right (l : List Ksym) (key : Int64) (s : Ksym) : Prop :=
  s ∈ l ∧
    if (∃ x ∈ l, x.addr ≤ key) ∧ ∃ x ∈ l, key ≤ x.addr then
      s.addr ≤ key ∧ ∀ x ∈ l, x.addr ≤ key → x.addr ≤ s.addr
    else ∀ x ∈ l, s.addr ≤ x.addr

/-- The search of the table `t` returns a right symbol of `l`, and reads the first `sym_cnt` entries
only. -/
def SearchesRight (l t : List Ksym) (key : Int64) : Prop :=
  ∃ fuel reads i, ksymSearch fuel t key = some (.ok (reads, i)) ∧
    (∀ r ∈ reads, r < t.length) ∧ i < t.length ∧ Right l key (entry t i)

/-! ## The loop -/

/-- A place below `MAX_SYMS` can be read. -/
theorem symAt_of_lt (h : i < maxSyms) : symAt t i = .ok (entry t i) := if_pos h

/-- What a round of the loop does, by the sign at the middle of its window. -/
theorem searchStep_eq {w : Search} (hmid : mid w.start w.stop < maxSyms) :
    searchStep t key w =
      if sign t key (mid w.start w.stop) < 0 then
        .ok ⟨w.start, mid w.start w.stop, w.reads ++ [mid w.start w.stop]⟩
      else if 0 < sign t key (mid w.start w.stop) then
        .ok ⟨mid w.start w.stop + 1, w.stop, w.reads ++ [mid w.start w.stop]⟩
      else .error (.ok (w.reads ++ [mid w.start w.stop], mid w.start w.stop)) := by
  simp only [searchStep, symAt_of_lt hmid, gt_iff_lt, Int32.lt_iff_toInt_lt, Int32.toInt_zero]
  rfl

/-- The window of the loop, and the places that have been read. -/
structure Searching (t : List Ksym) (key : Int64) (w : Search) : Prop where
  window : Window (sign t key) t.length w.start w.stop
  reads : ∀ r ∈ w.reads, r < t.length

/-- A place in the table joins those that have been read. -/
theorem Searching.read {w : Search} (h : Searching t key w) (hi : i < t.length) :
    ∀ r ∈ w.reads ++ [i], r < t.length := by
  intro r hr
  rcases List.mem_append.mp hr with hr | hr
  · exact h.reads r hr
  · rw [List.mem_singleton.mp hr]
    exact hi

/-- How a round goes on, or how it leaves. -/
theorem Searching.step {w : Search} (h : Searching t key w) (hmax : t.length ≤ maxSyms)
    (hlt : w.start < w.stop) :
    (∃ w', searchStep t key w = .ok w' ∧ Searching t key w' ∧
        w'.stop - w'.start < w.stop - w.start) ∨
      ∃ reads i, searchStep t key w = .error (.ok (reads, i)) ∧ i < t.length ∧
        sign t key i = 0 ∧ ∀ r ∈ reads, r < t.length := by
  have hmid := mid_lt hlt
  have hle := le_mid w.start w.stop
  have hlen : mid w.start w.stop < t.length := Nat.lt_of_lt_of_le hmid h.window.hi_le
  rw [searchStep_eq (Nat.lt_of_lt_of_le hlen hmax)]
  split
  · rename_i hneg
    exact .inl ⟨_, rfl, ⟨h.window.left hlt hneg, h.read hlen⟩, by dsimp only; omega⟩
  · split
    · rename_i hpos
      exact .inl ⟨_, rfl, ⟨h.window.right hlt hpos, h.read hlen⟩, by dsimp only; omega⟩
    · exact .inr ⟨_, _, rfl, hlen, by omega, h.read hlen⟩

/-- **How the loop ends**: with a place whose sign is 0, or with an empty window. -/
theorem searchLoop_cases (hmax : t.length ≤ maxSyms) (key : Int64) :
    ∃ fuel, (∃ reads i, searchLoop fuel t key = some (.error (.ok (reads, i))) ∧ i < t.length ∧
        sign t key i = 0 ∧ ∀ r ∈ reads, r < t.length) ∨
      ∃ w, searchLoop fuel t key = some (.ok w) ∧ Window (sign t key) t.length w.start w.start ∧
        ∀ r ∈ w.reads, r < t.length := by
  have hstart : Searching t key ⟨0, t.length, []⟩ :=
    ⟨.start, fun r hr => absurd hr List.not_mem_nil⟩
  have hround {w w' : Search} (h : Searching t key w) (hcond : decide (w.start < w.stop) = true)
      (hbody : searchStep t key w = .ok w') :
      Searching t key w' ∧ w'.stop - w'.start < w.stop - w.start := by
    rcases h.step hmax (of_decide_eq_true hcond) with ⟨w'', hw'', hnext⟩ | ⟨reads, i, hleave, -⟩
    · cases hw''.symm.trans hbody
      exact hnext
    · cases hleave.symm.trans hbody
  obtain ⟨r, hrun⟩ := WhileLoop.exists_run_eq_some (fun w : Search => w.stop - w.start) hstart
    fun w w' h hcond hbody => hround h hcond hbody
  obtain ⟨-, w, h, hend⟩ := WhileLoop.exists_of_run_eq_some (P := fun _ w => Searching t key w)
    (k := 0) hstart (fun _ w w' h hcond hbody => (hround h hcond hbody).1) hrun
  rcases hend with ⟨hcond, rfl⟩ | ⟨hcond, e, hbody, rfl⟩
  · have heq : w.stop = w.start :=
      Nat.le_antisymm (Nat.le_of_not_lt (of_decide_eq_false hcond)) h.window.le
    have hwindow := h.window
    rw [heq] at hwindow
    exact ⟨_, .inr ⟨w, hrun, hwindow, h.reads⟩⟩
  · rcases h.step hmax (of_decide_eq_true hcond) with ⟨w', hw', -⟩ | ⟨reads, i, hleave, hfound⟩
    · cases hw'.symm.trans hbody
    · cases hleave.symm.trans hbody
      exact ⟨_, .inl ⟨reads, i, hrun, hfound⟩⟩

/-! ## What follows the loop -/

/-- What a search returns does not depend on the fuel. -/
theorem searchesRight_iff {r : Except ℕ (List ℕ × ℕ)} (h : ksymSearch fuel t key = some r) :
    SearchesRight l t key ↔ ∃ reads i, r = .ok (reads, i) ∧ (∀ r ∈ reads, r < t.length) ∧
      i < t.length ∧ Right l key (entry t i) := by
  constructor
  · rintro ⟨fuel', reads, i, hrun, hright⟩
    obtain ⟨u, hu, rfl⟩ := Option.map_eq_some_iff.mp h
    obtain ⟨u', hu', heq⟩ := Option.map_eq_some_iff.mp hrun
    rw [WhileLoop.run_unique hu hu', heq]
    exact ⟨reads, i, rfl, hright⟩
  · rintro ⟨reads, i, rfl, hright⟩
    exact ⟨fuel, reads, i, h, hright⟩

/-- A search that reads symbols only is right when the symbol that it returns is. -/
theorem searchesRight_of_ok {reads : List ℕ} (h : ksymSearch fuel t key = some (.ok (reads, i)))
    (hi : i < t.length) (hreads : ∀ r ∈ reads, r < t.length) :
    SearchesRight l t key ↔ Right l key (entry t i) := by
  rw [searchesRight_iff h]
  constructor
  · rintro ⟨reads', i', heq, -, -, hright⟩
    cases heq
    exact hright
  · exact fun hright => ⟨reads, i, rfl, hreads, hi, hright⟩

/-- A search that leaves the loop at a place returns the symbol there. -/
theorem searchesRight_of_found {reads : List ℕ}
    (h : searchLoop fuel t key = some (.error (.ok (reads, i)))) (hi : i < t.length)
    (hreads : ∀ r ∈ reads, r < t.length) :
    SearchesRight l t key ↔ Right l key (entry t i) :=
  searchesRight_of_ok (congrArg (Option.map _) h) hi hreads

/-- The range check reads no symbol before the first one. -/
theorem searchEnd_of_eq_zero {w : Search} (h : w.start = 0) :
    searchEnd t key w = .ok (w.reads, 0) := by
  rw [searchEnd, if_neg (by omega)]
  rfl

/-- The range check stops at a symbol that is not before the key. -/
theorem searchEnd_of_not_lt {w : Search} (h : w.start ≠ 0) (hmax : w.start ≤ maxSyms)
    (hkey : ¬ (entry t (w.start - 1)).addr < key) :
    searchEnd t key w = .ok (w.reads ++ [w.start - 1], 0) := by
  rw [searchEnd, if_pos (by omega), symAt_of_lt (by omega)]
  exact if_neg hkey

/-- Behind a symbol that is before the key, the range check reads the next entry. -/
theorem searchEnd_of_lt {w : Search} (h : w.start ≠ 0) (hmax : w.start ≤ maxSyms)
    (hkey : (entry t (w.start - 1)).addr < key) :
    searchEnd t key w = (symAt t w.start).map fun next =>
      (w.reads ++ [w.start - 1, w.start], if key < next.addr then w.start - 1 else 0) := by
  rw [searchEnd, if_pos (by omega), symAt_of_lt (by omega)]
  refine (if_pos hkey).trans ?_
  cases symAt t w.start with
  | error place => rfl
  | ok next =>
    refine congrArg Except.ok ?_
    by_cases hnext : key < next.addr
    · simp only [if_pos hnext]
    · simp only [if_neg hnext]

/-- The range check at the end of the loop, for a loop that ends at place `p`. -/
def EndsRight (l t : List Ksym) (key : Int64) (p : ℕ) : Prop :=
  if p ≠ 0 ∧ (entry t (p - 1)).addr < key then
    p < t.length ∧
      if key < (entry t p).addr then Right l key (entry t (p - 1)) else Right l key (entry t 0)
  else Right l key (entry t 0)

/-- A search whose window becomes empty is right when its range check is. -/
theorem searchesRight_of_empty {w : Search} (h : searchLoop fuel t key = some (.ok w))
    (hne : 0 < t.length) (hmax : t.length ≤ maxSyms) (hle : w.start ≤ t.length)
    (hreads : ∀ r ∈ w.reads, r < t.length) :
    SearchesRight l t key ↔ EndsRight l t key w.start := by
  have hsearch : ksymSearch fuel t key = some (searchEnd t key w) := congrArg (Option.map _) h
  have hin {places : List ℕ} (hplaces : ∀ r ∈ places, r < t.length) :
      ∀ r ∈ w.reads ++ places, r < t.length := fun r hr =>
    (List.mem_append.mp hr).elim (hreads r) (hplaces r)
  unfold EndsRight
  by_cases hzero : w.start = 0
  · rw [if_neg fun hc => hc.1 hzero]
    rw [searchEnd_of_eq_zero hzero] at hsearch
    exact searchesRight_of_ok hsearch hne hreads
  by_cases hkey : (entry t (w.start - 1)).addr < key
  · rw [if_pos ⟨hzero, hkey⟩]
    rw [searchEnd_of_lt hzero (Nat.le_trans hle hmax) hkey] at hsearch
    by_cases hlt : w.start < t.length
    · rw [and_iff_right hlt]
      rw [symAt_of_lt (by omega), Except.map] at hsearch
      have hplaces : ∀ r ∈ [w.start - 1, w.start], r < t.length := by
        simp only [List.mem_cons, List.not_mem_nil, or_false]
        omega
      split
      · rename_i hnext
        rw [if_pos hnext] at hsearch
        exact searchesRight_of_ok hsearch (by omega) (hin hplaces)
      · rename_i hnext
        rw [if_neg hnext] at hsearch
        exact searchesRight_of_ok hsearch hne (hin hplaces)
    · -- the entry behind the last symbol is read
      refine iff_of_false ?_ fun hc => hlt hc.1
      rw [searchesRight_iff hsearch]
      rintro ⟨reads, i, heq, hread, -⟩
      cases hat : symAt t w.start with
      | error place =>
        rw [hat] at heq
        cases heq
      | ok next =>
        rw [hat] at heq
        cases heq
        exact hlt (hread w.start (List.mem_append_right _ (by simp)))
  · rw [if_neg fun hc => hkey hc.2]
    rw [searchEnd_of_not_lt hzero (Nat.le_trans hle hmax) hkey] at hsearch
    refine searchesRight_of_ok hsearch hne (hin fun r hr => ?_)
    rw [List.mem_singleton.mp hr]
    omega

/-! ## Sorted tables -/

/-- The low words of the addresses, which are all that the comparisons see. -/
def lows (t : List Ksym) : List Int32 := t.map fun s => s.addr.toInt32

/-- The low word of the address at a place. -/
theorem toInt32_entry (t : List Ksym) (i : ℕ) :
    (entry t i).addr.toInt32 = (lows t).getD i 0 :=
  (List.getD_map t ⟨0, []⟩ fun s : Ksym => s.addr.toInt32).symm

/-- The search compares the low words of the key and the address. -/
theorem keyResult_entry (t : List Ksym) (key : Int64) (i : ℕ) :
    keyResult key (entry t i) = key.toInt32 - (lows t).getD i 0 := by
  rw [keyResult, Int64.toInt32_sub, toInt32_entry]

/-- `ksym_cmp()` compares the low words of two addresses. -/
theorem ksymCmp_entry (t : List Ksym) (i j : ℕ) :
    ksymCmp (entry t i) (entry t j) = (lows t).getD i 0 - (lows t).getD j 0 := by
  rw [ksymCmp, Int64.toInt32_sub, toInt32_entry, toInt32_entry]

/-- The entry at a place of the table is in it. -/
theorem entry_mem (h : i < t.length) : entry t i ∈ t := by
  rw [entry, List.getD_eq_getElem t _ h]
  exact List.getElem_mem h

/-- The order of `qsort()` is that of the low words. -/
abbrev KsymSorted (t : List Ksym) : Prop := Sorted (fun a b => (ksymCmp a b).toInt) t

/-- The condition under which `qsort()` sorts. -/
abbrev KsymConsistent (l : List Ksym) : Prop := Consistent (fun a b => (ksymCmp a b).toInt) l

/-- A sorted table has its low words in their order. -/
theorem sortedBy_of_sorted (hsorted : KsymSorted t) (hcons : KsymConsistent l) (hperm : t.Perm l) :
    WrappedOrder.SortedBy (fun i => (lows t).getD i 0) t.length where
  sorted i j hij hj := by
    rw [← ksymCmp_entry]
    have hi := Nat.lt_trans hij hj
    rw [entry, entry, List.getD_eq_getElem t _ hi, List.getD_eq_getElem t _ hj]
    exact List.pairwise_iff_getElem.mp hsorted i j hi hj hij
  antisymm i j hi hj hlt := by
    rw [← ksymCmp_entry] at hlt ⊢
    exact (hcons.antisymm _ (hperm.subset (entry_mem hi)) _ (hperm.subset (entry_mem hj))).mp hlt

/-- **The signs of a sorted table** fall, or none of them is zero and there is no boundary. -/
theorem sign_shape (key : Int64) (hsorted : KsymSorted t) (hcons : KsymConsistent l)
    (hperm : t.Perm l) :
    Falling (sign t key) t.length ∨
      (∀ i, i < t.length → sign t key i ≠ 0) ∧ ∀ i, ¬ Boundary (sign t key) t.length i := by
  have hsign : sign t key = fun i => (key.toInt32 - (lows t).getD i 0).toInt :=
    funext fun i => by rw [sign, keyResult_entry]
  rw [hsign]
  exact (sortedBy_of_sorted hsorted hcons hperm).falling_or key.toInt32

/-- What the search of the table `t` needs when no symbol compares equal to the key. Before a
boundary of the signs stands the symbol that is returned, if the addresses of the two symbols around
it are around the key, and otherwise the first symbol is returned. Without a boundary the first
symbol is returned, and the last one must not be before the key if it is compared with it. -/
structure MissesRight (l t : List Ksym) (key : Int64) : Prop where
  boundary : ∀ i, Boundary (sign t key) t.length i →
    if (entry t i).addr < key ∧ key < (entry t (i + 1)).addr then Right l key (entry t i)
    else Right l key (entry t 0)
  no_boundary : (∀ i, ¬ Boundary (sign t key) t.length i) → Right l key (entry t 0) ∧
    (0 < sign t key (t.length / 2) → key ≤ (entry t (t.length - 1)).addr)

/-- The range check of a sorted table is right when the table needs nothing else. -/
theorem endsRight_iff (h : Window (sign t key) t.length p p) (hne : 0 < t.length)
    (hshape : Falling (sign t key) t.length ∨ ∀ i, ¬ Boundary (sign t key) t.length i) :
    EndsRight l t key p ↔ MissesRight l t key := by
  by_cases hb : ∃ i, Boundary (sign t key) t.length i
  · obtain ⟨i, hi⟩ := hb
    have hfall := hshape.resolve_right fun hno => hno i hi
    have hunique {j : ℕ} (hj : Boundary (sign t key) t.length j) : j = i := by
      have := h.eq_of_boundary hfall hi
      have := h.eq_of_boundary hfall hj
      omega
    obtain rfl := h.eq_of_boundary hfall hi
    have hends : EndsRight l t key (i + 1) ↔
        if (entry t i).addr < key ∧ key < (entry t (i + 1)).addr then Right l key (entry t i)
        else Right l key (entry t 0) := by
      unfold EndsRight
      by_cases hkey : (entry t i).addr < key
      · rw [if_pos ⟨Nat.succ_ne_zero i, hkey⟩, and_iff_right hi.1]
        simp only [hkey, true_and, Nat.add_sub_cancel]
      · rw [if_neg fun hc => hkey hc.2, if_neg fun hc => hkey hc.1]
    rw [hends]
    constructor
    · intro hright
      exact ⟨fun j hj => by rw [hunique hj]; exact hright, fun hno => absurd hi (hno i)⟩
    · exact fun hmiss => hmiss.boundary i hi
  · have hno := not_exists.mp hb
    have hmiss : MissesRight l t key ↔ Right l key (entry t 0) ∧
        (0 < sign t key (t.length / 2) → key ≤ (entry t (t.length - 1)).addr) :=
      ⟨fun hm => hm.no_boundary hno, fun hm => ⟨fun i hi => absurd hi (hno i), fun _ => hm⟩⟩
    rw [hmiss]
    unfold EndsRight
    rcases h.eq_of_no_boundary hne hno with ⟨rfl, hneg⟩ | ⟨rfl, hpos⟩
    · rw [if_neg fun hc => hc.1 rfl, and_iff_left]
      exact fun hpos => absurd hneg (by omega)
    · by_cases hkey : (entry t (t.length - 1)).addr < key
      · rw [if_pos ⟨Nat.ne_of_gt hne, hkey⟩]
        refine iff_of_false (fun hc => absurd hc.1 (Nat.lt_irrefl _)) fun hc => ?_
        exact absurd hkey (Int64.not_lt.mpr (hc.2 hpos))
      · rw [if_neg fun hc => hkey hc.2, and_iff_left]
        exact fun _ => Int64.not_lt.mp hkey

/-! ## All tables -/

/-- **A sorted table in which no symbol compares equal to the key.** -/
theorem searchesRight_iff_misses (hmax : t.length ≤ maxSyms) (hne : 0 < t.length)
    (hsorted : KsymSorted t) (hcons : KsymConsistent l) (hperm : t.Perm l)
    (hno : ∀ s ∈ l, keyResult key s ≠ 0) : SearchesRight l t key ↔ MissesRight l t key := by
  have hnonzero {i : ℕ} (hi : i < t.length) : sign t key i ≠ 0 := fun hzero =>
    hno _ (hperm.subset (entry_mem hi)) (Int32.toInt_inj.mp hzero)
  obtain ⟨fuel, ⟨reads, i, -, hi, hzero, -⟩ | ⟨w, hrun, hwindow, hreads⟩⟩ :=
    searchLoop_cases hmax key
  · exact absurd hzero (hnonzero hi)
  · rw [searchesRight_of_empty hrun hne hmax hwindow.hi_le hreads]
    exact endsRight_iff hwindow hne ((sign_shape key hsorted hcons hperm).imp_right And.right)

/-- A sorted table with a symbol that compares equal to the key: the loop leaves at such a symbol.
-/
theorem exists_found (hmax : t.length ≤ maxSyms) (hsorted : KsymSorted t)
    (hcons : KsymConsistent l) (hperm : t.Perm l) (hs : s ∈ l) (hkey : keyResult key s = 0) :
    ∃ fuel reads i, searchLoop fuel t key = some (.error (.ok (reads, i))) ∧ i < t.length ∧
      sign t key i = 0 ∧ ∀ r ∈ reads, r < t.length := by
  obtain ⟨fuel, ⟨reads, i, hfound⟩ | ⟨w, -, hwindow, -⟩⟩ := searchLoop_cases hmax key
  · exact ⟨fuel, reads, i, hfound⟩
  · obtain ⟨j, hj, rfl⟩ := List.getElem_of_mem (hperm.symm.subset hs)
    have hzero : sign t key j = 0 := by
      rw [sign, entry, List.getD_eq_getElem t _ hj, hkey]
      rfl
    -- an empty window in falling signs leaves no zero
    rcases sign_shape key hsorted hcons hperm with hfall | ⟨hnonzero, -⟩
    · obtain ⟨hbefore, hbehind⟩ := hwindow.signs_of_falling hfall
      rcases Nat.lt_or_ge j w.start with hlt | hle
      · have := hbefore j hlt
        omega
      · have := hbehind j hle hj
        omega
    · exact absurd hzero (hnonzero j hj)

/-- Tables with the same low words are searched in the same way. -/
theorem searchLoop_congr (h : lows t = lows t') (fuel : ℕ) (key : Int64) :
    searchLoop fuel t key = searchLoop fuel t' key := by
  have hlen : t.length = t'.length := by
    simpa [lows] using congrArg List.length h
  have hstep : searchStep t key = searchStep t' key := by
    funext w
    by_cases hmid : mid w.start w.stop < maxSyms
    · have hsign : sign t key = sign t' key :=
        funext fun i => by rw [sign, sign, keyResult_entry, keyResult_entry, h]
      rw [searchStep_eq hmid, searchStep_eq hmid, hsign]
    · simp only [searchStep, symAt, if_neg hmid]
  rw [searchLoop, searchLoop, hstep, hlen]

/-- A table is sorted when no low word exceeds a later one by a positive `int`. -/
theorem ksymSorted_iff : KsymSorted t ↔ (lows t).Pairwise fun a b => (a - b).toInt ≤ 0 := by
  rw [lows, List.pairwise_map]
  simp only [KsymSorted, Sorted, ksymCmp, Int64.toInt32_sub]

/-- Two symbols with the same low words may change their places in a sorted table. -/
theorem exists_exchange (hi : i < t.length) (hs : s ∈ t)
    (heq : s.addr.toInt32 = (entry t i).addr.toInt32) :
    ∃ t', t'.Perm t ∧ lows t' = lows t ∧ entry t' i = s := by
  obtain ⟨j, hj, rfl⟩ := List.getElem_of_mem hs
  rw [entry, List.getD_eq_getElem t _ hi] at heq
  refine ⟨(t.set i t[j]).set j t[i], List.set_set_perm hi hj, ?_, ?_⟩
  · refine List.ext_getElem (by simp [lows]) fun k _ _ => ?_
    simp only [lows, List.getElem_map, List.getElem_set]
    split
    · rename_i hjk
      subst hjk
      exact heq.symm
    · split
      · rename_i hik
        subst hik
        exact heq
      · rfl
  · rw [entry, List.getD_eq_getElem _ _ (by simpa using hi), List.getElem_set]
    split
    · rename_i hji
      subst hji
      rfl
    · exact List.getElem_set_self _

/-- The condition under which the symbols `l` are searched for the key as they are to be. -/
structure Searchable (l : List Ksym) (key : Int64) : Prop where
  consistent : KsymConsistent l
  equal : ∀ s ∈ l, keyResult key s = 0 → Right l key s
  unequal : (∀ s ∈ l, keyResult key s ≠ 0) → ∀ t, t.Perm l → KsymSorted t → MissesRight l t key

/-- There is a symbol that is not in the table. -/
theorem exists_not_mem (l : List Ksym) : ∃ s, s ∉ l := by
  refine ⟨⟨0, l.flatMap Ksym.name ++ ['x']⟩, fun hmem => ?_⟩
  -- its name is longer than all of the names together
  have hle : (l.flatMap Ksym.name ++ ['x']).length ≤ (l.map Ksym.name).flatten.length :=
    (List.sublist_flatten_of_mem (List.mem_map_of_mem (f := Ksym.name) hmem)).length_le
  rw [List.length_append, List.length_singleton, List.flatMap_def] at hle
  omega

/-- A symbol that compares equal to the key has its low word. -/
theorem toInt32_of_keyResult (h : keyResult key s = 0) : s.addr.toInt32 = key.toInt32 := by
  rw [keyResult, Int64.toInt32_sub, Int32.sub_eq_iff_eq_add, Int32.zero_add] at h
  exact h.symm

/-- **The search is right in every table in which `qsort()` may leave the symbols** exactly when
they are searchable for the key. -/
theorem searchable_iff (hne : 0 < l.length) (hmax : l.length ≤ maxSyms) :
    (∀ t, Leaves (fun a b => (ksymCmp a b).toInt) l t → SearchesRight l t key) ↔
      Searchable l key := by
  constructor
  · intro hall
    have hcons : KsymConsistent l := by
      by_contra hcons
      -- nothing is known about the table: its entries need not be symbols
      obtain ⟨s, hs⟩ := exists_not_mem l
      obtain ⟨-, -, i, -, -, hi, hright⟩ :=
        hall (List.replicate l.length s) (.of_not_consistent hcons List.length_replicate)
      have hmem := entry_mem hi
      rw [List.eq_of_mem_replicate hmem] at hright
      exact hs hright.1
    refine ⟨hcons, fun s hs hkey => ?_, fun hno t hperm hsorted => ?_⟩
    · obtain ⟨t, hperm, hsorted⟩ := hcons.exists_sorted
      obtain ⟨fuel, reads, i, hrun, hi, hzero, hreads⟩ :=
        exists_found (hperm.length_eq ▸ hmax) hsorted hcons hperm hs hkey
      have hlow : s.addr.toInt32 = (entry t i).addr.toInt32 :=
        (toInt32_of_keyResult hkey).trans (toInt32_of_keyResult (Int32.toInt_inj.mp hzero)).symm
      -- a table with `s` at the place where the loop leaves
      obtain ⟨t', hperm', hlows, hat⟩ := exists_exchange hi (hperm.symm.subset hs) hlow
      have hlen := hperm'.length_eq
      have hright := hall t' (.of_sorted (hperm'.trans hperm)
        (ksymSorted_iff.mpr (hlows ▸ ksymSorted_iff.mp hsorted)))
      rw [searchesRight_of_found ((searchLoop_congr hlows fuel key).trans hrun) (hlen ▸ hi)
        (hlen ▸ hreads), hat] at hright
      exact hright
    · have hlen := hperm.length_eq
      exact (searchesRight_iff_misses (hlen ▸ hmax) (hlen ▸ hne) hsorted hcons hperm hno).mp
        (hall t (.of_sorted hperm hsorted))
  · intro h t ht
    obtain ⟨hperm, hsorted⟩ := ht.sorts h.consistent
    have hlen := hperm.length_eq
    by_cases hequal : ∃ s ∈ l, keyResult key s = 0
    · obtain ⟨s, hs, hkey⟩ := hequal
      obtain ⟨fuel, reads, i, hrun, hi, hzero, hreads⟩ :=
        exists_found (hlen ▸ hmax) hsorted h.consistent hperm hs hkey
      rw [searchesRight_of_found hrun hi hreads]
      exact h.equal _ (hperm.subset (entry_mem hi)) (Int32.toInt_inj.mp hzero)
    · have hno : ∀ s ∈ l, keyResult key s ≠ 0 := fun s hs hkey => hequal ⟨s, hs, hkey⟩
      exact (searchesRight_iff_misses (hlen ▸ hmax) (hlen ▸ hne) hsorted h.consistent hperm
        hno).mpr (h.unequal hno t hperm hsorted)

/-! ## Symbols near each other -/

/-- The addresses of the symbols and the key are less than `2 ^ 31` apart. -/
structure Near (l : List Ksym) (key : Int64) : Prop where
  symbols : ∀ a ∈ l, ∀ b ∈ l, a.addr.toInt - b.addr.toInt < 2 ^ 31
  below : ∀ a ∈ l, key.toInt - a.addr.toInt < 2 ^ 31
  above : ∀ a ∈ l, a.addr.toInt - key.toInt < 2 ^ 31

/-- A difference of addresses that are near each other is not truncated. -/
theorem toInt_sub_of_near {a b : Int64} (h : a.toInt - b.toInt < 2 ^ 31)
    (h' : b.toInt - a.toInt < 2 ^ 31) : (a - b).toInt32.toInt = a.toInt - b.toInt := by
  rw [Int64.toInt_toInt32, Int64.toInt_sub, Int.bmod_eq_of_le (n := a.toInt - b.toInt) (by omega)
    (by omega), Int.bmod_eq_of_le (by omega) (by omega)]

/-- Near the key the comparison is the difference of the addresses. -/
theorem Near.keyResult_toInt (h : Near l key) (hs : s ∈ l) :
    (keyResult key s).toInt = key.toInt - s.addr.toInt :=
  toInt_sub_of_near (h.below s hs) (h.above s hs)

/-- Among near symbols the comparison is the difference of the addresses. -/
theorem Near.ksymCmp_toInt (h : Near l key) {a b : Ksym} (ha : a ∈ l) (hb : b ∈ l) :
    (ksymCmp a b).toInt = a.addr.toInt - b.addr.toInt :=
  toInt_sub_of_near (h.symbols a ha b hb) (h.symbols b hb a ha)

/-- Near symbols are ordered by their addresses. -/
theorem Near.consistent (h : Near l key) : KsymConsistent l where
  antisymm a ha b hb := by
    rw [h.ksymCmp_toInt ha hb, h.ksymCmp_toInt hb ha]
    omega
  trans a ha b hb c hc := by
    rw [h.ksymCmp_toInt ha hb, h.ksymCmp_toInt hb hc, h.ksymCmp_toInt ha hc]
    omega

/-- A sorted table of such symbols is sorted by address. -/
theorem Near.addr_le (h : Near l key) (hperm : t.Perm l) (hsorted : KsymSorted t) {j : ℕ}
    (hij : i ≤ j) (hj : j < t.length) : (entry t i).addr.toInt ≤ (entry t j).addr.toInt := by
  rcases Nat.lt_or_eq_of_le hij with hlt | rfl
  · have hi := Nat.lt_trans hlt hj
    have hcmp := h.ksymCmp_toInt (hperm.subset (entry_mem hi)) (hperm.subset (entry_mem hj))
    have hle : (ksymCmp (entry t i) (entry t j)).toInt ≤ 0 := by
      rw [entry, entry, List.getD_eq_getElem t _ hi, List.getD_eq_getElem t _ hj]
      exact List.pairwise_iff_getElem.mp hsorted i j hi hj hlt
    omega
  · exact Int.le_refl _

/-- A symbol of the table, with its place. -/
theorem exists_entry (hperm : t.Perm l) (hs : s ∈ l) : ∃ i, i < t.length ∧ entry t i = s := by
  obtain ⟨i, hi, rfl⟩ := List.getElem_of_mem (hperm.symm.subset hs)
  exact ⟨i, hi, List.getD_eq_getElem t _ hi⟩

/-- The greatest address up to a key that is not above all of the symbols. -/
theorem right_of_le (hs : s ∈ l) (hkey : s.addr ≤ key) (habove : ∃ x ∈ l, key ≤ x.addr)
    (hmax : ∀ x ∈ l, x.addr ≤ key → x.addr ≤ s.addr) : Right l key s := by
  refine ⟨hs, ?_⟩
  rw [if_pos ⟨⟨s, hs, hkey⟩, habove⟩]
  exact ⟨hkey, hmax⟩

/-- The smallest address, for a key below all of the symbols. -/
theorem right_of_lt (hs : s ∈ l) (hkey : ∀ x ∈ l, key < x.addr)
    (hmin : ∀ x ∈ l, s.addr ≤ x.addr) : Right l key s := by
  refine ⟨hs, ?_⟩
  rw [if_neg fun hbetween => ?_]
  · exact hmin
  · obtain ⟨⟨x, hx, hle⟩, -⟩ := hbetween
    exact Int64.not_lt.mpr hle (hkey x hx)

/-- The signs of a table are those of the differences. -/
theorem Near.sign_eq (h : Near l key) (hperm : t.Perm l) (hi : i < t.length) :
    sign t key i = key.toInt - (entry t i).addr.toInt :=
  h.keyResult_toInt (hperm.subset (entry_mem hi))

/-- The symbol before a boundary is right. -/
theorem Near.right_of_boundary (h : Near l key) (hperm : t.Perm l) (hsorted : KsymSorted t)
    (habove : ∃ x ∈ l, key ≤ x.addr) (hb : Boundary (sign t key) t.length i) :
    ((entry t i).addr < key ∧ key < (entry t (i + 1)).addr) ∧ Right l key (entry t i) := by
  obtain ⟨hnext, hpos, hneg⟩ := hb
  have hi := Nat.lt_of_succ_lt hnext
  rw [h.sign_eq hperm hi] at hpos
  rw [h.sign_eq hperm hnext] at hneg
  have hbefore : (entry t i).addr < key := Int64.lt_iff_toInt_lt.mpr (by omega)
  refine ⟨⟨hbefore, Int64.lt_iff_toInt_lt.mpr (by omega)⟩, ?_⟩
  refine right_of_le (hperm.subset (entry_mem hi)) (Int64.le_of_lt hbefore) habove ?_
  intro x hx hle
  obtain ⟨j, hj, rfl⟩ := exists_entry hperm hx
  rw [Int64.le_iff_toInt_le] at hle ⊢
  rcases Nat.lt_or_ge i j with hlt | hge
  · -- the symbols behind the boundary are behind the key
    have hle' : (entry t (i + 1)).addr.toInt ≤ (entry t j).addr.toInt :=
      h.addr_le hperm hsorted hlt hj
    omega
  · exact h.addr_le hperm hsorted hge hi

/-- Without a boundary, all of the symbols are behind a key that is not above all of them. -/
theorem Near.sign_neg (h : Near l key) (hperm : t.Perm l) (hsorted : KsymSorted t)
    (hnonzero : ∀ i, i < t.length → sign t key i ≠ 0)
    (hno : ∀ i, ¬ Boundary (sign t key) t.length i) (habove : ∃ x ∈ l, key ≤ x.addr)
    (hi : i < t.length) : sign t key i < 0 := by
  obtain ⟨x, hx, hle⟩ := habove
  obtain ⟨j, hj, rfl⟩ := exists_entry hperm hx
  have hle := Int64.le_iff_toInt_le.mp hle
  have hsign := h.sign_eq hperm hi
  have hsignj := h.sign_eq hperm hj
  have hzero := hnonzero i hi
  have hzeroj := hnonzero j hj
  refine Decidable.byContradiction fun hnn => ?_
  have hij : i < j := by
    refine Nat.lt_of_not_le fun hji => ?_
    have hle' := h.addr_le hperm hsorted hji hi
    omega
  obtain ⟨k, hk⟩ := exists_boundary hnonzero hij hj (by omega) (by omega)
  exact hno k hk

/-- **A key that is not above all of the symbols.** -/
theorem Near.searchable (h : Near l key) (habove : ∃ x ∈ l, key ≤ x.addr) : Searchable l key where
  consistent := h.consistent
  equal s hs hzero := by
    have heq := h.keyResult_toInt hs
    rw [hzero, Int32.toInt_zero] at heq
    -- the address is the key
    have hkey : s.addr = key := Int64.toInt_inj.mp (by omega)
    exact right_of_le hs (hkey ▸ Int64.le_refl _) habove fun x _ hx => hkey.symm ▸ hx
  unequal hne t hperm hsorted := by
    have hnonzero : ∀ i, i < t.length → sign t key i ≠ 0 := fun i hi hzero =>
      hne _ (hperm.subset (entry_mem hi)) (Int32.toInt_inj.mp hzero)
    constructor
    · intro i hb
      obtain ⟨haround, hright⟩ := h.right_of_boundary hperm hsorted habove hb
      rwa [if_pos haround]
    · intro hno
      have hneg {i : ℕ} (hi : i < t.length) : sign t key i < 0 :=
        h.sign_neg hperm hsorted hnonzero hno habove hi
      have hlen : 0 < t.length := by
        obtain ⟨x, hx, -⟩ := habove
        exact List.length_pos_of_mem (hperm.symm.subset hx)
      refine ⟨right_of_lt (hperm.subset (entry_mem hlen)) (fun x hx => ?_) fun x hx => ?_, ?_⟩
      · obtain ⟨i, hi, rfl⟩ := exists_entry hperm hx
        have hbehind := hneg hi
        rw [h.sign_eq hperm hi] at hbehind
        exact Int64.lt_iff_toInt_lt.mpr (by omega)
      · obtain ⟨i, hi, rfl⟩ := exists_entry hperm hx
        exact Int64.le_iff_toInt_le.mpr (h.addr_le hperm hsorted (Nat.zero_le i) hi)
      · intro hpos
        have hmid := hneg (i := t.length / 2) (by omega)
        omega

/-- **A key above all of the symbols** is compared with the entry behind the last one. -/
theorem Near.not_searchable (h : Near l key) (hne : l ≠ []) (habove : ∀ x ∈ l, x.addr < key) :
    ¬ Searchable l key := by
  intro hsearch
  have hlt {s : Ksym} (hs : s ∈ l) : s.addr.toInt < key.toInt :=
    Int64.lt_iff_toInt_lt.mp (habove s hs)
  obtain ⟨t, hperm, hsorted⟩ := h.consistent.exists_sorted
  have hlen : 0 < t.length := by
    rw [hperm.length_eq]
    exact List.length_pos_iff.mpr hne
  have hpos {i : ℕ} (hi : i < t.length) : 0 < sign t key i := by
    have hbefore := hlt (hperm.subset (entry_mem hi))
    rw [h.sign_eq hperm hi]
    omega
  have hnone : ∀ s ∈ l, keyResult key s ≠ 0 := by
    intro s hs hzero
    have heq := h.keyResult_toInt hs
    rw [hzero, Int32.toInt_zero] at heq
    have hbefore := hlt hs
    omega
  have hno : ∀ i, ¬ Boundary (sign t key) t.length i := by
    rintro i ⟨hi, -, hneg⟩
    have hnext := hpos hi
    omega
  have hlast := ((hsearch.unequal hnone t hperm hsorted).no_boundary hno).2 (hpos (by omega))
  exact Int64.not_le.mpr (habove _ (hperm.subset (entry_mem (by omega)))) hlast

/-! ## The loaded symbols -/

/-- **The search is right in every table that `load_kallsyms()` may leave** exactly when the symbols
are searchable for the key. -/
theorem ksymSearch_iff (kallsyms : List Char) (key : Int64) (hne : storedSyms kallsyms ≠ [])
    (hmax : (storedSyms kallsyms).length ≤ maxSyms) :
    (∀ t, LoadKallsyms (some kallsyms) 0 t → SearchesRight (storedSyms kallsyms) t key) ↔
      Searchable (storedSyms kallsyms) key := by
  rw [← searchable_iff (List.length_pos_iff.mpr hne) hmax]
  refine forall_congr' fun t => imp_congr_left ?_
  constructor
  · rintro (_ | ⟨_, hsort⟩)
    exact hsort
  · exact .loaded hmax

/-- Two symbols of the kernel. -/
def twoSyms : List Char := "ffffffff81000000 T _stext\nffffffff81001000 T f\n".toList

/-- Two symbols and the key 0. -/
theorem ksymSearch_iff_two :
    (∀ t, LoadKallsyms (some twoSyms) 0 t → SearchesRight (storedSyms twoSyms) t 0) ↔
      Searchable (storedSyms twoSyms) 0 :=
  ksymSearch_iff twoSyms 0 (by decide) (by decide)

/-- For a key above both symbols the entry behind the table is read, and the second symbol is
returned. -/
theorem not_searchesRight : ¬ ∀ (kallsyms : List Char) (key : Int64), storedSyms kallsyms ≠ [] →
    (storedSyms kallsyms).length ≤ maxSyms →
      ∀ t, LoadKallsyms (some kallsyms) 0 t → SearchesRight (storedSyms kallsyms) t key := by
  intro h
  have hsorted : KsymSorted (storedSyms twoSyms) := by
    unfold KsymSorted Sorted
    decide
  have hright := h twoSyms (-1) (by decide) (by decide) _
    (.loaded (by decide) (.of_sorted (List.Perm.refl _) hsorted))
  have hsearch : ksymSearch 3 (storedSyms twoSyms) (-1) = some (.ok ([1, 1, 2], 1)) := rfl
  obtain ⟨reads, i, heq, hreads, -⟩ := (searchesRight_iff hsearch).mp hright
  cases heq
  exact absurd (hreads 2 (by decide)) (by decide)

end BpfLoad
