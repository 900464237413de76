import PrototypeKernel.SlabBulkTest03.Benchmark
import Mathlib.Algebra.Order.BigOperators.Group.List
import Mathlib.Algebra.Order.Group.Nat
import Mathlib.Data.List.Induction
import Mathlib.Data.List.Nodup

/-! # No object is lost

A benchmark frees other objects than it has allocated, but as many, and only objects that are
allocated and not linked. The hash must hold an object before it, because `objhash_extract()` does
not give away the last one. -/

namespace SlabBulkTest03

variable {Obj Page : Type} {k : Kernel Obj Page} {slab : Slab Obj} {s : Bench Obj Page}
  {held held' objs : List Obj} {obj : Obj}

/-! ## Objects that are not linked -/

/-- **Every object that is allocated is linked or one of `held`**, and the hash counts those that
are linked. -/
structure Bench.Holds (s : Bench Obj Page) (held : List Obj) : Prop where
  counted : Counted s.hash
  nodup : s.live.Nodup
  perm : s.live.Perm (s.hash.linked ++ held)

/-- The objects are linked once, and counted. -/
theorem Bench.Holds.inv (h : s.Holds held) : Inv s.hash :=
  ⟨h.counted, (List.nodup_append.mp (h.perm.nodup_iff.mp h.nodup)).1⟩

/-- The order of the objects that are held does not matter. -/
theorem Bench.Holds.of_perm (h : s.Holds held) (hperm : held.Perm held') : s.Holds held' :=
  ⟨h.counted, h.nodup, h.perm.trans (hperm.append_left _)⟩

/-- A new object is held. -/
theorem Bench.Holds.alloc (h : s.Holds held) (hslab : slab.Lawful) :
    (kmemCacheAlloc slab s).1.Holds ((kmemCacheAlloc slab s).2.toList ++ held) ∧
      (kmemCacheAlloc slab s).1.hash = s.hash ∧
      (kmemCacheAlloc slab s).1.globalObjs = s.globalObjs := by
  unfold kmemCacheAlloc
  cases hnew : slab.alloc s.allocs s.live with
  | none => exact ⟨⟨h.counted, h.nodup, h.perm⟩, rfl, rfl⟩
  | some obj =>
    refine ⟨⟨h.counted, List.nodup_cons.mpr ⟨hslab.alloc _ _ _ hnew, h.nodup⟩, ?_⟩, rfl, rfl⟩
    exact (h.perm.cons obj).trans List.perm_middle.symm

/-- No objects are stored in every array. -/
theorem stored_nil (g : Ptrs Obj) : Stored g [] := fun _ _ h => by cases h

/-- An entry behind the objects leaves them stored. -/
theorem Stored.update {g : Ptrs Obj} (h : Stored g objs) (y : Option Obj) :
    Stored (Function.update g objs.length y) objs := by
  intro j x hj
  have hlt := (List.getElem?_eq_some_iff.mp hj).1
  rw [Function.update_of_ne hlt.ne]
  exact h j x hj

/-- An object that is stored behind the others is the last one. -/
theorem Stored.append {g : Ptrs Obj} (h : Stored g objs) (obj : Obj) :
    Stored (Function.update g objs.length (some obj)) (objs ++ [obj]) := by
  intro j x hj
  rcases Nat.lt_or_ge j objs.length with hlt | hge
  · rw [List.getElem?_append_left hlt] at hj
    exact h.update _ j x hj
  · rw [List.getElem?_append_right hge, List.getElem?_singleton] at hj
    split at hj
    · cases hj
      rw [show j = objs.length by omega, Function.update_self]
    · cases hj

/-- The objects at the start of an array. -/
theorem entries_of_stored {p : Ptrs Obj} (h : Stored p objs) : entries p objs.length = objs := by
  induction objs using List.reverseRecOn with
  | nil => rfl
  | append_singleton objs obj ih =>
    have hinit : Stored p objs := fun j x hj => h j x (by
      rw [List.getElem?_append_left (List.getElem?_eq_some_iff.mp hj).1, hj])
    have hlast : p objs.length = some obj := h _ _ (by simp)
    rw [entries, List.length_append, List.length_singleton, List.range_succ, List.filterMap_append,
      ← entries, ih hinit]
    simp [hlast]

/-- The array of the entries stores the objects. -/
theorem stored_arrayOf (objs : List Obj) : Stored (arrayOf (objs.map some)) objs := by
  intro j x hj
  rw [arrayOf, List.getElem?_map, hj]
  rfl

/-- After loading, nothing is held. -/
theorem Bench.Holds.init (page : Obj → Page) : (Bench.init page).Holds [] :=
  ⟨counted_init page, List.nodup_nil, .nil⟩

variable [DecidableEq Obj]

/-- An object that is held can be freed. -/
theorem Bench.Holds.free (h : s.Holds (obj :: held)) :
    ∃ s', kmemCacheFree s (some obj) = .ok s' ∧ s'.Holds held ∧ s'.hash = s.hash ∧
      s'.globalObjs = s.globalObjs := by
  have hperm := h.perm.trans List.perm_middle
  have hnot : obj ∉ s.hash.linked := fun hmem =>
    (List.nodup_cons.mp (hperm.nodup_iff.mp h.nodup)).1 (List.mem_append_left _ hmem)
  have hlive : obj ∈ s.live := hperm.mem_iff.mpr List.mem_cons_self
  refine ⟨_, if_pos ⟨hlive, hnot⟩, ⟨h.counted, h.nodup.erase obj, ?_⟩, rfl, rfl⟩
  exact (hperm.erase obj).trans (by rw [List.erase_cons_head])

/-- An object that is held can be linked. -/
theorem Bench.Holds.add (h : s.Holds (obj :: held)) (k : Kernel Obj Page) :
    ∃ s', addOne k s (some obj) = .ok s' ∧ s'.Holds held ∧
      s'.hash.linked.length = s.hash.linked.length + 1 ∧ s'.live = s.live ∧
      s'.globalObjs = s.globalObjs := by
  have hperm := h.perm.trans List.perm_middle
  have hnot : obj ∉ s.hash.linked := fun hmem =>
    (List.nodup_cons.mp (hperm.nodup_iff.mp h.nodup)).1 (List.mem_append_left _ hmem)
  have hlive : obj ∈ s.live := hperm.mem_iff.mpr List.mem_cons_self
  have hlinked := linked_objhashAddOne k s.hash obj
  refine ⟨_, (if_neg (not_not_intro hlive)).trans (if_neg hnot),
    ⟨h.counted.objhashAddOne k obj, h.nodup, ?_⟩, hlinked.length_eq, rfl, rfl⟩
  exact hperm.trans (hlinked.symm.append_right held)

/-! ## The loops of a round -/

/-- The objects in `GLOBAL_OBJS` can be freed. -/
theorem Bench.Holds.myFreeBulk (h : s.Holds (objs ++ held)) (hobjs : Stored s.globalObjs objs) :
    ∃ s', myKmemCacheFreeBulk s objs.length = .ok s' ∧ s'.Holds held ∧ s'.hash = s.hash := by
  obtain ⟨s', hrun, hs', hhash, -⟩ := @CountedLoop.exists_run_eq_ok _ _
    (fun i s => kmemCacheFree s (s.globalObjs i)) s objs.length
    (fun i (s' : Bench Obj Page) => s'.Holds (objs.drop i ++ held) ∧ s'.hash = s.hash ∧
      s'.globalObjs = s.globalObjs) ⟨h, rfl, rfl⟩ fun i s₁ hi ⟨h₁, hhash, hglobal⟩ => by
    rw [List.drop_eq_getElem_cons hi] at h₁
    obtain ⟨s₂, hfree, h₂, hhash₂, hglobal₂⟩ := h₁.free
    refine ⟨s₂, ?_, h₂, hhash₂.trans hhash, hglobal₂.trans hglobal⟩
    rw [hglobal, hobjs i _ (List.getElem?_eq_getElem hi)]
    exact hfree
  rw [List.drop_length] at hs'
  exact ⟨s', hrun, hs', hhash⟩

/-- Objects that are held can be freed by the kernel. -/
theorem Bench.Holds.kmemFreeBulk (h : s.Holds (objs ++ held)) (hslab : slab.Lawful)
    {p : Ptrs Obj} (hobjs : Stored p objs) :
    ∃ s' p', kmemCacheFreeBulk slab s objs.length p = .ok (s', p') ∧ s'.Holds held ∧
      s'.hash = s.hash := by
  have hperm : s.live.Perm (objs ++ (s.hash.linked ++ held)) :=
    h.perm.trans (List.perm_append_comm_assoc ..)
  obtain ⟨hobjsNodup, -, hdisjoint⟩ := List.nodup_append.mp (hperm.nodup_iff.mp h.nodup)
  have hmem : ∀ obj ∈ objs, obj ∈ s.live ∧ obj ∉ s.hash.linked := fun obj hobj =>
    ⟨hperm.mem_iff.mpr (List.mem_append_left _ hobj), fun hlinked =>
      hdisjoint obj hobj obj (List.mem_append_left _ hlinked) rfl⟩
  have hfreed := hslab.freeBulk s.live objs p hobjs hobjsNodup fun obj hobj => (hmem obj hobj).1
  have hlive : (slab.freeBulk s.live objs.length p).1.Perm (s.hash.linked ++ held) :=
    List.perm_append_left_iff objs |>.mp (hfreed.symm.trans hperm)
  refine ⟨_, _, if_pos ?_, ⟨h.counted, ?_, hlive⟩, rfl⟩
  · rw [entries_of_stored hobjs]
    exact ⟨rfl, hobjsNodup, hmem⟩
  · exact (List.nodup_append.mp (hfreed.nodup_iff.mp h.nodup)).2.1

/-- **The fallback of a bulk allocation is all or nothing.** -/
theorem Bench.Holds.myAllocBulk (h : s.Holds held) (hslab : slab.Lawful) (nr : ℕ) :
    (∃ s' objs, myKmemCacheAllocBulk slab s nr = .ok (s', true) ∧ objs.length = nr ∧
      Stored s'.globalObjs objs ∧ s'.Holds (objs ++ held) ∧ s'.hash = s.hash) ∨
    ∃ s', myKmemCacheAllocBulk slab s nr = .ok (s', false) ∧ s'.Holds held ∧
      s'.hash = s.hash := by
  have hround : ∀ i (s₁ : Bench Obj Page) (objs : List Obj), objs.length = i →
      Stored s₁.globalObjs objs → s₁.Holds (objs ++ held) → s₁.hash = s.hash →
      (∃ s₂ objs', allocOne slab i s₁ = .ok s₂ ∧ objs'.length = i + 1 ∧
        Stored s₂.globalObjs objs' ∧ s₂.Holds (objs' ++ held) ∧ s₂.hash = s.hash) ∨
      ∃ s₂, allocOne slab i s₁ = .error (i, s₂) ∧ Stored s₂.globalObjs objs ∧
        s₂.Holds (objs ++ held) ∧ s₂.hash = s.hash := by
    rintro i s₁ objs rfl hobjs h₁ hhash
    obtain ⟨h₂, hhash₂, hglobal₂⟩ := h₁.alloc hslab
    unfold allocOne
    generalize kmemCacheAlloc slab s₁ = r at h₂ hhash₂ hglobal₂
    obtain ⟨s₂, x⟩ := r
    dsimp only at h₂ hhash₂ hglobal₂ ⊢
    cases x with
    | none =>
      refine .inr ⟨_, rfl, ?_, ⟨h₂.counted, h₂.nodup, h₂.perm⟩, hhash₂.trans hhash⟩
      rw [hglobal₂]
      exact hobjs.update _
    | some obj =>
      refine .inl ⟨_, objs ++ [obj], rfl, List.length_append, ?_, ?_, hhash₂.trans hhash⟩
      · rw [hglobal₂]
        exact hobjs.append obj
      · refine Bench.Holds.of_perm ⟨h₂.counted, h₂.nodup, h₂.perm⟩ ?_
        exact (List.perm_append_singleton obj objs).symm.append_right held
  rw [myKmemCacheAllocBulk]
  rcases @CountedLoop.run_cases _ _ (allocOne slab) s nr
      (fun i (s₁ : Bench Obj Page) => ∃ objs : List Obj, objs.length = i ∧
        Stored s₁.globalObjs objs ∧ s₁.Holds (objs ++ held) ∧ s₁.hash = s.hash)
      ⟨[], rfl, stored_nil _, h, rfl⟩ (fun i s₁ s₂ _ ⟨objs, hlen, hobjs, h₁, hhash⟩ hs₂ => by
        rcases hround i s₁ objs hlen hobjs h₁ hhash with ⟨s₃, objs', hok, hrest⟩ | ⟨s₃, herr, -⟩
        · cases hok.symm.trans hs₂
          exact ⟨objs', hrest⟩
        · cases herr.symm.trans hs₂)
    with ⟨s', hrun, objs, hlen, hobjs, h', hhash⟩ |
      ⟨i, -, s₁, e, ⟨objs, hlen, hobjs, h₁, hhash⟩, herr, hrun⟩
  · rw [hrun]
    exact .inl ⟨s', objs, rfl, hlen, hobjs, h', hhash⟩
  · rw [hrun]
    rcases hround i s₁ objs hlen hobjs h₁ hhash with ⟨s₂, objs', hok, -⟩ |
      ⟨s₂, herr₂, hobjs₂, h₂, hhash₂⟩
    · cases hok.symm.trans herr
    · cases herr₂.symm.trans herr
      subst hlen
      obtain ⟨s', hfree, hs', hhash'⟩ := h₂.myFreeBulk hobjs₂
      refine .inr ⟨s', ?_, hs', hhash'.trans hhash₂⟩
      dsimp only
      rw [hfree]
      rfl

/-- **A bulk allocation of a benchmark is all or nothing**, of either kind. -/
theorem Bench.Holds.allocBulk (h : s.Holds held) (hslab : slab.Lawful) (type : TestType)
    (nr : ℕ) :
    (∃ s' objs, type.alloc slab s nr = .ok (s', true) ∧ objs.length = nr ∧
      Stored s'.globalObjs objs ∧ s'.Holds (objs ++ held) ∧ s'.hash = s.hash) ∨
    ∃ s', type.alloc slab s nr = .ok (s', false) ∧ s'.Holds held ∧ s'.hash = s.hash := by
  cases type with
  | fallbackBulk => exact h.myAllocBulk hslab nr
  | bulk =>
    rw [TestType.alloc, kmemCacheAllocBulk]
    generalize hbulk : slab.allocBulk s.allocs s.live nr s.globalObjs = result
    obtain ⟨live, globalObjs, success⟩ := result
    cases success with
    | false =>
      have hlive := hslab.allocBulk_false _ _ _ _ _ _ hbulk
      exact .inr ⟨_, rfl, ⟨h.counted, hlive.nodup_iff.mpr h.nodup, hlive.trans h.perm⟩, rfl⟩
    | true =>
      obtain ⟨objs, hlen, hnodup, hnew, hobjs, hlive⟩ :=
        hslab.allocBulk_true _ _ _ _ _ _ hbulk
      refine .inl ⟨_, objs, rfl, hlen, hobjs, ⟨h.counted, hlive.nodup_iff.mpr ?_, ?_⟩, rfl⟩
      · exact List.nodup_append.mpr ⟨hnodup, h.nodup, fun x hx y hy heq =>
          hnew x hx (heq ▸ hy)⟩
      · exact (hlive.trans (h.perm.append_left objs)).trans (List.perm_append_comm_assoc ..)

/-- The objects in `GLOBAL_OBJS` can be freed, by either kind of bulk free. -/
theorem Bench.Holds.freeBulk (h : s.Holds (objs ++ held)) (hslab : slab.Lawful)
    (hobjs : Stored s.globalObjs objs) (type : TestType) :
    ∃ s', type.free slab s objs.length = .ok s' ∧ s'.Holds held ∧ s'.hash = s.hash := by
  cases type with
  | fallbackBulk => exact h.myFreeBulk hobjs
  | bulk =>
    obtain ⟨s', p', hfree, hs', hhash⟩ := h.kmemFreeBulk hslab hobjs
    rw [TestType.free, hfree]
    exact ⟨_, rfl, ⟨hs'.counted, hs'.nodup, hs'.perm⟩, hhash⟩

/-- The new objects can be linked. -/
theorem Bench.Holds.addBulk (h : s.Holds (objs ++ held)) (hobjs : Stored s.globalObjs objs)
    (k : Kernel Obj Page) :
    ∃ s', CountedLoop.run (fun j s => addOne k s (s.globalObjs j)) objs.length s = .ok s' ∧
      s'.Holds held ∧ s'.hash.linked.length = s.hash.linked.length + objs.length ∧
      s'.live = s.live ∧ s'.globalObjs = s.globalObjs := by
  obtain ⟨s', hrun, hs', hlen, hlive, hglobal⟩ := @CountedLoop.exists_run_eq_ok _ _
    (fun j s => addOne k s (s.globalObjs j)) s objs.length
    (fun j (s' : Bench Obj Page) => s'.Holds (objs.drop j ++ held) ∧
      s'.hash.linked.length = s.hash.linked.length + j ∧ s'.live = s.live ∧
      s'.globalObjs = s.globalObjs) ⟨h, rfl, rfl, rfl⟩
    fun j s₁ hj ⟨h₁, hlen, hlive, hglobal⟩ => by
      rw [List.drop_eq_getElem_cons hj] at h₁
      obtain ⟨s₂, hadd, h₂, hlen₂, hlive₂, hglobal₂⟩ := h₁.add k
      refine ⟨s₂, ?_, h₂, by omega, hlive₂.trans hlive, hglobal₂.trans hglobal⟩
      rw [hglobal, hobjs j _ (List.getElem?_eq_getElem hj)]
      exact hadd
  rw [List.drop_length] at hs'
  exact ⟨s', hrun, hs', hlen, hlive, hglobal⟩

/-- Prefilling links what the slab hands out. -/
theorem exists_prefillHash (hslab : slab.Lawful) (k : Kernel Obj Page) (page : Obj → Page)
    (prefill : ℕ) :
    ∃ s, prefillHash k slab (.init page) prefill = .ok s ∧ s.Holds [] ∧
      s.hash.linked.length ≤ prefill := by
  refine CountedLoop.exists_run_eq_ok
    (P := fun i (s : Bench Obj Page) => s.Holds [] ∧ s.hash.linked.length ≤ i)
    ⟨.init page, Nat.le_refl 0⟩ fun i s _ ⟨hs, hlen⟩ => ?_
  obtain ⟨h₁, hhash, -⟩ := hs.alloc hslab
  generalize kmemCacheAlloc slab s = r at h₁ hhash
  obtain ⟨s₁, obj⟩ := r
  cases obj with
  | none =>
    refine ⟨_, rfl, ⟨h₁.counted, h₁.nodup, h₁.perm⟩, ?_⟩
    show s₁.hash.linked.length ≤ i + 1
    rw [hhash]
    omega
  | some obj =>
    obtain ⟨s₂, hadd, h₂, hlinked, -⟩ := h₁.add k
    rw [hhash] at hlinked
    exact ⟨s₂, hadd, h₂, by omega⟩

variable [DecidableEq Page]

/-- **An extract gives an object away**, or there are fewer than two. -/
theorem Bench.Holds.extract (h : s.Holds held) (hlt : s.hash.linked.length < 2 ^ 31)
    {lastObj : Option Obj} (hlast : ∀ x, lastObj = some x → x ∈ s.live) (noMatch : Bool) :
    (s.hash.linked.length < 2 ∧ ∃ s', SlabBulkTest03.extract k s lastObj noMatch = .ok (s', none) ∧
      s'.Holds held ∧ s'.hash.linked = s.hash.linked) ∨
    ∃ s' obj, SlabBulkTest03.extract k s lastObj noMatch = .ok (s', some obj) ∧
      s'.Holds (obj :: held) ∧ s'.hash.linked.length + 1 = s.hash.linked.length ∧
      s'.live = s.live ∧ s'.globalObjs = s.globalObjs := by
  have hall : lastObj.all (· ∈ s.live) = true := by
    cases lastObj with
    | none => rfl
    | some x => exact decide_eq_true (hlast x rfl)
  rw [SlabBulkTest03.extract, if_pos hall]
  by_cases hcnt : s.hash.objhashCnt < 2
  · rw [objhashExtract_of_lt hcnt]
    refine .inl ⟨?_, _, rfl, ⟨h.counted, h.nodup, h.perm⟩, rfl⟩
    rw [Int32.lt_iff_toInt_lt, h.counted.toInt hlt] at hcnt
    exact Int.ofNat_lt.mp hcnt
  · obtain ⟨f, hf, hrun⟩ := objhashExtract_of_not_lt hcnt (h.counted.linked_ne_nil hcnt) k lastObj
      noMatch
    have hperm := hf.linked_perm lastObj noMatch
    rw [hrun]
    refine .inr ⟨_, f.obj, rfl, ⟨hf.counted h.counted lastObj noMatch, h.nodup, ?_⟩,
      hperm.length_eq.symm, rfl, rfl⟩
    exact (h.perm.trans (hperm.append_right held)).trans List.perm_middle.symm

/-- What holds before round `j` of the loop that extracts. -/
structure Extracted (held : List Obj) (n bulk j : ℕ) (v : Vars Obj Page) (objs : List Obj) :
    Prop where
  length : objs.length = j
  stored : Stored v.bench.globalObjs objs
  holds : v.bench.Holds (objs ++ held)
  linked : v.bench.hash.linked.length + j = n + bulk
  first : 0 < bulk → ∀ x, v.bench.globalObjs 0 = some x → x ∈ v.bench.live
  /-- The object of the last round of a benchmark may be freed. -/
  last : 0 < j → ∀ x, v.lastObj = some x → x ∈ v.bench.live

/-- A round takes an object out, or there are fewer than two. -/
theorem Extracted.step {n bulk j : ℕ} {v : Vars Obj Page} (h : Extracted held n bulk j v objs)
    (hj : j < bulk) (htotal : n + bulk < 2 ^ 31) (k : Kernel Obj Page) (moduloMatch : ℕ) :
    (∃ v' obj, extractOne k moduloMatch j v = .ok v' ∧
      Extracted held n bulk (j + 1) v' (objs ++ [obj])) ∨
    (v.bench.hash.linked.length < 2 ∧ ∃ s', extractOne k moduloMatch j v = .error (.out s') ∧
      s'.Holds (objs ++ held) ∧ s'.hash.linked = v.bench.hash.linked) := by
  obtain ⟨lastObj, noMatch, hfound, hlast⟩ : ∃ lastObj noMatch,
      (if j % moduloMatch = 0 then extract k v.bench (v.bench.globalObjs 0) false
        else extract k v.bench v.lastObj true) = extract k v.bench lastObj noMatch ∧
      ∀ x, lastObj = some x → x ∈ v.bench.live := by
    by_cases hmod : j % moduloMatch = 0
    · exact ⟨_, _, if_pos hmod, h.first (Nat.zero_lt_of_lt hj)⟩
    · have hpos : 0 < j := Nat.pos_of_ne_zero fun hzero => hmod (by rw [hzero, Nat.zero_mod])
      exact ⟨_, _, if_neg hmod, h.last hpos⟩
  have hlt : v.bench.hash.linked.length < 2 ^ 31 := by
    have := h.linked
    omega
  rw [extractOne, hfound]
  rcases h.holds.extract hlt hlast noMatch (k := k) with
    ⟨hfew, s', hrun, hs', hlinked⟩ | ⟨s', obj, hrun, hs', hlen, hlive, hglobal⟩
  · rw [hrun]
    exact .inr ⟨hfew, s', rfl, hs', hlinked⟩
  · rw [hrun]
    have hobj : obj ∈ s'.live :=
      hs'.perm.mem_iff.mpr (List.mem_append_right _ List.mem_cons_self)
    refine .inl ⟨_, obj, rfl, ?_, ?_, ?_, ?_, ?_, ?_⟩
    · rw [List.length_append, h.length]
      rfl
    · show Stored (Function.update s'.globalObjs j (some obj)) _
      rw [hglobal, ← h.length]
      exact h.stored.append obj
    · refine Bench.Holds.of_perm ⟨hs'.counted, hs'.nodup, hs'.perm⟩ ?_
      rw [← List.cons_append]
      exact (List.perm_append_singleton obj objs).symm.append_right held
    · have := h.linked
      show s'.hash.linked.length + (j + 1) = n + bulk
      omega
    · intro hbulk x hx
      rcases Nat.eq_zero_or_pos j with rfl | hpos
      · have hx' : Function.update s'.globalObjs 0 (some obj) 0 = some x := hx
        rw [Function.update_self] at hx'
        cases hx'
        exact hobj
      · have hx' : Function.update s'.globalObjs j (some obj) 0 = some x := hx
        rw [Function.update_of_ne hpos.ne, hglobal] at hx'
        show x ∈ s'.live
        rw [hlive]
        exact h.first hbulk x hx'
    · rintro - x hx
      cases hx
      exact hobj

/-- **What the loop that extracts leaves**: as many objects to free as were linked before, or, when
the hash was empty, one too few. -/
theorem extractBulk_cases {n bulk : ℕ} {v : Vars Obj Page} (h : Extracted held n bulk 0 v [])
    (htotal : n + bulk < 2 ^ 31) (k : Kernel Obj Page) (moduloMatch : ℕ) :
    (∃ v' objs, CountedLoop.run (extractOne k moduloMatch) bulk v = .ok v' ∧
      Extracted held n bulk bulk v' objs) ∨
    (n = 0 ∧ ∃ s' lost, CountedLoop.run (extractOne k moduloMatch) bulk v = .error (.out s') ∧
      lost.length + 1 = bulk ∧ s'.Holds (lost ++ held) ∧ s'.hash.linked.length = 1) := by
  rcases @CountedLoop.run_cases _ _ (extractOne k moduloMatch) v bulk
      (fun j v => ∃ objs, Extracted held n bulk j v objs) ⟨[], h⟩
      (fun j v v' hj ⟨objs, hv⟩ hv' => by
        rcases hv.step hj htotal k moduloMatch with ⟨v₂, obj, hok, hnext⟩ | ⟨-, s', herr, -⟩
        · cases hok.symm.trans hv'
          exact ⟨_, hnext⟩
        · cases herr.symm.trans hv')
    with ⟨v', hrun, objs, hv'⟩ | ⟨j, hj, v₁, e, ⟨objs, h₁⟩, herr, hrun⟩
  · exact .inl ⟨v', objs, hrun, hv'⟩
  · rcases h₁.step hj htotal k moduloMatch with ⟨v₂, obj, hok, -⟩ | ⟨hfew, s', herr', hs', hlinked⟩
    · cases hok.symm.trans herr
    · cases herr'.symm.trans herr
      have hlen := h₁.length
      have htotal := h₁.linked
      exact .inr ⟨by omega, s', objs, hrun, by omega, hs', by rw [hlinked]; omega⟩

/-! ## A benchmark -/

/-- **What a benchmark leaves** of a hash with `n` objects: as many, and as many objects that are
allocated; or the hash was empty, and all but one of the objects of a round are lost. -/
def Leaves (held : List Obj) (n bulk : ℕ) (s : Bench Obj Page) : Prop :=
  s.Holds held ∧ s.hash.linked.length = n ∨
    n = 0 ∧ ∃ lost : List Obj, lost.length + 1 = bulk ∧ s.Holds (lost ++ held) ∧
      s.hash.linked.length = 1

/-- **A round** keeps the number of linked objects and holds none, or leaves at `out`. -/
theorem round_cases {n bulk : ℕ} {v : Vars Obj Page} (h : v.bench.Holds held)
    (hn : v.bench.hash.linked.length = n) (htotal : n + bulk < 2 ^ 31) (hslab : slab.Lawful)
    (k : Kernel Obj Page) (type : TestType) (moduloMatch : ℕ) :
    (∃ v', round k slab type bulk moduloMatch v = .ok v' ∧ v'.bench.Holds held ∧
      v'.bench.hash.linked.length = n) ∨
    ∃ s', round k slab type bulk moduloMatch v = .error (.out s') ∧ Leaves held n bulk s' := by
  rw [round]
  rcases h.allocBulk hslab type bulk with ⟨s₁, objs, halloc, hlen, hobjs, h₁, hhash⟩ |
    ⟨s₁, halloc, h₁, hhash⟩
  · rw [halloc]
    obtain ⟨s₂, hadd, h₂, hlinked, hlive, hglobal⟩ := h₁.addBulk hobjs k
    rw [hlen, hhash, hn] at hlinked
    rw [hlen] at hadd
    dsimp only
    rw [hadd]
    have hfirst : 0 < bulk → ∀ x, s₂.globalObjs 0 = some x → x ∈ s₂.live := by
      intro hpos x hx
      rw [hglobal, hobjs 0 _ (List.getElem?_eq_getElem (hlen.symm ▸ hpos))] at hx
      cases hx
      rw [hlive]
      exact h₁.perm.mem_iff.mpr (List.mem_append_right _ (List.mem_append_left _
        (List.getElem_mem _)))
    have hstart : Extracted held n bulk 0 { v with bench := s₂ } [] :=
      ⟨rfl, stored_nil _, h₂, hlinked, hfirst, fun hpos => absurd hpos (Nat.lt_irrefl 0)⟩
    rcases extractBulk_cases hstart htotal k moduloMatch
      with ⟨v', objs', hrun, hv'⟩ | ⟨hzero, s', lost, hrun, hlost, hs', hone⟩
    · obtain ⟨s₃, hfree, h₃, hhash₃⟩ := hv'.holds.freeBulk hslab hv'.stored type
      rw [hv'.length] at hfree
      dsimp only
      rw [extractAndFree, hrun]
      dsimp only
      rw [hfree]
      refine .inl ⟨_, rfl, h₃, ?_⟩
      have := hv'.linked
      show s₃.hash.linked.length = n
      rw [hhash₃]
      omega
    · dsimp only
      rw [extractAndFree, hrun]
      exact .inr ⟨s', rfl, .inr ⟨hzero, lost, hlost, hs', hone⟩⟩
  · rw [halloc]
    exact .inr ⟨s₁, rfl, .inl ⟨h₁, by rw [hhash, hn]⟩⟩

/-- **Every benchmark comes to its end**, whatever the slab answers. -/
theorem benchmark_cases {n : ℕ} (h : s.Holds held) (hn : s.hash.linked.length = n)
    (htotal : n + maxBulk < 2 ^ 31) (hslab : slab.Lawful) (k : Kernel Obj Page) (loops step : ℕ)
    (data : ℤ) (type : TestType) :
    ∃ s', benchmarkSlabBulk k slab s loops step data type = .ok s' ∧
      Leaves held n (min step maxBulk) s' := by
  have hbulk : (if step > maxBulk then maxBulk else step) = min step maxBulk := by
    rw [Nat.min_def]
    split <;> split <;> omega
  have htotal' : n + min step maxBulk < 2 ^ 31 := by omega
  rw [benchmarkSlabBulk, hbulk]
  split
  · exact ⟨s, rfl, .inl ⟨h, hn⟩⟩
  generalize (if data ≤ 0 then 32768 * 2 else data.toNat) = moduloMatch
  rcases @CountedLoop.run_cases _ _ (fun _ => round k slab type (min step maxBulk) moduloMatch)
      ⟨s, none, 0⟩ loops
      (fun _ v => v.bench.Holds held ∧ v.bench.hash.linked.length = n) ⟨h, hn⟩
      (fun i v v' _ ⟨hv, hlen⟩ hv' => by
        rcases round_cases hv hlen htotal' hslab k type moduloMatch with
          ⟨v₂, hok, h₂⟩ | ⟨s', herr, -⟩
        · cases hok.symm.trans hv'
          exact h₂
        · cases herr.symm.trans hv')
    with ⟨v', hrun, hv', hlen⟩ | ⟨i, -, v, e, ⟨hv, hlen⟩, herr, hrun⟩
  · exact ⟨v'.bench, by rw [hrun], .inl ⟨hv', hlen⟩⟩
  · rcases round_cases hv hlen htotal' hslab k type moduloMatch with ⟨v₂, hok, -⟩ | ⟨s', herr', hs'⟩
    · cases hok.symm.trans herr
    · cases herr'.symm.trans herr
      exact ⟨s', by rw [hrun], hs'⟩

/-! ## The module -/

/-- The benchmarks leave what one of them does. -/
theorem exists_runBenchmarks {p : Params} {n : ℕ} (h : s.Holds []) (hn : s.hash.linked.length = n)
    (htotal : n + maxBulk < 2 ^ 31) (hslab : slab.Lawful) (hbulksz : p.bulksz ≠ 0)
    (k : Kernel Obj Page) :
    ∃ s', runBenchmarks k slab p s = .ok s' ∧ Leaves [] n (min p.bulksz.toNat maxBulk) s' := by
  rw [runBenchmarks]
  generalize p.tests = tests
  have hleaves : Leaves [] n (min p.bulksz.toNat maxBulk) s := .inl ⟨h, hn⟩
  clear h hn
  induction tests generalizing s with
  | nil => exact ⟨s, rfl, hleaves⟩
  | cons test tests ih =>
    rw [List.foldlM_cons, if_neg hbulksz]
    rcases hleaves with ⟨hs, hlen⟩ | ⟨hzero, lost, hlost, hs, hone⟩
    · obtain ⟨s', hrun, hs'⟩ := benchmark_cases hs hlen htotal hslab k
        (p.loops / p.bulksz).toNat p.bulksz.toNat test.1 test.2
      rw [hrun]
      exact ih hs'
    · obtain ⟨s', hrun, hs'⟩ := benchmark_cases hs hone (by decide) hslab k
        (p.loops / p.bulksz).toNat p.bulksz.toNat test.1 test.2
      rw [hrun]
      refine ih (.inr ⟨hzero, lost, hlost, ?_⟩)
      rcases hs' with hkept | ⟨habsurd, -⟩
      · exact hkept
      · cases habsurd

/-! ## The tests of `try_crash` -/

/-- These objects are held, and so many are linked. -/
structure Bench.Picked (s : Bench Obj Page) (objs : List Obj) (n : ℕ) : Prop where
  holds : s.Holds objs
  linked : s.hash.linked.length = n
  lt : n < 2 ^ 31

/-- With two objects an extract gives one away. -/
theorem Bench.Picked.extract {n : ℕ} (h : s.Picked objs (n + 1)) (hpos : 0 < n)
    {lastObj : Option Obj} (hlast : ∀ x, lastObj = some x → x ∈ objs) (noMatch : Bool)
    (k : Kernel Obj Page) :
    ∃ s' obj, SlabBulkTest03.extract k s lastObj noMatch = .ok (s', some obj) ∧
      s'.Picked (obj :: objs) n := by
  have hlive : ∀ x, lastObj = some x → x ∈ s.live := fun x hx =>
    h.holds.perm.mem_iff.mpr (List.mem_append_right _ (hlast x hx))
  have hlinked := h.linked
  have hlt := h.lt
  rcases h.holds.extract (hlinked ▸ hlt) hlive noMatch (k := k) with
    ⟨hfew, -⟩ | ⟨s', obj, hrun, hs', hlen, -⟩
  · omega
  · exact ⟨s', obj, hrun, hs', by omega, by omega⟩

omit [DecidableEq Page] in
/-- The objects that were taken are freed. -/
theorem Bench.Picked.free {n : ℕ} (h : s.Picked objs.reverse n) (hslab : slab.Lawful) :
    ∃ s' p, kmemCacheFreeBulk slab s objs.length (arrayOf (objs.map some)) = .ok (s', p) ∧
      s'.Picked [] n := by
  have hholds : s.Holds (objs ++ []) :=
    h.holds.of_perm (by rw [List.append_nil]; exact List.reverse_perm objs)
  obtain ⟨s', p, hfree, hs', hhash⟩ := hholds.kmemFreeBulk hslab (stored_arrayOf objs)
  exact ⟨s', p, hfree, hs', by rw [hhash, h.linked], h.lt⟩

/-- The first tests take 14 objects out of the hash and free them, if there are more, with one that
they allocate; when there is none they free `NULL`. -/
theorem tryCrashTestsLevel1_cases {n : ℕ} (h : s.Picked [] (n + 14)) (hpos : 0 < n)
    (hslab : slab.Lawful) (k : Kernel Obj Page) :
    (∃ s', runTryCrashTestsLevel1 k slab s = .ok s' ∧ s'.Picked [] n) ∨
    (∃ i live, slab.alloc i live = none) ∧
      runTryCrashTestsLevel1 k slab s = .error .badFree := by
  have hsome {x : Obj} {l : List Obj} (hx : x ∈ l) : ∀ y, some x = some y → y ∈ l := by
    rintro _ ⟨⟩
    exact hx
  have hnone : ∀ x, (none : Option Obj) = some x → x ∈ [] := fun _ hx => nomatch hx
  have hpos' (i : ℕ) : 0 < n + i := Nat.lt_add_right i hpos
  -- the objects before the allocation
  obtain ⟨s₀, x₀, hrun₀, h₀⟩ := h.extract (hpos' 13) hnone false k
  obtain ⟨s₁, x₁, hrun₁, h₁⟩ := h₀.extract (hpos' 12) (hsome (x := x₀) (by simp)) false k
  obtain ⟨s₂, x₂, hrun₂, h₂⟩ := h₁.extract (hpos' 11) (hsome (x := x₀) (by simp)) true k
  obtain ⟨s₃, x₃, hrun₃, h₃⟩ := h₂.extract (hpos' 10) (hsome (x := x₀) (by simp)) false k
  obtain ⟨s₄, x₄, hrun₄, h₄⟩ := h₃.extract (hpos' 9) (hsome (x := x₀) (by simp)) true k
  obtain ⟨h₅, hhash₅, -⟩ := h₄.holds.alloc hslab
  generalize halloc : kmemCacheAlloc slab s₄ = r at h₅ hhash₅
  obtain ⟨s₅, o₅⟩ := r
  have hp₅ : s₅.Picked (o₅.toList ++ [x₄, x₃, x₂, x₁, x₀]) (n + 9) :=
    ⟨h₅, by rw [hhash₅, h₄.linked], h₄.lt⟩
  obtain ⟨s₆, x₆, hrun₆, h₆⟩ := hp₅.extract (hpos' 8) (hsome (x := x₀) (by simp)) false k
  cases o₅ with
  | none =>
    right
    refine ⟨⟨s₄.allocs, s₄.live, ?_⟩, ?_⟩
    · unfold kmemCacheAlloc at halloc
      split at halloc
      · cases halloc
      · assumption
    · have hfree : kmemCacheFreeBulk slab s₆ 7 (arrayOf [some x₀, some x₁, some x₂, some x₃,
          some x₄, none, some x₆]) = .error .badFree := by
        refine if_neg fun hall => ?_
        exact absurd hall.1 (by simp [entries, arrayOf, List.range_succ])
      simp [runTryCrashTestsLevel1, hrun₀, hrun₁, hrun₂, hrun₃, hrun₄, halloc, hrun₆, hfree,
        bind, Except.bind]
  | some x₅ =>
    left
    have htaken : s₆.Picked [x₀, x₁, x₂, x₃, x₄, x₅, x₆].reverse (n + 8) := h₆
    obtain ⟨s₇, p₇, hfree₇, h₇⟩ := htaken.free hslab
    -- the second round
    obtain ⟨t₀, y₀, hrun₀', h₀'⟩ := h₇.extract (hpos' 7) hnone false k
    obtain ⟨t₁, y₁, hrun₁', h₁'⟩ := h₀'.extract (hpos' 6) (hsome (x := y₀) (by simp)) true k
    obtain ⟨t₂, y₂, hrun₂', h₂'⟩ := h₁'.extract (hpos' 5) (hsome (x := y₀) (by simp)) false k
    obtain ⟨t₃, y₃, hrun₃', h₃'⟩ := h₂'.extract (hpos' 4) (hsome (x := y₁) (by simp)) false k
    obtain ⟨t₄, y₄, hrun₄', h₄'⟩ := h₃'.extract (hpos' 3) (hsome (x := y₀) (by simp)) false k
    obtain ⟨t₅, y₅, hrun₅', h₅'⟩ := h₄'.extract (hpos' 2) (hsome (x := y₁) (by simp)) false k
    obtain ⟨t₆, y₆, hrun₆', h₆'⟩ := h₅'.extract (hpos' 1) (hsome (x := y₀) (by simp)) false k
    obtain ⟨t₇, y₇, hrun₇', h₇'⟩ := h₆'.extract hpos (hsome (x := y₁) (by simp)) false k
    have htaken' : t₇.Picked [y₀, y₁, y₂, y₃, y₄, y₅, y₆, y₇].reverse n := h₇'
    obtain ⟨t₈, p₈, hfree₈, h₈⟩ := htaken'.free hslab
    simp only [List.length_cons, List.length_nil, List.map_cons, List.map_nil, Nat.zero_add,
      Nat.reduceAdd] at hfree₇ hfree₈
    refine ⟨t₈, ?_, h₈⟩
    simp [runTryCrashTestsLevel1, hrun₀, hrun₁, hrun₂, hrun₃, hrun₄, halloc, hrun₆, hfree₇, hrun₀',
      hrun₁', hrun₂', hrun₃', hrun₄', hrun₅', hrun₆', hrun₇', hfree₈, bind, Except.bind, pure,
      Except.pure]

omit [DecidableEq Page] in
/-- The second tests free `NULL`. -/
theorem tryCrashTestsLevel2_eq (slab : Slab Obj) (s : Bench Obj Page) :
    runTryCrashTestsLevel2 slab s = .error .badFree := by
  have hnull : (arrayOf [] : Ptrs Obj) = fun _ => none := rfl
  have hfree : kmemCacheFreeBulk slab s 42 (arrayOf []) = .error .badFree :=
    if_neg fun hall => absurd hall.1 (by simp [entries, hnull])
  rw [runTryCrashTestsLevel2, hfree]
  rfl

/-- **With `try_crash` at least 2 the module frees `NULL`**, unless it has crashed before. -/
theorem exists_runTests_error {p : Params} (htryCrash : 2 ≤ p.tryCrash) (k : Kernel Obj Page)
    (slab : Slab Obj) (s : Bench Obj Page) : ∃ c, runTests k slab p s = .error c := by
  have hone : p.tryCrash ≥ 1 := UInt32.le_trans (by decide) htryCrash
  rw [runTests]
  simp only [if_pos hone, if_pos htryCrash]
  cases runBenchmarks k slab p s with
  | error c => exact ⟨c, rfl⟩
  | ok s₁ =>
    show ∃ c, (runTryCrashTestsLevel1 k slab s₁ >>= runTryCrashTestsLevel2 slab) = .error c
    cases runTryCrashTestsLevel1 k slab s₁ with
    | error c => exact ⟨c, rfl⟩
    | ok s₂ => exact ⟨.badFree, tryCrashTestsLevel2_eq slab s₂⟩

omit [DecidableEq Page] in
/-- A bucket is emptied. -/
theorem Bench.Holds.emptyBucket {i : ℕ} (h : s.Holds held) (hi : i < hashsz)
    (hbucket : s.hash.objhash i = objs) :
    ∃ s', SlabBulkTest03.emptyBucket i objs s = .ok s' ∧ s'.Holds held ∧
      s'.hash.objhash = Function.update s.hash.objhash i [] := by
  induction objs generalizing s with
  | nil => exact ⟨s, rfl, h, by rw [← hbucket, Function.update_eq_self]⟩
  | cons obj rest ih =>
    have hperm := Buckets.perm_cons_all_update hi hbucket
    have hlen := hperm.length_eq
    rw [List.length_cons] at hlen
    have hunlinked : Bench.Holds { s with hash := { s.hash with
        objhash := Function.update s.hash.objhash i rest
        objhashCnt := s.hash.objhashCnt - 1 } } (obj :: held) := by
      refine ⟨?_, h.nodup, ?_⟩
      · show s.hash.objhashCnt - 1 = Int32.ofNat
          (Buckets.all hashsz (Function.update s.hash.objhash i rest)).length
        rw [h.counted, State.linked, hlen, Int32.ofNat_add]
        exact Int32.add_sub_cancel _ _
      · exact (h.perm.trans (hperm.append_right held)).trans List.perm_middle.symm
    obtain ⟨s₁, hfree, h₁, hhash, -⟩ := hunlinked.free
    obtain ⟨s', hrun, hs', hobjhash⟩ := ih h₁ (by rw [hhash]; exact Function.update_self ..)
    refine ⟨s', ?_, hs', ?_⟩
    · rw [SlabBulkTest03.emptyBucket, hfree]
      exact hrun
    · rw [hobjhash, hhash]
      exact Function.update_idem ..

omit [DecidableEq Page] in
/-- Unloading the module empties the hash. -/
theorem Bench.Holds.moduleExit (h : s.Holds held) :
    ∃ s', SlabBulkTest03.moduleExit s = .ok s' ∧ s'.Holds held ∧ s'.hash.linked = [] := by
  obtain ⟨s', hrun, hs', hempty⟩ := @CountedLoop.exists_run_eq_ok _ _
    (fun i s => SlabBulkTest03.emptyBucket i (s.hash.objhash i) s) s hashsz
    (fun i (s : Bench Obj Page) => s.Holds held ∧ ∀ j < i, s.hash.objhash j = [])
    ⟨h, fun j hj => absurd hj (Nat.not_lt_zero j)⟩ fun i s hi ⟨hs, hempty⟩ => by
      obtain ⟨s', hrun, hs', hobjhash⟩ := hs.emptyBucket hi rfl
      refine ⟨s', hrun, hs', fun j hj => ?_⟩
      rw [hobjhash]
      rcases Nat.lt_succ_iff_lt_or_eq.mp hj with hlt | rfl
      · rw [Function.update_of_ne hlt.ne]
        exact hempty j hlt
      · exact Function.update_self ..
  exact ⟨s', hrun, hs', List.flatMap_eq_nil_iff.mpr fun j hj =>
    hempty j (List.mem_range.mp hj)⟩

/-- **Loading, testing and unloading the module** without the tests of `try_crash`: nothing is read,
linked or freed that must not be, whatever the slab answers, and at the end the counter of the empty
hash is 0. If the slab has handed out any object to prefill the hash, the tests keep as many and all
objects are freed; else one test may have lost all but one object of a round. -/
theorem module_frees {p : Params} (hslab : slab.Lawful) (hbulksz : p.bulksz ≠ 0)
    (hprefill : p.prefill.toNat + maxBulk < 2 ^ 31) (htryCrash : p.tryCrash = 0)
    (k : Kernel Obj Page) (page : Obj → Page) :
    ∃ s₀ s₁ s₂, prefillHash k slab (.init page) p.prefill.toNat = .ok s₀ ∧
      runTests k slab p s₀ = .ok s₁ ∧ moduleExit s₁ = .ok s₂ ∧
      s₂.hash.linked = [] ∧ s₂.hash.objhashCnt = 0 ∧
      (s₀.hash.linked ≠ [] →
        s₁.hash.linked.length = s₀.hash.linked.length ∧ s₂.live = []) ∧
      (s₂.live = [] ∨ s₂.live.length + 1 = min p.bulksz.toNat maxBulk) := by
  obtain ⟨s₀, hload, h₀, hlen₀⟩ := exists_prefillHash hslab k page p.prefill.toNat
  obtain ⟨s₁, hbench, hleaves⟩ := exists_runBenchmarks h₀ rfl (by omega) hslab hbulksz k
  have htests : runTests k slab p s₀ = .ok s₁ := by
    rw [runTests, hbench, htryCrash]
    rfl
  have hexit : ∀ lost : List Obj, s₁.Holds lost → ∃ s₂, moduleExit s₁ = .ok s₂ ∧
      s₂.hash.linked = [] ∧ s₂.hash.objhashCnt = 0 ∧ s₂.live.Perm lost := by
    intro lost h₁
    obtain ⟨s₂, hrun, h₂, hempty⟩ := h₁.moduleExit
    refine ⟨s₂, hrun, hempty, by rw [h₂.counted, hempty]; rfl, ?_⟩
    have hperm := h₂.perm
    rwa [hempty, List.nil_append] at hperm
  rcases hleaves with ⟨h₁, hlen₁⟩ | ⟨hzero, lost, hlost, h₁, -⟩
  · obtain ⟨s₂, hrun, hempty, hcnt, hlive⟩ := hexit [] h₁
    exact ⟨s₀, s₁, s₂, hload, htests, hrun, hempty, hcnt, fun _ => ⟨hlen₁, hlive.eq_nil⟩,
      .inl hlive.eq_nil⟩
  · rw [List.append_nil] at h₁
    obtain ⟨s₂, hrun, hempty, hcnt, hlive⟩ := hexit lost h₁
    exact ⟨s₀, s₁, s₂, hload, htests, hrun, hempty, hcnt,
      fun hne => absurd (List.length_eq_zero_iff.mp hzero) hne,
      .inr (by rw [hlive.length_eq, hlost])⟩

/-- A number above those in a list. -/
def above (live : List ℕ) : ℕ := live.foldr Nat.add 1

/-- The number above some objects is positive. -/
theorem above_pos (live : List ℕ) : 0 < above live := by
  induction live with
  | nil => exact Nat.one_pos
  | cons y live ih => exact ih.trans_le (Nat.le_add_left _ y)

/-- The number above some objects is above each of them. -/
theorem lt_above {live : List ℕ} {x : ℕ} (hx : x ∈ live) : x < above live := by
  induction live with
  | nil => cases hx
  | cons y live ih =>
    rcases List.mem_cons.mp hx with rfl | hx
    · exact Nat.lt_add_of_pos_right (above_pos live)
    · exact (ih hx).trans_le (Nat.le_add_left _ y)

/-- An allocator that fails at every tenth call. A bulk free puts `NULL` into the array. -/
def tenthFails : Slab ℕ where
  alloc i live := if i % 10 = 9 then none else some (above live)
  allocBulk i live nr p :=
    if i % 10 = 9 then (live, p, false)
    else (List.range' (above live) nr ++ live,
      fun j => if j < nr then some (above live + j) else p j, true)
  freeBulk live nr p := (live.diff (entries p nr), fun j => if j < nr then none else p j)

/-- The allocator hands out objects that are not allocated. -/
theorem tenthFails_lawful : tenthFails.Lawful where
  alloc i live obj hobj hmem := by
    have hsome : (if i % 10 = 9 then none else some (above live)) = some obj := hobj
    split at hsome
    · cases hsome
    · cases hsome
      exact (lt_above hmem).false
  allocBulk_true i live nr p live' p' hbulk := by
    have hnew : (if i % 10 = 9 then (live, p, false) else (List.range' (above live) nr ++ live,
        fun j => if j < nr then some (above live + j) else p j, true)) = (live', p', true) := hbulk
    split at hnew
    · cases hnew
    · cases hnew
      refine ⟨List.range' (above live) nr, List.length_range', List.nodup_range', ?_, ?_, .refl _⟩
      · intro x hx hmem
        have := (List.mem_range'_1.mp hx).1
        have := lt_above hmem
        omega
      · intro j x hj
        obtain ⟨hlt, rfl⟩ := List.getElem?_eq_some_iff.mp hj
        rw [List.length_range'] at hlt
        show (if j < nr then some (above live + j) else p j) = _
        rw [if_pos hlt, List.getElem_range', Nat.one_mul]
  allocBulk_false i live nr p live' p' hbulk := by
    have hfail : (if i % 10 = 9 then (live, p, false) else (List.range' (above live) nr ++ live,
        fun j => if j < nr then some (above live + j) else p j, true)) = (live', p', false) := hbulk
    split at hfail
    · cases hfail
      exact .refl _
    · cases hfail
  freeBulk live objs p hobjs hnodup hsub := by
    show live.Perm (objs ++ live.diff (entries p objs.length))
    rw [entries_of_stored hobjs]
    exact (List.subperm_append_diff_self_of_count_le
      (List.subperm_ext_iff.mp (List.subperm_of_subset hnodup hsub))).symm

/-- Four loops of bulks of eight, a prefill of three, and an allocator that fails. -/
theorem module_frees_numbered :
    ∃ s₀ s₁ s₂, prefillHash numbered tenthFails (.init id) 3 = .ok s₀ ∧
      runTests numbered tenthFails ⟨4, 8, 3, 0, 0⟩ s₀ = .ok s₁ ∧ moduleExit s₁ = .ok s₂ ∧
      s₂.hash.linked = [] ∧ s₂.hash.objhashCnt = 0 ∧
      (s₀.hash.linked ≠ [] → s₁.hash.linked.length = s₀.hash.linked.length ∧ s₂.live = []) ∧
      (s₂.live = [] ∨ s₂.live.length + 1 = 4) :=
  module_frees (p := ⟨4, 8, 3, 0, 0⟩) tenthFails_lawful (by decide) (by decide) rfl numbered id

end SlabBulkTest03
