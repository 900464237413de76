import PrototypeKernel.Foundation.Buckets
import PrototypeKernel.Foundation.TransitionSystem
import PrototypeKernel.Foundation.WhileLoop
import Mathlib.Data.Int.Notation
import Mathlib.Algebra.Group.Nat.Defs
import Mathlib.Order.Nat

/-! # The object hash of the bulk test

`slab_bulk_test03` keeps objects in a hash of 16 buckets and counts them. `objhash_extract()`
searches the buckets in a loop without an end, from the bucket of a page on: it relies on the
counter to say that there is an object to be found. -/

namespace SlabBulkTest03

variable {Obj Page : Type}

/-- `HASHSZ` -/
def hashsz : ℕ := 16

/-- What the two functions print. -/
inductive Line where
  /-- `%s(): Failed, NULL object` -/
  | nullObject
  /-- `Bad invarians: request too many objects` -/
  | requestTooMany
  /-- `Bad invarians: return same page` -/
  | returnSamePage
  /-- `Bad invarians: search skipped many buckets: %d` -/
  | skippedMany (skipBucket : ℕ)
  deriving DecidableEq

/-- What the functions use of the kernel: `jhash()` of a page and `virt_to_head_page()`. -/
structure Kernel (Obj Page : Type) where
  jhash : Page → UInt32
  virtToHeadPage : Obj → Page

/-- The buckets, their counter, and the field `page` of each object. -/
structure State (Obj Page : Type) where
  objhash : ℕ → List Obj
  objhashCnt : Int32
  page : Obj → Page
  lines : List Line

namespace State

/-- The hash after the module is loaded. -/
def init (page : Obj → Page) : State Obj Page := ⟨fun _ => [], 0, page, []⟩

/-- The objects that are linked in the buckets. -/
def linked (s : State Obj Page) : List Obj := Buckets.all hashsz s.objhash

/-- A line of the kernel log. -/
def print (s : State Obj Page) (line : Line) : State Obj Page :=
  { s with lines := s.lines ++ [line] }

end State

/-- The bucket of a page. -/
def Kernel.bucket (k : Kernel Obj Page) (page : Page) : ℕ := (k.jhash page).toNat % hashsz

/-- `objhash_add_one()` -/
def objhashAddOne [DecidableEq Obj] (k : Kernel Obj Page) (s : State Obj Page) (obj : Option Obj) :
    State Obj Page × ℤ :=
  match obj with
  | none => (s.print .nullObject, 0)
  | some obj =>
    let page := k.virtToHeadPage obj
    let hashIdx := k.bucket page
    ({ s with
      objhashCnt := s.objhashCnt + 1
      page := Function.update s.page obj page
      objhash := Function.update s.objhash hashIdx (obj :: s.objhash hashIdx) }, 1)

/-- The variables of the search. -/
structure Search where
  hashIdx : ℕ
  skipBucket : ℕ

/-- What the search ends with: the first object of a bucket, and the others of this bucket. -/
structure Found (Obj : Type) where
  obj : Obj
  rest : List Obj
  search : Search

/-- A round of the search. -/
def searchBucket (s : State Obj Page) (q : Search) : Except (Found Obj) Search :=
  match s.objhash q.hashIdx with
  | [] => .ok ⟨(q.hashIdx + 1) % hashsz, q.skipBucket + 1⟩
  | obj :: rest => .error ⟨obj, rest, q⟩

/-- Unlink the object that is found. -/
def unlink [DecidableEq Page] (s : State Obj Page) (lastObj : Option Obj) (noMatch : Bool)
    (f : Found Obj) : State Obj Page :=
  let s :=
    match lastObj with
    | some last => if noMatch ∧ s.page f.obj = s.page last then s.print .returnSamePage else s
    | none => s
  let s := { s with
    objhash := Function.update s.objhash f.search.hashIdx f.rest
    objhashCnt := s.objhashCnt - 1 }
  if f.search.skipBucket ≥ hashsz / 2 then s.print (.skippedMany f.search.skipBucket) else s

/-- Where the search starts. -/
def startIdx (k : Kernel Obj Page) (s : State Obj Page) (lastObj : Option Obj) (noMatch : Bool) :
    ℕ :=
  let hashIdx :=
    match lastObj with
    | none => 0
    | some last => k.bucket (s.page last)
  if noMatch then (hashIdx + 1) % hashsz else hashIdx

/-- `objhash_extract()`, unless its search visits more than `rounds` buckets. -/
def objhashExtract [DecidableEq Page] (k : Kernel Obj Page) (s : State Obj Page)
    (lastObj : Option Obj) (noMatch : Bool) (rounds : ℕ) : Option (State Obj Page × Option Obj) :=
  if s.objhashCnt < 2 then some (s.print .requestTooMany, none)
  else
    match WhileLoop.run (fun _ => true) (searchBucket s) rounds
        ⟨startIdx k s lastObj noMatch, 0⟩ with
    | some (.error f) => some (unlink s lastObj noMatch f, some f.obj)
    | _ => none

/-- A call of one of the two functions. -/
inductive Call (Obj : Type) where
  | add (obj : Option Obj)
  | extract (lastObj : Option Obj) (noMatch : Bool)

/-- Run a call; the search of an extract may visit each bucket once. -/
def call [DecidableEq Obj] [DecidableEq Page] (k : Kernel Obj Page) (s : State Obj Page) :
    Call Obj → Option (State Obj Page)
  | .add obj => some (objhashAddOne k s obj).1
  | .extract lastObj noMatch => (objhashExtract k s lastObj noMatch hashsz).map Prod.fst

/-! ## The counter -/

section Calls

variable {k : Kernel Obj Page} {s s' : State Obj Page} {lastObj : Option Obj}
  {noMatch : Bool} {obj : Obj} {rounds n : ℕ}

/-- The bucket of a page is one of the table. -/
theorem bucket_lt (k : Kernel Obj Page) (page : Page) : k.bucket page < hashsz :=
  Nat.mod_lt _ (by decide)

/-- A search starts at a bucket of the table. -/
theorem startIdx_lt (k : Kernel Obj Page) (s : State Obj Page) (lastObj : Option Obj)
    (noMatch : Bool) : startIdx k s lastObj noMatch < hashsz := by
  unfold startIdx
  dsimp only
  split
  · exact Nat.mod_lt _ (by decide)
  · split
    · decide
    · exact bucket_lt k _

/-- **The counter is the number of linked objects**, as far as an `int` goes. -/
def Counted (s : State Obj Page) : Prop := s.objhashCnt = Int32.ofNat s.linked.length

/-- The counter starts at 0. -/
theorem counted_init (page : Obj → Page) : Counted (State.init page : State Obj Page) := rfl

/-- The counter of an `int` that has not wrapped. -/
theorem Counted.toInt (h : Counted s) (hlt : s.linked.length < 2 ^ 31) :
    s.objhashCnt.toInt = s.linked.length := by
  rw [h, Int32.toInt_ofNat_of_lt hlt]

/-- An object that is added is linked. -/
theorem linked_objhashAddOne [DecidableEq Obj] (k : Kernel Obj Page) (s : State Obj Page)
    (obj : Obj) :
    (objhashAddOne k s (some obj)).1.linked.Perm (obj :: s.linked) :=
  Buckets.all_update_cons_perm (bucket_lt k _) obj

/-- The counter counts an object that is added. -/
theorem Counted.objhashAddOne [DecidableEq Obj] (h : Counted s) (k : Kernel Obj Page)
    (obj : Obj) :
    Counted (objhashAddOne k s (some obj)).1 := by
  have hcnt : (SlabBulkTest03.objhashAddOne k s (some obj)).1.objhashCnt = s.objhashCnt + 1 := rfl
  rw [Counted, hcnt, h, (linked_objhashAddOne k s obj).length_eq, List.length_cons,
    Int32.ofNat_add]
  rfl

/-! ## The search -/

/-- The object that is found is unlinked. -/
theorem unlink_eq [DecidableEq Page] (s : State Obj Page) (lastObj : Option Obj) (noMatch : Bool)
    (f : Found Obj) :
    (unlink s lastObj noMatch f).objhash =
        Function.update s.objhash f.search.hashIdx f.rest ∧
      (unlink s lastObj noMatch f).objhashCnt = s.objhashCnt - 1 := by
  unfold unlink
  dsimp only
  split <;> split <;> first | exact ⟨rfl, rfl⟩ | (split <;> exact ⟨rfl, rfl⟩)

/-- The first `j` buckets of a search are empty, and it stands before the next one. -/
structure Searched (s : State Obj Page) (start j : ℕ) (q : Search) : Prop where
  hashIdx : q.hashIdx = (start + j) % hashsz
  skipBucket : q.skipBucket = j

/-- A round at an empty bucket goes on to the next one. -/
theorem searchBucket_of_nil {start j : ℕ} {q : Search} (hq : Searched s start j q)
    (h : s.objhash ((start + j) % hashsz) = []) :
    ∃ q', searchBucket s q = .ok q' ∧ Searched s start (j + 1) q' := by
  refine ⟨⟨(q.hashIdx + 1) % hashsz, q.skipBucket + 1⟩, ?_, ?_, by rw [hq.skipBucket]⟩
  · rw [searchBucket, hq.hashIdx, h]
  · rw [hq.hashIdx, Nat.mod_add_mod, Nat.add_assoc]

/-- What the search finds. -/
structure Finds (s : State Obj Page) (f : Found Obj) : Prop where
  hashIdx : f.search.hashIdx < hashsz
  first : s.objhash f.search.hashIdx = f.obj :: f.rest
  skipBucket : f.search.skipBucket < hashsz

/-- A round at another bucket ends the search. -/
theorem searchBucket_of_ne_nil {start j : ℕ} {q : Search} (hj : j < hashsz)
    (hq : Searched s start j q) (h : s.objhash ((start + j) % hashsz) ≠ []) :
    ∃ f, searchBucket s q = .error f ∧ Finds s f := by
  rw [← hq.hashIdx] at h
  obtain ⟨obj, rest, hbucket⟩ := List.exists_cons_of_ne_nil h
  refine ⟨⟨obj, rest, q⟩, by rw [searchBucket, hbucket], ?_, hbucket, ?_⟩
  · rw [hq.hashIdx]
    exact Nat.mod_lt _ (by decide)
  · rw [hq.skipBucket]
    exact hj

/-- **The search ends**: it visits each bucket at most once and finds the first object of one. -/
theorem exists_search (hne : s.linked ≠ []) {start : ℕ} (hstart : start < hashsz) :
    ∃ f : Found Obj, WhileLoop.run (fun _ => true) (searchBucket s) hashsz ⟨start, 0⟩ =
        some (.error f) ∧ Finds s f := by
  have hex := Buckets.exists_scan hstart hne
  obtain ⟨hlt, hnonempty⟩ := Nat.find_spec hex
  have hbefore : ∀ j < Nat.find hex, s.objhash ((start + j) % hashsz) = [] := by
    intro j hj
    by_contra hne
    exact Nat.find_min hex hj ⟨Nat.lt_trans hj hlt, hne⟩
  have hround : ∀ j q, j < 0 + Nat.find hex → Searched s start j q →
      true = true ∧ ∃ q', searchBucket s q = .ok q' ∧ Searched s start (j + 1) q' := by
    intro j q hj hq
    rw [Nat.zero_add] at hj
    exact ⟨rfl, searchBucket_of_nil hq (hbefore j hj)⟩
  have hleave : ∀ q, Searched s start (0 + Nat.find hex) q →
      true = true ∧ ∃ f, searchBucket s q = .error f ∧ Finds s f := by
    intro q hq
    rw [Nat.zero_add] at hq
    exact ⟨rfl, searchBucket_of_ne_nil hlt hq hnonempty⟩
  have hfirst : Searched s start 0 ⟨start, 0⟩ := ⟨(Nat.mod_eq_of_lt hstart).symm, rfl⟩
  obtain ⟨f, hrun, hf⟩ := WhileLoop.exists_run_eq_error hfirst hround hleave
  exact ⟨f, WhileLoop.run_mono hrun hlt, hf⟩

/-- An object that is found is no longer linked, and the others are. -/
theorem Finds.linked_perm [DecidableEq Page] {f : Found Obj} (h : Finds s f)
    (lastObj : Option Obj) (noMatch : Bool) :
    s.linked.Perm (f.obj :: (unlink s lastObj noMatch f).linked) := by
  rw [State.linked, State.linked, (unlink_eq s lastObj noMatch f).1]
  exact Buckets.perm_cons_all_update h.hashIdx h.first

/-- The counter counts an object that is unlinked. -/
theorem Finds.counted [DecidableEq Page] {f : Found Obj} (h : Finds s f) (hcnt : Counted s)
    (lastObj : Option Obj) (noMatch : Bool) : Counted (unlink s lastObj noMatch f) := by
  have hlen := (h.linked_perm lastObj noMatch).length_eq
  rw [List.length_cons] at hlen
  rw [Counted, (unlink_eq s lastObj noMatch f).2, hcnt, hlen, Int32.ofNat_add]
  exact Int32.add_sub_cancel _ _

/-! ## The results of an extract -/

/-- An extract refuses when the counter is below 2. -/
theorem objhashExtract_of_lt [DecidableEq Page] (h : s.objhashCnt < 2) :
    objhashExtract k s lastObj noMatch rounds = some (s.print .requestTooMany, none) := if_pos h

/-- An extract gives an object that it finds. -/
theorem objhashExtract_of_not_lt [DecidableEq Page] (h : ¬ s.objhashCnt < 2)
    (hne : s.linked ≠ []) (k : Kernel Obj Page) (lastObj : Option Obj) (noMatch : Bool) :
    ∃ f : Found Obj, Finds s f ∧ objhashExtract k s lastObj noMatch hashsz =
      some (unlink s lastObj noMatch f, some f.obj) := by
  obtain ⟨f, hrun, hf⟩ := exists_search hne (startIdx_lt k s lastObj noMatch)
  refine ⟨f, hf, ?_⟩
  rw [objhashExtract, if_neg h, hrun]

/-- A counter of 2 or more counts an object. -/
theorem Counted.linked_ne_nil (h : Counted s) (hcnt : ¬ s.objhashCnt < 2) : s.linked ≠ [] := by
  intro hnil
  rw [h, hnil] at hcnt
  exact hcnt (by show Int32.ofNat 0 < 2; decide)

/-- **What the object hash shall do** in a state. -/
structure Works [DecidableEq Page] (k : Kernel Obj Page) (s : State Obj Page) : Prop where
  /-- The counter is the number of linked objects. -/
  counter : s.objhashCnt.toInt = s.linked.length
  /-- An extract from fewer than two objects returns `NULL` and unlinks nothing. -/
  refuses : s.linked.length < 2 → ∀ lastObj noMatch, ∃ s',
    objhashExtract k s lastObj noMatch hashsz = some (s', none) ∧ s'.objhash = s.objhash
  /-- Another extract visits each bucket at most once, and unlinks the object that it returns. -/
  extracts : 2 ≤ s.linked.length → ∀ lastObj noMatch, ∃ s' obj,
    objhashExtract k s lastObj noMatch hashsz = some (s', some obj) ∧
      s.linked.Perm (obj :: s'.linked) ∧ obj ∉ s'.linked

/-- The objects are linked once. -/
structure Inv (s : State Obj Page) : Prop where
  counted : Counted s
  nodup : s.linked.Nodup

/-- Nothing is linked after the module is loaded. -/
theorem inv_init (page : Obj → Page) : Inv (State.init page : State Obj Page) :=
  ⟨counted_init page, List.nodup_nil⟩

/-- **The object hash works as long as the counter does not wrap.** -/
theorem Inv.works [DecidableEq Page] (h : Inv s) (hlt : s.linked.length < 2 ^ 31)
    (k : Kernel Obj Page) : Works k s := by
  have hcnt := h.counted.toInt hlt
  have hlt2 : s.objhashCnt < 2 ↔ s.linked.length < 2 := by
    rw [Int32.lt_iff_toInt_lt, hcnt]
    show (s.linked.length : ℤ) < 2 ↔ _
    omega
  refine ⟨hcnt, fun hfew lastObj noMatch => ?_, fun hmany lastObj noMatch => ?_⟩
  · exact ⟨_, objhashExtract_of_lt (hlt2.mpr hfew), rfl⟩
  · have hnot : ¬ s.objhashCnt < 2 := fun hfew => Nat.not_lt.mpr hmany (hlt2.mp hfew)
    obtain ⟨f, hf, hrun⟩ := objhashExtract_of_not_lt hnot (h.counted.linked_ne_nil hnot) k lastObj
      noMatch
    have hperm := hf.linked_perm lastObj noMatch
    exact ⟨_, f.obj, hrun, hperm, (List.nodup_cons.mp (hperm.nodup_iff.mp h.nodup)).1⟩

/-! ## Every sequence of calls -/

/-- The object that is added is not in the table. -/
def AddsNew (s : State Obj Page) : Call Obj → Prop
  | .add (some obj) => obj ∉ s.linked
  | .add none | .extract .. => True

/-- The object that is added is not the one with the number 2^31. -/
def AddsFew (s : State Obj Page) : Call Obj → Prop
  | .add (some _) => s.linked.length + 1 < 2 ^ 31
  | .add none | .extract .. => True

variable [DecidableEq Obj] [DecidableEq Page]

/-- **What a call does**: it links or unlinks one object, or neither, and it counts this. -/
theorem Counted.call_cases (h : Counted s) {c : Call Obj} (hs : call k s c = some s') :
    Counted s' ∧ (s'.linked = s.linked ∨
      (∃ obj, c = .add (some obj) ∧ s'.linked.Perm (obj :: s.linked)) ∨
      ∃ obj, s.linked.Perm (obj :: s'.linked)) := by
  cases c with
  | add obj =>
    cases obj with
    | none =>
      cases hs
      exact ⟨h, .inl rfl⟩
    | some obj =>
      cases hs
      exact ⟨h.objhashAddOne k obj, .inr (.inl ⟨obj, rfl, linked_objhashAddOne k s obj⟩)⟩
  | extract lastObj noMatch =>
    obtain ⟨⟨s₁, obj⟩, hextract, rfl⟩ := Option.map_eq_some_iff.mp hs
    by_cases hcnt : s.objhashCnt < 2
    · rw [objhashExtract_of_lt hcnt] at hextract
      cases hextract
      exact ⟨h, .inl rfl⟩
    · obtain ⟨f, hf, hrun⟩ :=
        objhashExtract_of_not_lt hcnt (h.linked_ne_nil hcnt) k lastObj noMatch
      rw [hrun] at hextract
      cases hextract
      exact ⟨hf.counted h lastObj noMatch, .inr (.inr ⟨f.obj, hf.linked_perm lastObj noMatch⟩)⟩

/-- Every call keeps the objects linked once. -/
theorem Inv.call (h : Inv s) {c : Call Obj} (hnew : AddsNew s c) (hs : call k s c = some s') :
    Inv s' := by
  obtain ⟨hcounted, heq | ⟨obj, rfl, hperm⟩ | ⟨obj, hperm⟩⟩ := h.counted.call_cases hs
  · exact ⟨hcounted, heq ▸ h.nodup⟩
  · exact ⟨hcounted, hperm.nodup_iff.mpr (List.nodup_cons.mpr ⟨hnew, h.nodup⟩)⟩
  · exact ⟨hcounted, (List.nodup_cons.mp (hperm.nodup_iff.mp h.nodup)).2⟩

/-- Every call keeps the number of objects small. -/
theorem Inv.linked_length_lt (h : Inv s) (hlt : s.linked.length < 2 ^ 31) {c : Call Obj}
    (hfew : AddsFew s c) (hs : SlabBulkTest03.call k s c = some s') :
    s'.linked.length < 2 ^ 31 := by
  obtain ⟨-, heq | ⟨obj, rfl, hperm⟩ | ⟨obj, hperm⟩⟩ := h.counted.call_cases hs
  · rwa [heq]
  · rw [hperm.length_eq]
    exact hfew
  · have hlen := hperm.length_eq
    rw [List.length_cons] at hlen
    omega

/-- The invariant of every run. -/
theorem inv_of_reachable {page : Obj → Page} {ok : State Obj Page → Call Obj → Prop}
    (hok : ∀ s c, ok s c → AddsNew s c)
    (h : TransitionSystem.Reachable (SlabBulkTest03.call k) ok (.init page) s) : Inv s :=
  h.invariant (inv_init page) fun s c _ hs hc hcall => hs.call (hok s c hc) hcall

/-- **The object hash works in every run** that never links 2^31 objects; and in any run, the
counter is the number of linked objects if and only if these are fewer than 2^31. -/
theorem works_of_reachable (k : Kernel Obj Page) (page : Obj → Page) :
    (∀ s, TransitionSystem.Reachable (SlabBulkTest03.call k)
        (fun s c => AddsNew s c ∧ AddsFew s c) (.init page) s → Works k s) ∧
      ∀ s, TransitionSystem.Reachable (SlabBulkTest03.call k) AddsNew (.init page) s →
        (s.objhashCnt.toInt = s.linked.length ↔ s.linked.length < 2 ^ 31) := by
  refine ⟨fun s h => ?_, fun s h => ?_⟩
  · have hboth : Inv s ∧ s.linked.length < 2 ^ 31 :=
      h.invariant (P := fun s => Inv s ∧ s.linked.length < 2 ^ 31)
        ⟨inv_init page, Nat.two_pow_pos 31⟩ fun _ _ _ hs hok hcall =>
          ⟨hs.1.call hok.1 hcall, hs.1.linked_length_lt hs.2 hok.2 hcall⟩
    exact hboth.1.works hboth.2 k
  · have hinv := inv_of_reachable (fun _ _ hok => hok) h
    refine ⟨fun hcnt => ?_, hinv.counted.toInt⟩
    have hbound := s.objhashCnt.toInt_lt
    rw [hcnt] at hbound
    omega

end Calls

/-! ## Runs -/

/-- Objects that are their own pages. -/
def numbered : Kernel ℕ ℕ := ⟨UInt32.ofNat, id⟩

/-- Two objects in one bucket. -/
theorem works_numbered :
    ∃ s, TransitionSystem.Reachable (call numbered) (fun s c => AddsNew s c ∧ AddsFew s c)
        (.init id) s ∧ s.linked = [21, 5] ∧ Works numbered s := by
  have hnew : ∀ (s : State ℕ ℕ) n, s.linked.length < 2 → n ∉ s.linked →
      AddsNew s (.add (some n)) ∧ AddsFew s (.add (some n)) := fun s n hlen hn =>
    ⟨hn, by show s.linked.length + 1 < 2 ^ 31; omega⟩
  have hfirst : TransitionSystem.Reachable (call numbered) (fun s c => AddsNew s c ∧ AddsFew s c)
      (.init id) (objhashAddOne numbered (.init id) (some 5)).1 :=
    .single (hnew _ 5 (by decide) (by decide)) rfl
  have hreach := hfirst.tail (hnew _ 21 (by decide) (by decide)) rfl
  exact ⟨_, hreach, by decide, (works_of_reachable numbered id).1 _ hreach⟩

/-- As many objects as one likes can be linked. -/
theorem exists_linked (n : ℕ) :
    ∃ s, TransitionSystem.Reachable (call numbered) AddsNew (.init id) s ∧
      s.linked.length = n ∧ ∀ m ∈ s.linked, m < n := by
  refine TransitionSystem.exists_staged
    (P := fun n (s : State ℕ ℕ) => s.linked.length = n ∧ ∀ m ∈ s.linked, m < n)
    ⟨rfl, fun m hm => by cases hm⟩ ?_
  rintro n s - ⟨hlen, hlt⟩
  have hperm := linked_objhashAddOne numbered s n
  refine ⟨_, .single (a := .add (some n)) (fun hn => Nat.lt_irrefl n (hlt n hn)) rfl, ?_, ?_⟩
  · rw [hperm.length_eq, List.length_cons, hlen]
  · intro m hm
    rcases List.mem_cons.mp (hperm.mem_iff.mp hm) with rfl | hm
    · exact Nat.lt_succ_self m
    · exact Nat.lt_succ_of_lt (hlt m hm)

/-- **2^31 objects wrap the counter**: it is negative, and the object hash works no more. -/
theorem not_works_numbered :
    ∃ s, TransitionSystem.Reachable (call numbered) AddsNew (.init id) s ∧
      s.linked.length = 2 ^ 31 ∧ ¬ Works numbered s := by
  obtain ⟨s, hreach, hlen, -⟩ := exists_linked (2 ^ 31)
  refine ⟨s, hreach, hlen, fun hworks => ?_⟩
  have hbound := s.objhashCnt.toInt_lt
  rw [hworks.counter, hlen] at hbound
  exact absurd hbound (by decide)

end SlabBulkTest03
