import PrototypeKernel.Foundation.CText
import Mathlib.Order.Interval.Finset.Nat

/-! # The number of possible CPUs

`bpf_num_possible_cpus()` of `bpf_util.h` looks for one range from CPU 0 on in the list that the
kernel gives of the possible CPUs. It reads the list in pieces of 127 bytes. -/

namespace BpfUtil

open CText

/-! ## The function -/

/-- `sscanf(buff, "%u-%u", &start, &end)`, when it converts both numbers. -/
def sscanfRange (buff : List Char) : Option (UInt32 × UInt32) :=
  match scanUint buff with
  | some (start, '-' :: s) => (scanUint s).map fun r => (start, r.1)
  | _ => none

/-- `sizeof(buff)`. -/
def buffSize : ℕ := 128

/-- `bpf_num_possible_cpus()` with the content of the file, if it can be opened. An error is the
argument of `exit()`. -/
def bpfNumPossibleCpus (file : Option (List Char)) : Except ℤ UInt32 :=
  match file with
  | none => .error 1
  | some content =>
    let possibleCpus :=
      match (fgetsAll (buffSize - 1) content).findSome? sscanfRange with
      | some (start, stop) => if start = 0 then stop + 1 else 0
      | none => 0
    if possibleCpus = 0 then .error 1 else .ok possibleCpus

/-! ## The format of the file -/

/-- A member of the list. -/
inductive CpuItem where
  | single (cpu : UInt32)
  | range (first last : UInt32)
  deriving DecidableEq, Repr

/-- The first CPU of a member. -/
def CpuItem.first : CpuItem → UInt32
  | .single cpu => cpu
  | .range first _ => first

/-- The last CPU of a member. -/
def CpuItem.last : CpuItem → UInt32
  | .single cpu => cpu
  | .range _ last => last

/-- The CPUs of a member. -/
def CpuItem.cpus (i : CpuItem) : Finset ℕ := Finset.Icc i.first.toNat i.last.toNat

/-- A member as the kernel prints it. -/
def CpuItem.text : CpuItem → List Char
  | .single cpu => digits cpu.toNat
  | .range first last => digits first.toNat ++ '-' :: digits last.toNat

/-- The content of the file: the members with commas between them, and a newline. -/
def cpulist : List CpuItem → List Char
  | [] => ['\n']
  | [i] => i.text ++ ['\n']
  | i :: is => i.text ++ ',' :: cpulist is

/-- The possible CPUs. -/
def possibleCpus (items : List CpuItem) : Finset ℕ := items.foldr (fun i s => i.cpus ∪ s) ∅

/-- The CPUs of a list ascend. -/
structure Ascending (items : List CpuItem) : Prop where
  ranges : ∀ i ∈ items, i.first ≤ i.last
  sorted : items.Pairwise fun i j => i.last < j.first

/-- The function returns, and counts as many CPUs as are possible at least. -/
def NumCpusOk (items : List CpuItem) : Prop :=
  ∃ n, bpfNumPossibleCpus (some (cpulist items)) = .ok n ∧ (possibleCpus items).card ≤ n.toNat

/-! ## Where a piece begins -/

/-- The digits of the first number of a range from a position in its text on, and its last CPU. -/
def CpuItem.firstDigitsAt (i : CpuItem) (p : ℕ) : Option (List Char × UInt32) :=
  match i with
  | .single _ => none
  | .range first last =>
      if p < (digits first.toNat).length then some ((digits first.toNat).drop p, last) else none

/-- The digits of the first number of a range from a position in the file on, if the position is in
such a number. -/
def firstDigitsAt : List CpuItem → ℕ → Option (List Char × UInt32)
  | [], _ => none
  | i :: is, p =>
      if p ≤ i.text.length then i.firstDigitsAt p else firstDigitsAt is (p - (i.text.length + 1))

/-- What stands behind a member: a comma, or the newline at the end. -/
def IsSep (c : Char) (rest : List Char) : Prop := c = ',' ∨ c = '\n' ∧ rest = []

/-- What stands behind a member is no digit. -/
theorem IsSep.not_isDigit {c : Char} {rest : List Char} (h : IsSep c rest) : ¬ c.isDigit := by
  rcases h with rfl | ⟨rfl, -⟩ <;> decide

/-- What stands behind a member is no minus. -/
theorem IsSep.ne_minus {c : Char} {rest : List Char} (h : IsSep c rest) : c ≠ '-' := by
  rcases h with rfl | ⟨rfl, -⟩ <;> decide

/-- A buffer that is cut later still ends the member. -/
theorem IsSep.take {c : Char} {rest : List Char} (h : IsSep c rest) (k : ℕ) :
    IsSep c (rest.take k) := by
  rcases h with rfl | ⟨rfl, rfl⟩
  · exact .inl rfl
  · exact .inr ⟨rfl, List.take_nil⟩

/-- `%u` reads nothing at the end of a member. -/
theorem scanInt_sep {c : Char} {rest : List Char} (h : IsSep c rest) :
    scanInt (c :: rest) = none := by
  rcases h with rfl | ⟨rfl, rfl⟩
  · exact scanInt_of_ne rest rfl rfl (by decide) (by decide)
  · rfl

/-- A piece that begins in the first number of a range. -/
theorem sscanfRange_range {ds rest : List Char} {c : Char} {last : UInt32} (hne : ds ≠ [])
    (hds : ∀ d ∈ ds, d.isDigit) (hvalue : Nat.ofDigitChars 10 ds 0 < 2 ^ 32) (hsep : IsSep c rest) :
    sscanfRange (ds ++ '-' :: (digits last.toNat ++ c :: rest)) =
      some (.ofNat (Nat.ofDigitChars 10 ds 0), last) := by
  have hfirst : scanInt (ds ++ '-' :: (digits last.toNat ++ c :: rest)) = _ :=
    scanInt_digits hne hds (by simp)
  have hsecond : scanInt (digits last.toNat ++ c :: rest) = _ :=
    scanInt_digits (List.ne_nil_of_length_pos (length_digits_pos _))
      (fun d hd => isDigit_of_mem_digits hd) (by simpa using hsep.not_isDigit)
  simp only [sscanfRange, scanUint, hfirst, hsecond, Option.map_some, ofDigitChars_digits,
    uintOf_natCast hvalue, uintOf_natCast last.toNat_lt, UInt32.ofNat_toNat]

/-- A piece that begins in another number, or behind it. -/
theorem sscanfRange_digits {ds rest : List Char} {c : Char} (hds : ∀ d ∈ ds, d.isDigit)
    (hsep : IsSep c rest) : sscanfRange (ds ++ c :: rest) = none := by
  unfold sscanfRange scanUint
  by_cases hnil : ds = []
  · rw [hnil, List.nil_append, scanInt_sep hsep]
    rfl
  · rw [scanInt_digits hnil hds (by simpa using hsep.not_isDigit), Option.map_some]
    split
    · rename_i heq
      cases heq
      exact absurd rfl hsep.ne_minus
    · rfl

/-- A piece that begins with the minus of a range. -/
theorem sscanfRange_minus {rest : List Char} {c : Char} (last : UInt32) (hsep : IsSep c rest) :
    sscanfRange ('-' :: (digits last.toNat ++ c :: rest)) = none := by
  have hscan : scanInt ('-' :: (digits last.toNat ++ c :: rest)) = _ :=
    scanInt_neg_digits (List.ne_nil_of_length_pos (length_digits_pos _))
      (fun d hd => isDigit_of_mem_digits hd) (by simpa using hsep.not_isDigit)
  unfold sscanfRange scanUint
  rw [hscan, Option.map_some]
  split
  · rename_i heq
    cases heq
    exact absurd rfl hsep.ne_minus
  · rfl

/-- What is left of a member. -/
theorem CpuItem.sscanfRange_drop (i : CpuItem) {p : ℕ} (hp : p ≤ i.text.length) {rest : List Char}
    {c : Char} (hsep : IsSep c rest) :
    sscanfRange (i.text.drop p ++ c :: rest) =
      (i.firstDigitsAt p).map fun r => (.ofNat (Nat.ofDigitChars 10 r.1 0), r.2) := by
  have hdigits (n : ℕ) (k : ℕ) : ∀ d ∈ (digits n).drop k, d.isDigit :=
    fun d hd => isDigit_of_mem_digits (List.mem_of_mem_drop hd)
  cases i with
  | single cpu => exact sscanfRange_digits (hdigits cpu.toNat p) hsep
  | range first last =>
    rw [CpuItem.firstDigitsAt, CpuItem.text, List.drop_append]
    by_cases hfirst : p < (digits first.toNat).length
    · -- in the first number
      have hvalue : Nat.ofDigitChars 10 ((digits first.toNat).drop p) 0 < 2 ^ 32 := by
        have hle := ofDigitChars_drop_le (digits first.toNat) p
        rw [ofDigitChars_digits] at hle
        exact Nat.lt_of_le_of_lt hle first.toNat_lt
      have hne : (digits first.toNat).drop p ≠ [] := by
        apply List.ne_nil_of_length_pos
        rw [List.length_drop]
        omega
      rw [if_pos hfirst, Nat.sub_eq_zero_of_le (Nat.le_of_lt hfirst), List.drop_zero,
        List.append_assoc, List.cons_append,
        sscanfRange_range hne (hdigits first.toNat p) hvalue hsep]
      rfl
    · rw [if_neg hfirst, List.drop_eq_nil_of_le (Nat.not_lt.mp hfirst), List.nil_append]
      cases hk : p - (digits first.toNat).length with
      | zero => exact sscanfRange_minus last hsep
      | succ k => exact sscanfRange_digits (hdigits last.toNat k) hsep

/-- A member has at most 21 characters. -/
theorem CpuItem.length_text_le (i : CpuItem) : i.text.length ≤ 21 := by
  cases i with
  | single cpu =>
    have := length_digits_le cpu.toNat_lt
    simp only [CpuItem.text]
    omega
  | range first last =>
    have := length_digits_le first.toNat_lt
    have := length_digits_le last.toNat_lt
    simp only [CpuItem.text, List.length_append, List.length_cons]
    omega

/-- A list begins with its first member and what stands behind it. -/
theorem cpulist_cons (i : CpuItem) (is : List CpuItem) :
    ∃ c rest, cpulist (i :: is) = i.text ++ c :: rest ∧ IsSep c rest ∧
      (is = [] → rest = []) ∧ (is ≠ [] → rest = cpulist is) := by
  cases is with
  | nil => exact ⟨'\n', [], rfl, .inr ⟨rfl, rfl⟩, fun _ => rfl, fun h => absurd rfl h⟩
  | cons j is => exact ⟨',', cpulist (j :: is), rfl, .inl rfl, nofun, fun _ => rfl⟩

/-- **What `sscanf()` converts of a piece**: the range in whose first number the piece begins. -/
theorem sscanfRange_piece (items : List CpuItem) (p : ℕ) :
    sscanfRange (((cpulist items).drop p).take (buffSize - 1)) =
      (firstDigitsAt items p).map fun r => (.ofNat (Nat.ofDigitChars 10 r.1 0), r.2) := by
  induction items generalizing p with
  | nil =>
    cases p with
    | zero => rfl
    | succ p =>
      have hdrop : (cpulist []).drop (p + 1) = [] := List.drop_nil
      rw [hdrop]
      rfl
  | cons i is ih =>
    obtain ⟨c, rest, htext, hsep, hnil, hcons⟩ := cpulist_cons i is
    have hlength := i.length_text_le
    rw [firstDigitsAt, htext, List.drop_append]
    by_cases hp : p ≤ i.text.length
    · -- the piece holds the rest of the member
      have hlength' : (i.text.drop p).length ≤ buffSize - 2 := by
        rw [List.length_drop, buffSize]
        omega
      have htake : buffSize - 1 - (i.text.drop p).length =
          buffSize - 2 - (i.text.drop p).length + 1 := by
        rw [buffSize] at hlength' ⊢
        omega
      rw [if_pos hp, Nat.sub_eq_zero_of_le hp, List.drop_zero, List.take_append,
        List.take_of_length_le (by rw [buffSize] at hlength' ⊢; omega), htake, List.take_succ_cons,
        i.sscanfRange_drop hp (hsep.take _)]
    · have hsub : p - i.text.length = p - (i.text.length + 1) + 1 := by omega
      rw [if_neg hp, List.drop_eq_nil_of_le (by omega), List.nil_append, hsub,
        List.drop_succ_cons]
      by_cases his : is = []
      · rw [his, hnil his, List.drop_nil]
        rfl
      · rw [hcons his]
        exact ih _

/-- The newline is at the end of the file. -/
theorem cpulist_eq_append (items : List CpuItem) :
    ∃ line, cpulist items = line ++ ['\n'] ∧ '\n' ∉ line := by
  have htext (i : CpuItem) : '\n' ∉ i.text := by
    have hdigits (n : ℕ) : '\n' ∉ digits n := fun h => absurd (isDigit_of_mem_digits h) (by decide)
    cases i with
    | single cpu => exact hdigits cpu.toNat
    | range first last => simp [CpuItem.text, hdigits]
  induction items with
  | nil => exact ⟨[], rfl, List.not_mem_nil⟩
  | cons i is ih =>
    cases is with
    | nil => exact ⟨i.text, rfl, htext i⟩
    | cons j is =>
      obtain ⟨line, hline, hmem⟩ := ih
      refine ⟨i.text ++ ',' :: line, ?_, by simp [htext, hmem]⟩
      rw [cpulist, hline, List.append_assoc]
      · rfl
      · exact List.cons_ne_nil j is

/-- **What the loop finds**: the first piece that begins in the first number of a range. -/
theorem findSome_cpulist {items : List CpuItem} {start stop : UInt32} :
    (fgetsAll (buffSize - 1) (cpulist items)).findSome? sscanfRange = some (start, stop) ↔
      ∃ j ds, (∀ i, i < j → firstDigitsAt items ((buffSize - 1) * i) = none) ∧
        firstDigitsAt items ((buffSize - 1) * j) = some (ds, stop) ∧
        start = .ofNat (Nat.ofDigitChars 10 ds 0) := by
  obtain ⟨line, hline, hmem⟩ := cpulist_eq_append items
  have hlast : '\n' ∉ (cpulist items).dropLast := by rwa [hline, List.dropLast_concat]
  rw [findSome_fgetsAll (by decide) hlast rfl]
  simp only [sscanfRange_piece, Option.map_eq_none_iff, Option.map_eq_some_iff, Prod.mk.injEq]
  constructor
  · rintro ⟨j, ⟨⟨ds, stop'⟩, hj, hstart, rfl⟩, hbefore⟩
    exact ⟨j, ds, hbefore, hj, hstart.symm⟩
  · rintro ⟨j, ds, hbefore, hj, hstart⟩
    exact ⟨j, ⟨(ds, stop), hj, hstart.symm, rfl⟩, hbefore⟩

/-! ## When the result is large enough -/

/-- **The list is one range from CPU 0 on.** -/
def IsRange (items : List CpuItem) : Prop :=
  ∃ last, items = [.range 0 last] ∧ last.toNat + 1 < 2 ^ 32

/-- **The list is cut well.** A piece after the first one is the first to begin in the first number
of a range, what is left of this number is zero, and there are not more CPUs than the range would
have from CPU 0 on. -/
def CutWell (items : List CpuItem) : Prop :=
  ∃ j ds last, 0 < j ∧ (∀ i, i < j → firstDigitsAt items ((buffSize - 1) * i) = none) ∧
    firstDigitsAt items ((buffSize - 1) * j) = some (ds, last) ∧ Nat.ofDigitChars 10 ds 0 = 0 ∧
    (possibleCpus items).card ≤ last.toNat + 1 ∧ last.toNat + 1 < 2 ^ 32

/-- The cut digits of a first CPU are a `u32`. -/
theorem firstDigitsAt_value_lt {items : List CpuItem} {p : ℕ} {ds : List Char} {last : UInt32}
    (h : firstDigitsAt items p = some (ds, last)) : Nat.ofDigitChars 10 ds 0 < 2 ^ 32 := by
  induction items generalizing p with
  | nil => cases h
  | cons i is ih =>
    rw [firstDigitsAt] at h
    split at h
    · cases i with
      | single cpu => cases h
      | range first last' =>
        rw [CpuItem.firstDigitsAt] at h
        split at h
        · cases h
          have hle := ofDigitChars_drop_le (digits first.toNat) p
          rw [ofDigitChars_digits] at hle
          exact Nat.lt_of_le_of_lt hle first.toNat_lt
        · cases h
    · exact ih h

/-- More than a range from CPU 0 on has more CPUs than the range. -/
theorem lt_card_possibleCpus {last : UInt32} {i : CpuItem} {is : List CpuItem}
    (h : Ascending (.range 0 last :: i :: is)) :
    last.toNat + 1 < (possibleCpus (.range 0 last :: i :: is)).card := by
  have hlt : last.toNat < i.first.toNat :=
    List.rel_of_pairwise_cons h.sorted List.mem_cons_self
  have hle : i.first.toNat ≤ i.last.toNat := h.ranges i (by simp)
  have hnot : i.first.toNat ∉ Finset.Icc 0 last.toNat := by
    rw [Finset.mem_Icc]
    omega
  have hsubset : insert i.first.toNat (Finset.Icc 0 last.toNat) ⊆
      possibleCpus (.range 0 last :: i :: is) := by
    intro cpu hcpu
    rcases Finset.mem_insert.mp hcpu with rfl | hcpu
    · refine Finset.mem_union_right _ (Finset.mem_union_left _ ?_)
      exact Finset.mem_Icc.mpr ⟨Nat.le_refl _, hle⟩
    · exact Finset.mem_union_left _ hcpu
  calc last.toNat + 1 < (insert i.first.toNat (Finset.Icc 0 last.toNat)).card := by
        rw [Finset.card_insert_of_notMem hnot, Nat.card_Icc]
        omega
    _ ≤ _ := Finset.card_le_card hsubset

/-- The first piece begins with the first member. -/
theorem firstDigitsAt_zero {items : List CpuItem} {ds : List Char} {last : UInt32}
    (h : firstDigitsAt items 0 = some (ds, last)) :
    ∃ first is, items = .range first last :: is ∧ ds = digits first.toNat := by
  cases items with
  | nil => cases h
  | cons i is =>
    rw [firstDigitsAt, if_pos (Nat.zero_le _)] at h
    cases i with
    | single cpu => cases h
    | range first last' =>
      rw [CpuItem.firstDigitsAt, if_pos (length_digits_pos _), List.drop_zero] at h
      cases h
      exact ⟨first, is, rfl, rfl⟩

/-- The number of CPUs up to one of them, unless it wraps around. -/
theorem toNat_succ_of_lt {n : UInt32} (h : n.toNat + 1 < 2 ^ 32) : (n + 1).toNat = n.toNat + 1 :=
  (UInt32.toNat_add n 1).trans (Nat.mod_eq_of_lt h)

/-- The last `u32` plus one wraps to 0. -/
theorem succ_eq_zero_of_not_lt {n : UInt32} (h : ¬ n.toNat + 1 < 2 ^ 32) : n + 1 = 0 := by
  have hlt := n.toNat_lt
  have hsucc : (n + 1).toNat = (n.toNat + 1) % 2 ^ 32 := UInt32.toNat_add n 1
  rw [← UInt32.toNat_inj, hsucc, UInt32.toNat_zero]
  omega

/-- The result in terms of the first piece that begins in the first number of a range. -/
theorem numCpusOk_iff_piece (items : List CpuItem) : NumCpusOk items ↔
    ∃ j ds last, (∀ i, i < j → firstDigitsAt items ((buffSize - 1) * i) = none) ∧
      firstDigitsAt items ((buffSize - 1) * j) = some (ds, last) ∧ Nat.ofDigitChars 10 ds 0 = 0 ∧
      (possibleCpus items).card ≤ last.toNat + 1 ∧ last.toNat + 1 < 2 ^ 32 := by
  unfold NumCpusOk bpfNumPossibleCpus
  dsimp only
  cases hfind : (fgetsAll (buffSize - 1) (cpulist items)).findSome? sscanfRange with
  | none =>
    refine iff_of_false (by simp) ?_
    rintro ⟨j, ds, last, hbefore, hj, -⟩
    have hsome := findSome_cpulist.mpr ⟨j, ds, hbefore, hj, rfl⟩
    rw [hfind] at hsome
    cases hsome
  | some r =>
    obtain ⟨start, stop⟩ := r
    obtain ⟨j, ds, hbefore, hj, rfl⟩ := findSome_cpulist.mp hfind
    have hzero : UInt32.ofNat (Nat.ofDigitChars 10 ds 0) = 0 ↔ Nat.ofDigitChars 10 ds 0 = 0 := by
      rw [← UInt32.toNat_inj, UInt32.toNat_ofNat', UInt32.toNat_zero,
        Nat.mod_eq_of_lt (firstDigitsAt_value_lt hj)]
    -- no other piece is the first one
    rw [exists_first_eq (g := fun i => firstDigitsAt items ((buffSize - 1) * i)) hbefore hj]
    by_cases hds : Nat.ofDigitChars 10 ds 0 = 0
    · simp only [hzero.mpr hds, if_true]
      rw [and_iff_right hds]
      by_cases hwrap : stop.toNat + 1 < 2 ^ 32
      · have hsucc := toNat_succ_of_lt hwrap
        have hne : ¬ stop + 1 = 0 := by
          rw [← UInt32.toNat_inj, hsucc]
          exact Nat.succ_ne_zero _
        simp only [if_neg hne, Except.ok.injEq, exists_eq_left', hsucc, hwrap, and_true]
      · simp only [succ_eq_zero_of_not_lt hwrap, if_true, hwrap, and_false, iff_false]
        rintro ⟨n, hn, -⟩
        cases hn
    · simp [hzero, hds]

/-- **When the result is large enough.** For a list of ascending CPUs exactly when it is one range
from CPU 0 on, or it is cut well. -/
theorem numCpusOk_iff {items : List CpuItem} (h : Ascending items) :
    NumCpusOk items ↔ IsRange items ∨ CutWell items := by
  rw [numCpusOk_iff_piece]
  constructor
  · rintro ⟨j, ds, last, hbefore, hj, hzero, hcount, hlt⟩
    cases j with
    | zero =>
      obtain ⟨first, is, rfl, rfl⟩ := firstDigitsAt_zero hj
      rw [ofDigitChars_digits] at hzero
      obtain rfl : first = 0 := UInt32.toNat_inj.mp hzero
      cases is with
      | nil => exact .inl ⟨last, rfl, hlt⟩
      | cons i is => exact absurd hcount (Nat.not_le.mpr (lt_card_possibleCpus h))
    | succ j => exact .inr ⟨j + 1, ds, last, Nat.succ_pos j, hbefore, hj, hzero, hcount, hlt⟩
  · rintro (⟨last, rfl, hlt⟩ | ⟨j, ds, last, -, hpiece⟩)
    · refine ⟨0, digits 0, last, nofun, ?_, ofDigitChars_digits 0, ?_, hlt⟩
      · rw [Nat.mul_zero, firstDigitsAt, if_pos (Nat.zero_le _), CpuItem.firstDigitsAt,
          if_pos (length_digits_pos _), List.drop_zero]
        rfl
      · simp [possibleCpus, CpuItem.cpus, CpuItem.first, CpuItem.last]
    · exact ⟨j, ds, last, hpiece⟩

/-- Behind the end of the file there is no number to cut. -/
theorem firstDigitsAt_eq_none {items : List CpuItem} {p : ℕ} (h : (cpulist items).length ≤ p) :
    firstDigitsAt items p = none := by
  induction items generalizing p with
  | nil => rfl
  | cons i is ih =>
    obtain ⟨c, rest, htext, -, -, hcons⟩ := cpulist_cons i is
    rw [htext, List.length_append, List.length_cons] at h
    rw [firstDigitsAt, if_neg (by omega)]
    by_cases his : is = []
    · rw [his]
      rfl
    · rw [hcons his] at h
      exact ih (by omega)

/-- A list that is read in one piece is not cut. -/
theorem not_cutWell_of_length_le {items : List CpuItem}
    (h : (cpulist items).length ≤ buffSize - 1) : ¬ CutWell items := by
  rintro ⟨j, ds, last, hpos, -, hj, -⟩
  have hle : buffSize - 1 ≤ (buffSize - 1) * j := Nat.le_mul_of_pos_right _ hpos
  rw [firstDigitsAt_eq_none (Nat.le_trans h hle)] at hj
  cases hj

/-- The file `0-3`. -/
theorem numCpusOk_iff_fourCpus :
    NumCpusOk [.range 0 3] ↔ IsRange [.range 0 3] ∨ CutWell [.range 0 3] :=
  numCpusOk_iff ⟨by decide, by decide⟩

/-- **A single CPU makes the function exit, and a second range is not counted.** -/
theorem not_numCpusOk_single :
    bpfNumPossibleCpus (some (cpulist [.single 0])) = .error 1 ∧ ¬ NumCpusOk [.single 0] ∧
      bpfNumPossibleCpus (some (cpulist [.range 0 1, .range 4 5])) = .ok 2 ∧
      (possibleCpus [.range 0 1, .range 4 5]).card = 4 ∧ ¬ NumCpusOk [.range 0 1, .range 4 5] := by
  have hexit : bpfNumPossibleCpus (some (cpulist [.single 0])) = .error 1 := by decide
  have hsmall : bpfNumPossibleCpus (some (cpulist [.range 0 1, .range 4 5])) = .ok 2 := by decide
  refine ⟨hexit, ?_, hsmall, by decide, ?_⟩
  · rintro ⟨n, hn, -⟩
    rw [hexit] at hn
    cases hn
  · rintro ⟨n, hn, hle⟩
    cases hsmall.symm.trans hn
    exact absurd hle (by decide)

end BpfUtil
