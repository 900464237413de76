import Mathlib.Data.List.Basic
import Mathlib.Data.Int.Notation
import Mathlib.Algebra.Group.Int.Defs
import Mathlib.Algebra.Group.Nat.Defs

/-! # Text in C programs

Decimal numbers as the C library reads them from a string, and the pieces in which `fgets()` reads
a file. A string is the list of its characters. -/

namespace CText

/-! ## Numbers -/

/-- `isspace()`. -/
def isSpace (c : Char) : Bool := c = ' ' || ('\t' ≤ c && c ≤ '\r')

/-- What stands before the digits: whether there is a minus, and the text behind the sign. -/
def scanSign : List Char → Bool × List Char
  | '-' :: s => (true, s)
  | '+' :: s => (false, s)
  | s => (false, s)

/-- A decimal number as `strtol()` reads it: white space, a sign, and at least one digit. The result
is its value and the text behind it. -/
def scanInt (s : List Char) : Option (ℤ × List Char) :=
  let (neg, s) := scanSign (s.dropWhile isSpace)
  let digits := s.takeWhile Char.isDigit
  if digits.isEmpty then none
  else
    let n : ℤ := Nat.ofDigitChars 10 digits 0
    some (if neg then -n else n, s.dropWhile Char.isDigit)

/-- The result of `strtoul()` as an `unsigned int`. A number with too many digits is
`ULONG_MAX`. -/
def uintOf (n : ℤ) : UInt32 := if 2 ^ 64 ≤ n.natAbs then .ofNat (2 ^ 32 - 1) else .ofInt n

/-- The result of `strtol()` as an `int`. A number out of range is `LONG_MIN` or `LONG_MAX`. -/
def intOf (n : ℤ) : Int32 := .ofInt (max (-2 ^ 63) (min n (2 ^ 63 - 1)))

/-- `atoi()`. -/
def atoi (s : List Char) : Int32 := ((scanInt s).map fun r => intOf r.1).getD 0

/-- The conversion `%u` of `scanf()`. -/
def scanUint (s : List Char) : Option (UInt32 × List Char) :=
  (scanInt s).map fun r => (uintOf r.1, r.2)

/-- Whether a character is a hexadecimal digit. -/
def isHexDigit (c : Char) : Bool :=
  c.isDigit || ('a' ≤ c && c ≤ 'f') || ('A' ≤ c && c ≤ 'F')

/-- The value of a hexadecimal digit. -/
def hexDigitVal (c : Char) : ℕ := if c.isDigit then c.toNat - 48 else c.toLower.toNat - 87

/-- The conversion `%p` of `scanf()`: white space, a sign, and a hexadecimal number with or without
`0x`, or the null pointer as it is printed. -/
def scanPointer (s : List Char) : Option (UInt64 × List Char) :=
  let s := s.dropWhile isSpace
  if (s.take 5).map Char.toLower = "(nil)".toList then some (0, s.drop 5)
  else
    let (neg, s) := scanSign s
    let s := if (s.take 2).map Char.toLower = "0x".toList then s.drop 2 else s
    let digits := s.takeWhile isHexDigit
    if digits.isEmpty then none
    else
      let n : ℤ := (digits.foldl (fun v c => 16 * v + hexDigitVal c) 0 : ℕ)
      -- a number with too many digits is `ULONG_MAX`
      let addr : UInt64 :=
        if 2 ^ 64 ≤ n then .ofNat (2 ^ 64 - 1) else .ofInt (if neg then -n else n)
      some (addr, s.dropWhile isHexDigit)

/-- A decimal number without padding, as `%u` and `%d` print it. -/
def digits (n : ℕ) : List Char := Nat.toDigits 10 n

/-- A number is printed in digits. -/
theorem isDigit_of_mem_digits {n : ℕ} {c : Char} (h : c ∈ digits n) : c.isDigit :=
  Nat.isDigit_of_mem_toDigits (by decide) (by decide) h

/-- A number has a digit. -/
theorem length_digits_pos (n : ℕ) : 0 < (digits n).length := Nat.length_toDigits_pos

/-- A `u32` has at most ten digits. -/
theorem length_digits_le {n : ℕ} (h : n < 2 ^ 32) : (digits n).length ≤ 10 :=
  (Nat.length_toDigits_le_iff (by decide) (by decide)).mpr (Nat.lt_trans h (by decide))

/-- The digits of a number are read back. -/
theorem ofDigitChars_digits (n : ℕ) : Nat.ofDigitChars 10 (digits n) 0 = n :=
  Nat.ofDigitChars_ten_toDigits

/-- The last digits of a number make a smaller one. -/
theorem ofDigitChars_drop_le (l : List Char) (k : ℕ) :
    Nat.ofDigitChars 10 (l.drop k) 0 ≤ Nat.ofDigitChars 10 l 0 := by
  have hlast : Nat.ofDigitChars 10 (l.drop k) (Nat.ofDigitChars 10 (l.take k) 0) =
      10 ^ (l.drop k).length * Nat.ofDigitChars 10 (l.take k) 0 +
        Nat.ofDigitChars 10 (l.drop k) 0 := Nat.ofDigitChars_eq_ofDigitChars_zero
  calc Nat.ofDigitChars 10 (l.drop k) 0
      ≤ Nat.ofDigitChars 10 (l.drop k) (Nat.ofDigitChars 10 (l.take k) 0) := by
        rw [hlast]
        exact Nat.le_add_left ..
    _ = Nat.ofDigitChars 10 l 0 := by rw [← Nat.ofDigitChars_append, List.take_append_drop]

/-- The codes of the digits. -/
theorem isDigit_bounds {c : Char} (h : c.isDigit) : 48 ≤ c.toNat ∧ c.toNat ≤ 57 := by
  simpa [Char.isDigit, UInt32.le_iff_toNat_le] using h

/-- White space stands before the other characters. -/
theorem not_isSpace_of_lt {c : Char} (h : 32 < c.toNat) : isSpace c = false := by
  rw [isSpace, Bool.or_eq_false_iff, Bool.and_eq_false_iff]
  constructor
  · rw [decide_eq_false_iff_not]
    rintro rfl
    exact absurd h (by decide)
  · refine .inr (decide_eq_false fun hle => ?_)
    have hle' : c.toNat ≤ 13 := UInt32.le_iff_toNat_le.mp hle
    omega

/-- A digit is no white space. -/
theorem not_isSpace_of_isDigit {c : Char} (h : c.isDigit) : isSpace c = false :=
  not_isSpace_of_lt (Nat.lt_of_lt_of_le (by decide) (isDigit_bounds h).1)

/-- Before a digit there is no sign. -/
theorem scanSign_of_isDigit {c : Char} (s : List Char) (h : c.isDigit) :
    scanSign (c :: s) = (false, c :: s) := by
  unfold scanSign
  split
  · rename_i heq
    cases heq
    cases h
  · rename_i heq
    cases heq
    cases h
  · rfl

/-- Digits up to another character. -/
theorem span_digits {ds rest : List Char} (hds : ∀ c ∈ ds, c.isDigit)
    (hrest : ∀ c ∈ rest.head?, ¬ c.isDigit) :
    (ds ++ rest).takeWhile Char.isDigit = ds ∧ (ds ++ rest).dropWhile Char.isDigit = rest := by
  induction ds with
  | nil =>
    cases rest with
    | nil => exact ⟨rfl, rfl⟩
    | cons c rest =>
      have hc := hrest c rfl
      simp [hc]
  | cons c ds ih =>
    have hc := hds c List.mem_cons_self
    obtain ⟨htake, hdrop⟩ := ih fun d hd => hds d (List.mem_cons_of_mem c hd)
    simp [hc, htake, hdrop]

/-- **Digits are read as their number.** -/
theorem scanInt_digits {ds rest : List Char} (hne : ds ≠ []) (hds : ∀ c ∈ ds, c.isDigit)
    (hrest : ∀ c ∈ rest.head?, ¬ c.isDigit) :
    scanInt (ds ++ rest) = some (((Nat.ofDigitChars 10 ds 0 : ℕ) : ℤ), rest) := by
  obtain ⟨htake, hdrop⟩ := span_digits hds hrest
  cases ds with
  | nil => exact absurd rfl hne
  | cons c ds =>
    have hc := hds c List.mem_cons_self
    have hspace : (c :: (ds ++ rest)).dropWhile isSpace = c :: (ds ++ rest) := by
      rw [List.dropWhile_cons, if_neg (by simp [not_isSpace_of_isDigit hc])]
    rw [List.cons_append] at htake hdrop ⊢
    simp only [scanInt, hspace, scanSign_of_isDigit _ hc, htake, hdrop]
    rfl

/-- A minus is read with the digits behind it. -/
theorem scanInt_neg_digits {ds rest : List Char} (hne : ds ≠ []) (hds : ∀ c ∈ ds, c.isDigit)
    (hrest : ∀ c ∈ rest.head?, ¬ c.isDigit) :
    scanInt ('-' :: (ds ++ rest)) = some (-((Nat.ofDigitChars 10 ds 0 : ℕ) : ℤ), rest) := by
  obtain ⟨htake, hdrop⟩ := span_digits hds hrest
  have hspace : ('-' :: (ds ++ rest)).dropWhile isSpace = '-' :: (ds ++ rest) := rfl
  cases ds with
  | nil => exact absurd rfl hne
  | cons c ds =>
    simp only [scanInt, hspace, scanSign, htake, hdrop]
    rfl

/-- Nothing is read at a character that cannot begin a number. -/
theorem scanInt_of_ne {c : Char} (s : List Char) (hspace : isSpace c = false)
    (hdigit : c.isDigit = false) (hminus : c ≠ '-') (hplus : c ≠ '+') :
    scanInt (c :: s) = none := by
  have hdrop : (c :: s).dropWhile isSpace = c :: s := by
    rw [List.dropWhile_cons, if_neg (by simp [hspace])]
  have hsign : scanSign (c :: s) = (false, c :: s) := by
    unfold scanSign
    split
    · rename_i heq
      cases heq
      exact absurd rfl hminus
    · rename_i heq
      cases heq
      exact absurd rfl hplus
    · rfl
  simp [scanInt, hdrop, hsign, hdigit]

/-- A number that fits is read as a `u32`. -/
theorem uintOf_natCast {n : ℕ} (h : n < 2 ^ 32) : uintOf n = .ofNat n := by
  have hmod : ((n : ℤ) % 2 ^ 32).toNat = n := by omega
  rw [uintOf, if_neg (by omega), UInt32.ofInt, hmod]

/-! ## Files -/

/-- `fgets()` with room for `n` characters: what it reads, and what is left of the file. -/
def fgets : ℕ → List Char → List Char × List Char
  | 0, s => ([], s)
  | _ + 1, [] => ([], [])
  | n + 1, c :: s => if c = '\n' then ([c], s) else (c :: (fgets n s).1, (fgets n s).2)

/-- The strings of `while (fgets(buff, n + 1, fp))`, for at most `fuel` of them. -/
def fgetsLoop (n : ℕ) : ℕ → List Char → List (List Char)
  | 0, _ => []
  | _ + 1, [] => []
  | fuel + 1, c :: s => (fgets n (c :: s)).1 :: fgetsLoop n fuel (fgets n (c :: s)).2

/-- The strings of `while (fgets(buff, n + 1, fp))`: each has a character at least. -/
def fgetsAll (n : ℕ) (s : List Char) : List (List Char) := fgetsLoop n s.length s

/-- A text with one line is read in pieces of the same length. -/
theorem fgets_eq (n : ℕ) {s : List Char} (h : '\n' ∉ s.dropLast) :
    fgets n s = (s.take n, s.drop n) := by
  induction n generalizing s with
  | zero => rfl
  | succ n ih =>
    cases s with
    | nil => rfl
    | cons c s =>
      rw [fgets]
      cases s with
      | nil =>
        have hnil : fgets n [] = ([], []) := by cases n <;> rfl
        split <;> simp [hnil]
      | cons d s =>
        rw [List.dropLast_cons_cons, List.mem_cons, not_or] at h
        rw [if_neg (Ne.symm h.1), ih h.2]
        rfl

/-- Dropping at the two ends commutes. -/
theorem dropLast_drop {α : Type*} (n : ℕ) (l : List α) :
    (l.drop n).dropLast = l.dropLast.drop n := by
  rw [List.dropLast_eq_take, List.dropLast_eq_take, List.drop_take, List.length_drop,
    Nat.sub_right_comm]

/-- The first result of a sequence is the one at 0, or the first one behind it. -/
theorem exists_first_iff {α : Type*} {g : ℕ → Option α} {r : α} :
    (∃ j, g j = some r ∧ ∀ i, i < j → g i = none) ↔
      g 0 = some r ∨ g 0 = none ∧ ∃ j, g (j + 1) = some r ∧ ∀ i, i < j → g (i + 1) = none := by
  constructor
  · rintro ⟨j, hj, hbefore⟩
    cases j with
    | zero => exact .inl hj
    | succ j =>
      refine .inr ⟨hbefore 0 (Nat.zero_lt_succ j), j, hj, fun i hi => ?_⟩
      exact hbefore (i + 1) (Nat.succ_lt_succ hi)
  · rintro (hzero | ⟨hzero, j, hj, hbefore⟩)
    · exact ⟨0, hzero, nofun⟩
    · refine ⟨j + 1, hj, fun i hi => ?_⟩
      cases i with
      | zero => exact hzero
      | succ i => exact hbefore i (Nat.lt_of_succ_lt_succ hi)

/-- There is one first result of a sequence. -/
theorem exists_first_eq {α β : Type*} {g : ℕ → Option (α × β)} {j : ℕ} {a : α} {b : β}
    (hbefore : ∀ i, i < j → g i = none) (hj : g j = some (a, b)) {P : α → β → Prop} :
    (∃ j' a' b', (∀ i, i < j' → g i = none) ∧ g j' = some (a', b') ∧ P a' b') ↔ P a b := by
  constructor
  · rintro ⟨j', a', b', hbefore', hj', hP⟩
    rcases Nat.lt_trichotomy j' j with hlt | rfl | hlt
    · exact absurd ((hbefore j' hlt).symm.trans hj') (by simp)
    · cases hj.symm.trans hj'
      exact hP
    · exact absurd ((hbefore' j hlt).symm.trans hj) (by simp)
  · exact fun hP => ⟨j, a, b, hbefore, hj, hP⟩

/-- **The first piece of a line that is found.** -/
theorem findSome_fgetsAll {α : Type*} {n : ℕ} (hn : 0 < n) {s : List Char} (h : '\n' ∉ s.dropLast)
    {f : List Char → Option α} (hf : f [] = none) {r : α} :
    (fgetsAll n s).findSome? f = some r ↔
      ∃ j, f ((s.drop (n * j)).take n) = some r ∧
        ∀ i, i < j → f ((s.drop (n * i)).take n) = none := by
  have hloop (fuel : ℕ) (hfuel : s.length ≤ fuel) : (fgetsLoop n fuel s).findSome? f = some r ↔
      ∃ j, f ((s.drop (n * j)).take n) = some r ∧
        ∀ i, i < j → f ((s.drop (n * i)).take n) = none := by
    induction fuel generalizing s with
    | zero =>
      have hs : s = [] := List.eq_nil_of_length_eq_zero (Nat.le_zero.mp hfuel)
      simp [hs, fgetsLoop, hf]
    | succ fuel ih =>
      cases s with
      | nil => simp [fgetsLoop, hf]
      | cons c s =>
        have hrest : '\n' ∉ ((c :: s).drop n).dropLast := by
          rw [dropLast_drop]
          exact fun hmem => h (List.mem_of_mem_drop hmem)
        have hlength : ((c :: s).drop n).length ≤ fuel := by
          rw [List.length_drop]
          rw [List.length_cons] at hfuel ⊢
          omega
        have hshift (j : ℕ) : (c :: s).drop (n * (j + 1)) = ((c :: s).drop n).drop (n * j) := by
          rw [List.drop_drop, Nat.mul_succ, Nat.add_comm]
        rw [exists_first_iff, fgetsLoop, List.findSome?_cons, fgets_eq n h]
        dsimp only
        simp only [hshift, Nat.mul_zero, List.drop_zero]
        cases f ((c :: s).take n) with
        | some r' => simp
        | none => simpa using ih hrest hlength
  exact hloop s.length (Nat.le_refl _)

end CText
