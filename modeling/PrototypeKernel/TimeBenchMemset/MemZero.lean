import PrototypeKernel.Foundation.CopyLoop
import PrototypeKernel.Foundation.FilledRange
import PrototypeKernel.Foundation.KernelInt
import PrototypeKernel.Foundation.WhileLoop

/-! # Clearing words in rounds of four

`mem_zero_crazy_loop_unroll2()` of `time_bench_memset`: a loop that clears four words a round with a
constant `memset()`, and a switch whose cases fall through for the words that are left. The bound of
the loop is computed as an `unsigned long` and kept in an `int`. -/

namespace TimeBenchMemset

open KernelInt FilledRange

/-- `VALUE`. -/
def value : UInt64 := 0x0000000000000000

/-- `VALUE_BYTE`. -/
def valueByte : UInt8 := 0x00

/-- The eight bytes of an `unsigned long`. -/
def wordBytes (v : UInt64) : List UInt8 :=
  (List.range 8).map fun k => (v >>> UInt64.ofNat (8 * k)).toUInt8

/-- `memset(&data[i], c, n)`, for an array of `unsigned long`. -/
def memset (data : List UInt8) (i : Int32) (c : UInt8) (n : ℕ) : Except ℤ (List UInt8) :=
  write data (8 * i.toInt) (List.replicate n c)

/-- `data[i] = v`, for an array of `unsigned long`. -/
def store (data : List UInt8) (i : Int32) (v : UInt64) : Except ℤ (List UInt8) :=
  write data (8 * i.toInt) (wordBytes v)

/-- The counter of the loop, and the bytes that are cleared. -/
structure State where
  i : Int32
  data : List UInt8

/-- The body of the loop, and `i += 4`. -/
def clearFour (s : State) : Except ℤ State := do
  let data ← memset s.data s.i valueByte 32
  return ⟨s.i + 4, data⟩

/-- `case 1` of the switch. -/
def switchCase1 (i : Int32) (data : List UInt8) : Except ℤ (List UInt8) := store data i value

/-- `case 2`, which falls through. -/
def switchCase2 (i : Int32) (data : List UInt8) : Except ℤ (List UInt8) := do
  switchCase1 i (← store data (i + 1) value)

/-- `case 3`, which falls through. -/
def switchCase3 (i : Int32) (data : List UInt8) : Except ℤ (List UInt8) := do
  switchCase2 i (← store data (i + 2) value)

/-- The switch over the number of words that are left. -/
def switchRemainder (remainder : UInt32) (s : State) : Except ℤ (List UInt8) :=
  if remainder = 3 then switchCase3 s.i s.data
  else if remainder = 2 then switchCase2 s.i s.data
  else if remainder = 1 then switchCase1 s.i s.data
  else .ok s.data

/-- `int iterations = qword & ~3UL`. -/
def iterations (qword : UInt32) : Int32 := (qword.toUInt64 &&& ~~~3).toUInt32.toInt32

/-- The condition `i < iterations`. -/
def moreRounds (qword : UInt32) (s : State) : Bool := decide (s.i < iterations qword)

/-- `mem_zero_crazy_loop_unroll2()`: the bytes from `ptr` on after the call, or the place of a write
that is not inside them. -/
def memZeroCrazyLoopUnroll2 (fuel : ℕ) (ptr : List UInt8) (qword : UInt32) :
    Option (Except ℤ (List UInt8)) :=
  (WhileLoop.run (moreRounds qword) clearFour fuel ⟨0, ptr⟩).map
    fun r => r.bind (switchRemainder (qword &&& 3))

/-! ## One word and four words -/

variable {i : Int32} {j : ℕ} {data ptr : List UInt8} {qword : UInt32}

/-- The value that is stored is eight zero bytes. -/
theorem wordBytes_value : wordBytes value = List.replicate 8 0 := by decide

/-- The counter next to a counter. -/
theorem toInt_add_of_lt {k : Int32} (hi : i.toInt = j) (hk : 0 ≤ k.toInt)
    (hlt : j + k.toInt < 2 ^ 31) : (i + k).toInt = j + k.toInt := by
  rw [Int32.toInt_add, hi]
  -- the sum does not wrap
  exact Int.bmod_eq_of_le (by omega) (by omega)

/-- A word is cleared behind the words that are clear. -/
theorem store_value (hi : i.toInt = j) (h : 8 * (j + 1) ≤ data.length) :
    store data i value = .ok (fill 0 (8 * j) (8 * (j + 1)) data) := by
  rw [store, wordBytes_value]
  exact write_replicate (by omega) (by omega)

/-- A round of the loop clears the next four words. -/
theorem clearFour_fill (ptr : List UInt8) (hi : i.toInt = (4 * j : ℕ)) (hj : 4 * j + 4 < 2 ^ 31)
    (h : 32 * (j + 1) ≤ ptr.length) :
    ∃ i' : Int32, i'.toInt = (4 * (j + 1) : ℕ) ∧
      clearFour ⟨i, fill 0 0 (32 * j) ptr⟩ = .ok ⟨i', fill 0 0 (32 * (j + 1)) ptr⟩ := by
  have hnext : (i + 4).toInt = (4 * (j + 1) : ℕ) := by
    have hfour : (4 : Int32).toInt = 4 := rfl
    rw [toInt_add_of_lt hi (by decide) (by omega), hfour]
    omega
  have hwrite : memset (fill 0 0 (32 * j) ptr) i valueByte 32
      = .ok (fill 0 (32 * j) (32 * j + 32) (fill 0 0 (32 * j) ptr)) :=
    write_replicate (by omega) (by rw [length_fill]; omega)
  rw [fill_fill_next (Nat.zero_le _) (Nat.le_add_right _ _)] at hwrite
  refine ⟨i + 4, hnext, ?_⟩
  simp only [clearFour, hwrite]
  rfl

/-- **The switch clears the words that are left**, the last one first. -/
theorem switchRemainder_fill (ptr : List UInt8) {r : UInt32} (hr : r.toNat < 4) (hi : i.toInt = j)
    (hj : j + 3 < 2 ^ 31) (h : 8 * (j + r.toNat) ≤ ptr.length) :
    switchRemainder r ⟨i, fill 0 0 (8 * j) ptr⟩ = .ok (fill 0 0 (8 * (j + r.toNat)) ptr) := by
  have hone : (1 : Int32).toInt = 1 := rfl
  have htwo : (2 : Int32).toInt = 2 := rfl
  have h₁ : (i + 1).toInt = (j + 1 : ℕ) := toInt_add_of_lt hi (by decide) (by omega)
  have h₂ : (i + 2).toInt = (j + 2 : ℕ) := toInt_add_of_lt hi (by decide) (by omega)
  rcases CopyLoop.eq_of_toNat_lt_four hr with rfl | rfl | rfl | rfl
  · rfl
  · -- one word
    have hlen : 8 * (j + 1) ≤ ptr.length := h
    show store _ i value = _
    rw [store_value hi (by rw [length_fill]; exact hlen),
      fill_fill_next (Nat.zero_le _) (by omega)]
    rfl
  · have hlen : 8 * (j + 2) ≤ ptr.length := h
    show (store _ (i + 1) value).bind (store · i value) = _
    rw [store_value h₁ (by rw [length_fill]; exact hlen)]
    show store _ i value = _
    rw [store_value hi (by simp only [length_fill]; omega),
      fill_fill_previous (by omega) (by omega), fill_fill_next (Nat.zero_le _) (by omega)]
    rfl
  · have hlen : 8 * (j + 3) ≤ ptr.length := h
    show (store _ (i + 2) value).bind (fun d => (store d (i + 1) value).bind (store · i value)) = _
    rw [store_value h₂ (by rw [length_fill]; exact hlen)]
    show (store _ (i + 1) value).bind (store · i value) = _
    rw [store_value h₁ (by simp only [length_fill]; omega)]
    show store _ i value = _
    rw [store_value hi (by simp only [length_fill]; omega),
      fill_fill_previous (by omega) (by omega), fill_fill_previous (by omega) (by omega),
      fill_fill_next (Nat.zero_le _) (by omega)]
    rfl

/-! ## The whole function -/

/-- The words that a call clears: the bound of the loop is not negative only below `2 ^ 31`. -/
def clearedWords (qword : UInt32) : ℕ :=
  if qword.toNat < 2 ^ 31 then qword.toNat else qword.toNat % 4

/-- The bound of the loop as an `int`. -/
theorem iterations_eq (qword : UInt32) : (iterations qword).toInt = intOfU32 (qword &&& ~~~3) := by
  rw [iterations, UInt64.toUInt32_and, UInt32.toUInt32_toUInt64]
  rfl

/-- The bound is the largest multiple of four. -/
theorem iterations_of_lt (h : qword.toNat < 2 ^ 31) :
    (iterations qword).toInt = (4 * (qword.toNat / 4) : ℕ) := by
  have hrounds := CopyLoop.toNat_and_not_three qword
  rw [iterations_eq, intOfU32_eq (by omega), hrounds]

/-- From `2 ^ 31` on the bound is negative. -/
theorem iterations_of_le (h : 2 ^ 31 ≤ qword.toNat) : (iterations qword).toInt < 0 := by
  have hrounds := CopyLoop.toNat_and_not_three qword
  rw [iterations_eq]
  exact intOfU32_neg (by omega)

/-- The condition of the loop compares as `int`. -/
theorem moreRounds_iff {s : State} :
    moreRounds qword s = true ↔ s.i.toInt < (iterations qword).toInt := by
  rw [moreRounds, decide_eq_true_iff]
  exact Int32.lt_iff_toInt_lt

/-- After `k` of `n` rounds the counter is `4 * k`, and the first `4 * k` words are clear. -/
structure AfterRounds (ptr : List UInt8) (n k : ℕ) (s : State) : Prop where
  le : k ≤ n
  i_eq : s.i.toInt = (4 * k : ℕ)
  data_eq : s.data = fill 0 0 (32 * k) ptr

/-- The loop clears four words a round, for the `n` rounds that its bound leaves it. -/
theorem exists_run_clearFour (ptr : List UInt8) {n : ℕ} (hn : 4 * n < 2 ^ 31)
    (hlen : 32 * n ≤ ptr.length)
    (hbound : ∀ k : ℕ, k ≤ n → ((4 * k : ℕ) < (iterations qword).toInt ↔ k < n)) :
    ∃ fuel i, WhileLoop.run (moreRounds qword) clearFour fuel ⟨0, ptr⟩
      = some (.ok ⟨i, fill 0 0 (32 * n) ptr⟩) ∧ i.toInt = (4 * n : ℕ) := by
  have hstart : AfterRounds ptr n 0 ⟨0, ptr⟩ :=
    ⟨Nat.zero_le n, rfl, (fill_of_le (Nat.le_refl 0)).symm⟩
  have hround : ∀ k s, k < 0 + n → AfterRounds ptr n k s → moreRounds qword s = true ∧
      ∃ s', clearFour s = .ok s' ∧ AfterRounds ptr n (k + 1) s' := by
    rintro k ⟨i, data⟩ hk ⟨hle, hi, rfl⟩
    have hmore := (hbound k hle).mpr (by omega)
    obtain ⟨i', hi', hround⟩ := clearFour_fill ptr hi (by omega) (by omega)
    exact ⟨moreRounds_iff.mpr (hi ▸ hmore), _, hround, by omega, hi', rfl⟩
  have hdone : ∀ s, AfterRounds ptr n (0 + n) s → moreRounds qword s = false := by
    rintro ⟨i, data⟩ ⟨hle, hi, -⟩
    refine Bool.eq_false_iff.mpr fun hmore => ?_
    have hlt := (hbound _ hle).mp (hi ▸ moreRounds_iff.mp hmore)
    omega
  obtain ⟨⟨i, data⟩, hrun, -, hi, hdata⟩ := WhileLoop.exists_run_eq_ok hstart hround hdone
  rw [Nat.zero_add] at hi hdata
  subst hdata
  exact ⟨n + 1, i, hrun, hi⟩

/-- **A call clears its words and returns**, for every count that fits the buffer. -/
theorem memZero_eq (h : 8 * qword.toNat ≤ ptr.length) :
    ∃ fuel, memZeroCrazyLoopUnroll2 fuel ptr qword
      = some (.ok (fill 0 0 (8 * clearedWords qword) ptr)) := by
  have hrest := CopyLoop.toNat_and_three qword
  obtain ⟨n, hwords, hn, hbound⟩ : ∃ n, clearedWords qword = 4 * n + qword.toNat % 4 ∧
      4 * n < 2 ^ 31 ∧ ∀ k : ℕ, k ≤ n → ((4 * k : ℕ) < (iterations qword).toInt ↔ k < n) := by
    by_cases hq : qword.toNat < 2 ^ 31
    · have hmax := iterations_of_lt hq
      exact ⟨qword.toNat / 4, by rw [clearedWords, if_pos hq]; omega, by omega,
        fun k _ => by omega⟩
    · -- no round at all
      have hmax := iterations_of_le (Nat.le_of_not_lt hq)
      exact ⟨0, by rw [clearedWords, if_neg hq, Nat.mul_zero, Nat.zero_add], by decide,
        fun k _ => by omega⟩
  have hle : clearedWords qword ≤ qword.toNat := by
    rw [clearedWords]
    split <;> omega
  obtain ⟨fuel, i, hrun, hi⟩ := exists_run_clearFour ptr (by omega) (by omega) hbound
  refine ⟨fuel, ?_⟩
  rw [memZeroCrazyLoopUnroll2, hrun, Option.map_some]
  have hswitch := switchRemainder_fill ptr (r := qword &&& 3) (by omega) hi (by omega)
    (by omega)
  rw [hrest, ← hwords, ← Nat.mul_assoc] at hswitch
  exact congrArg some hswitch

/-- The call returns, with zero in the first `8 * qword` bytes and every other byte as it was. -/
def ClearsWords (ptr : List UInt8) (qword : UInt32) : Prop :=
  ∃ fuel, memZeroCrazyLoopUnroll2 fuel ptr qword
    = some (.ok (List.replicate (8 * qword.toNat) 0 ++ ptr.drop (8 * qword.toNat)))

/-- What a call returns does not depend on the fuel. -/
theorem memZero_unique {fuel fuel' : ℕ} {r r' : Except ℤ (List UInt8)}
    (h : memZeroCrazyLoopUnroll2 fuel ptr qword = some r)
    (h' : memZeroCrazyLoopUnroll2 fuel' ptr qword = some r') : r = r' := by
  obtain ⟨s, hrun, rfl⟩ := Option.map_eq_some_iff.mp h
  obtain ⟨s', hrun', rfl⟩ := Option.map_eq_some_iff.mp h'
  rw [WhileLoop.run_unique hrun hrun']

/-- The words are cleared when clearing the rest of them changes nothing. -/
theorem clearsWords_iff_fill (h : 8 * qword.toNat ≤ ptr.length) :
    ClearsWords ptr qword ↔
      fill 0 0 (8 * clearedWords qword) ptr = fill 0 0 (8 * qword.toNat) ptr := by
  obtain ⟨fuel, hrun⟩ := memZero_eq h
  rw [fill_zero_eq h]
  constructor
  · rintro ⟨fuel', hrun'⟩
    exact Except.ok.inj (memZero_unique hrun hrun')
  · intro heq
    exact ⟨fuel, heq ▸ hrun⟩

/-- **The words are cleared exactly when there are fewer than `2 ^ 31` of them**, or the words that
the call leaves out are clear already. -/
theorem clearsWords_iff (ptr : List UInt8) (qword : UInt32) (h : 8 * qword.toNat ≤ ptr.length) :
    ClearsWords ptr qword ↔ qword.toNat < 2 ^ 31 ∨
      ∀ k, 8 * (qword.toNat % 4) ≤ k → k < 8 * qword.toNat → ptr[k]? = some 0 := by
  rw [clearsWords_iff_fill h, clearedWords]
  by_cases hq : qword.toNat < 2 ^ 31
  · rw [if_pos hq]
    exact iff_of_true rfl (.inl hq)
  · have hmod := Nat.mod_le qword.toNat 4
    rw [if_neg hq, fill_zero_eq_iff (by omega) h]
    exact (or_iff_right hq).symm

/-- Five words of six are cleared. -/
theorem clearsWords_iff_five :
    ClearsWords (List.replicate 48 7) 5 ↔ (5 : UInt32).toNat < 2 ^ 31 ∨
      ∀ k, 8 * ((5 : UInt32).toNat % 4) ≤ k → k < 8 * (5 : UInt32).toNat →
        (List.replicate 48 (7 : UInt8))[k]? = some 0 :=
  clearsWords_iff (List.replicate 48 7) 5 (by decide)

/-- `2 ^ 31` words of a buffer without a zero byte are left as they are. -/
theorem not_clearsWords : ¬ ∀ (ptr : List UInt8) (qword : UInt32),
    8 * qword.toNat ≤ ptr.length → ClearsWords ptr qword := by
  intro h
  have hlen : 8 * (2147483648 : UInt32).toNat ≤ (List.replicate (2 ^ 34) (1 : UInt8)).length := by
    rw [List.length_replicate]
    decide
  have hfill := (clearsWords_iff_fill hlen).mp (h _ _ hlen)
  -- the first byte is to be 0, and is 1
  have hbyte := congrArg (fun s => s[0]?) hfill
  have hzero : 8 * clearedWords 2147483648 = 0 := by decide
  simp only [getElem?_fill, hzero] at hbyte
  rw [if_neg (by decide), if_pos (by decide), List.getElem?_replicate_of_lt (by decide)] at hbyte
  exact absurd hbyte (by decide)

end TimeBenchMemset
