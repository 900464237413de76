import Mathlib.Data.List.Basic

/-! # Character buffers

Buffers of characters and the C strings in them. A string is the list of its characters without the
NUL behind them, a buffer is the list of all of its characters, and the string in a buffer ends at
the first NUL. `strncpy()` writes a NUL only behind a string that is shorter than the bound, so what
it leaves depends on what was in the buffer before. -/

namespace CBuffer

/-- The NUL character. -/
abbrev nul : Char := '\x00'

/-- The string at the start of a buffer. -/
def cstr (buf : List Char) : List Char := buf.takeWhile (· ≠ nul)

/-- A buffer of `n` NUL characters. -/
def zeros (n : ℕ) : List Char := List.replicate n nul

/-- `strncpy(dst, src, n)`. -/
def strncpy (dst src : List Char) (n : ℕ) : List Char :=
  src.take n ++ zeros (n - src.length) ++ dst.drop n

/-- Whether `strncmp(a, b, n)` is zero. -/
def strncmpEq : ℕ → List Char → List Char → Bool
  | 0, _, _ => true
  | n + 1, a, b =>
      a.headD nul = b.headD nul && (a.headD nul = nul || strncmpEq n a.tail b.tail)

/-- `snprintf(buf, n, ..)` with a text: what it leaves in the buffer, as a string. -/
def snprintf (n : ℕ) (text : List Char) : List Char := text.take (n - 1)

/-! ## Strings in buffers -/

/-- The string of a buffer ends at the first NUL. -/
theorem cstr_cons (c : Char) (buf : List Char) :
    cstr (c :: buf) = if c = nul then [] else c :: cstr buf := by
  rw [cstr, List.takeWhile_cons]
  by_cases hc : c = nul
  · rw [if_neg (by simpa using hc), if_pos hc]
  · rw [if_pos (by simpa using hc), if_neg hc]
    rfl

/-- The string in a buffer that begins with characters other than NUL. -/
theorem cstr_append {s : List Char} (h : nul ∉ s) (buf : List Char) :
    cstr (s ++ buf) = s ++ cstr buf := by
  refine List.takeWhile_append_of_pos fun c hc => ?_
  have hne : c ≠ nul := fun heq => h (heq ▸ hc)
  simpa using hne

/-- What stands behind a NUL does not matter. -/
theorem cstr_append_of_mem {s : List Char} (h : nul ∈ s) (buf : List Char) :
    cstr (s ++ buf) = cstr s := by
  induction s with
  | nil => cases h
  | cons c s ih =>
    rw [List.cons_append, cstr_cons, cstr_cons]
    by_cases hc : c = nul
    · rw [if_pos hc, if_pos hc]
    · rw [if_neg hc, if_neg hc, ih ((List.mem_cons.mp h).resolve_left (Ne.symm hc))]

/-- A buffer of zeros holds the empty string. -/
@[simp] theorem cstr_zeros (n : ℕ) : cstr (zeros n) = [] := by
  cases n with
  | zero => rfl
  | succ n => exact cstr_cons nul (zeros n)

/-- The number of zeros is the one that was asked for. -/
@[simp] theorem length_zeros (n : ℕ) : (zeros n).length = n := List.length_replicate

/-- A text without NUL is the string before zeros. -/
theorem cstr_append_zeros {s : List Char} (h : nul ∉ s) (n : ℕ) : cstr (s ++ zeros n) = s := by
  rw [cstr_append h, cstr_zeros, List.append_nil]

/-- The string of a string with NUL characters behind it. -/
theorem cstr_append_zeros_self (s : List Char) (n : ℕ) : cstr (s ++ zeros n) = cstr s := by
  by_cases h : nul ∈ s
  · exact cstr_append_of_mem h _
  · rw [cstr_append_zeros h, ← List.append_nil s, cstr_append h]
    rfl

/-! ## Copies and comparisons -/

/-- **A string that is shorter than the bound is copied with its end.** -/
theorem cstr_strncpy (dst : List Char) {src : List Char} {n : ℕ} (h : src.length < n) :
    cstr (strncpy dst src n) = cstr src := by
  have hnul : nul ∈ src ++ zeros (n - src.length) :=
    List.mem_append_right _ (List.mem_replicate.mpr ⟨by omega, rfl⟩)
  rw [strncpy, List.take_of_length_le (by omega), cstr_append_of_mem hnul, cstr_append_zeros_self]

/-- **A copy up to the length of the string** leaves what stands behind it. -/
theorem strncpy_length (dst src : List Char) :
    strncpy dst src src.length = src ++ dst.drop src.length := by
  rw [strncpy, List.take_length, Nat.sub_self, zeros, List.replicate_zero, List.append_nil]

/-- **A comparison sees the strings up to the bound.** -/
theorem strncmpEq_iff (n : ℕ) (a b : List Char) :
    strncmpEq n a b ↔ (cstr a).take n = (cstr b).take n := by
  have hcstr (s : List Char) :
      cstr s = if s.headD nul = nul then [] else s.headD nul :: cstr s.tail := by
    cases s with
    | nil => rfl
    | cons c s => exact cstr_cons c s
  -- along the characters that are compared
  induction n generalizing a b with
  | zero => simp [strncmpEq]
  | succ n ih =>
    rw [strncmpEq, hcstr a, hcstr b]
    generalize a.headD nul = c, b.headD nul = d
    by_cases hc : c = nul
    · by_cases hd : d = nul
      · simp [hc, hd]
      · simp [hc, hd, Ne.symm hd]
    · by_cases hd : d = nul
      · simp [hc, hd]
      · simp [hc, hd, ih]

/-- The first characters of a copy. -/
theorem take_cstr_strncpy (dst src : List Char) (n : ℕ) :
    (cstr (strncpy dst src n)).take n = (cstr src).take n := by
  by_cases h : src.length < n
  · rw [cstr_strncpy dst h]
  · -- the string fills the bound
    have hlength : n - src.length = 0 := by omega
    rw [strncpy, hlength, zeros, List.replicate_zero, List.append_nil]
    by_cases hnul : nul ∈ src.take n
    · rw [cstr_append_of_mem hnul, ← List.take_append_drop n src, cstr_append_of_mem hnul,
        List.take_append_drop]
    · have htake : (src.take n).length = n := by
        rw [List.length_take]
        omega
      conv_rhs => rw [← List.take_append_drop n src]
      rw [cstr_append hnul, cstr_append hnul, List.take_left' htake, List.take_left' htake]

/-! ## Buffers that are written without a NUL -/

/-- A buffer of `n` characters that holds a string, with NUL characters only behind it. -/
structure Holds (n : ℕ) (s buf : List Char) : Prop where
  eq : buf = s ++ zeros (n - s.length)
  nul_notMem : nul ∉ s
  length_lt : s.length < n

/-- A buffer of zeros holds the empty string with its NUL. -/
theorem holds_nil {n : ℕ} (hn : 0 < n) : Holds n [] (zeros n) := ⟨rfl, nofun, hn⟩

/-- The string of a buffer is the one that it holds. -/
theorem Holds.cstr_eq {n : ℕ} {s buf : List Char} (h : Holds n s buf) : cstr buf = s := by
  rw [h.eq, cstr_append_zeros h.nul_notMem]

/-- A buffer that holds a string has a NUL. -/
theorem Holds.nul_mem {n : ℕ} {s buf : List Char} (h : Holds n s buf) : nul ∈ buf := by
  have hlt := h.length_lt
  rw [h.eq]
  exact List.mem_append_right _ (List.mem_replicate.mpr ⟨by omega, rfl⟩)

/-- What is left of a string `s` when another one is written over it without its NUL. -/
def overwrite (s arg : List Char) : List Char := arg ++ s.drop arg.length

/-- A buffer that is overwritten does not get shorter. -/
theorem length_overwrite (s arg : List Char) :
    (overwrite s arg).length = max s.length arg.length := by
  rw [overwrite, List.length_append, List.length_drop]
  omega

/-- A string is overwritten as a whole by one that is not shorter. -/
theorem overwrite_eq_iff {s arg : List Char} :
    overwrite s arg = arg ↔ s.length ≤ arg.length := by
  rw [overwrite, List.append_right_eq_self, List.drop_eq_nil_iff]

/-- What holds of the old and the new characters holds of all that are left. -/
theorem forall_mem_overwrite {P : Char → Prop} {s arg : List Char} (hs : ∀ c ∈ s, P c)
    (harg : ∀ c ∈ arg, P c) : ∀ c ∈ overwrite s arg, P c := by
  intro c hc
  rcases List.mem_append.mp hc with hc | hc
  · exact harg c hc
  · exact hs c (List.mem_of_mem_drop hc)

/-- **A copy up to the length of a string** writes it over the one in the buffer. -/
theorem Holds.strncpy {n : ℕ} {s buf arg : List Char} (h : Holds n s buf) (hnul : nul ∉ arg)
    (hlt : arg.length < n) : Holds n (overwrite s arg) (strncpy buf arg arg.length) where
  eq := by
    have hs := h.length_lt
    have hzeros : zeros (n - s.length - (arg.length - s.length)) =
        zeros (n - (overwrite s arg).length) := by
      rw [length_overwrite]
      congr 1
      omega
    rw [strncpy_length, h.eq, List.drop_append, ← hzeros, overwrite, List.append_assoc, zeros,
      zeros, List.drop_replicate]
  nul_notMem hmem := by
    rcases List.mem_append.mp hmem with hmem | hmem
    · exact hnul hmem
    · exact h.nul_notMem (List.mem_of_mem_drop hmem)
  length_lt := by
    rw [length_overwrite]
    exact Nat.max_lt.mpr ⟨h.length_lt, hlt⟩

/-- **When a buffer always shows the last string**: none is shorter than the one before it. -/
theorem foldl_overwrite_iff {s : List Char} {args : List (List Char)} :
    (∀ p, p <+: args → p.foldl overwrite s = p.getLastD s) ↔
      List.IsChain (fun s arg => s.length ≤ arg.length) (s :: args) := by
  induction args generalizing s with
  | nil => simp
  | cons arg args ih =>
    rw [List.isChain_cons_cons, ← ih]
    constructor
    · intro h
      have hfirst : overwrite s arg = arg :=
        h [arg] (List.cons_prefix_cons.mpr ⟨rfl, List.nil_prefix⟩)
      refine ⟨overwrite_eq_iff.mp hfirst, fun p hp => ?_⟩
      have hrest := h (arg :: p) (List.cons_prefix_cons.mpr ⟨rfl, hp⟩)
      rwa [List.foldl_cons, hfirst, List.getLastD_cons] at hrest
    · rintro ⟨hle, h⟩ p hp
      rcases List.prefix_cons_iff.mp hp with rfl | ⟨p', rfl, hp'⟩
      · rfl
      · rw [List.foldl_cons, overwrite_eq_iff.mpr hle, List.getLastD_cons]
        exact h p' hp'

end CBuffer
