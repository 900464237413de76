import Mathlib.Data.List.Basic
import Mathlib.Algebra.Group.Nat.Defs

/-! # Records that begin with their length

Little-endian numbers in bytes, and a sequence of records each of which begins with its length and
is padded to a multiple of four bytes. -/

namespace Records

/-! ## Numbers -/

/-- The `k` bytes of a number, the lowest one first. -/
def bytesOf : ℕ → ℕ → List UInt8
  | 0, _ => []
  | k + 1, n => UInt8.ofNat n :: bytesOf k (n / 256)

/-- The number in the bytes. -/
def numOf : List UInt8 → ℕ
  | [] => 0
  | b :: bytes => b.toNat + 256 * numOf bytes

/-- A number is stored in as many bytes as it is given. -/
@[simp] theorem length_bytesOf (k n : ℕ) : (bytesOf k n).length = k := by
  induction k generalizing n with
  | zero => rfl
  | succ k ih => rw [bytesOf, List.length_cons, ih]

/-- **A number that fits is read back.** -/
theorem numOf_bytesOf {k n : ℕ} (h : n < 256 ^ k) : numOf (bytesOf k n) = n := by
  induction k generalizing n with
  | zero =>
    rw [Nat.pow_zero, Nat.lt_one_iff] at h
    rw [h]
    rfl
  | succ k ih =>
    rw [Nat.pow_succ] at h
    rw [bytesOf, numOf, ih (by omega), UInt8.toNat_ofNat']
    omega

/-! ## Records -/

/-- The length with its padding. -/
def align (n : ℕ) : ℕ := (n + 3) / 4 * 4

/-- Alignment rounds up. -/
theorem le_align (n : ℕ) : n ≤ align n := by
  rw [align]
  omega

/-- A record as it stands among others. -/
def pad (record : List UInt8) : List UInt8 :=
  record ++ List.replicate (align record.length - record.length) 0

/-- A record is padded up to its alignment. -/
@[simp] theorem length_pad (record : List UInt8) : (pad record).length = align record.length := by
  have := le_align record.length
  rw [pad, List.length_append, List.length_replicate]
  omega

/-- A record that is aligned has no padding. -/
theorem pad_of_aligned {record : List UInt8} (h : align record.length = record.length) :
    pad record = record := by
  rw [pad, h, Nat.sub_self, List.replicate_zero, List.append_nil]

/-- Whether a record stands at the start of the bytes: its length, in the first `k` bytes, covers
the header of `h` bytes and is there. -/
def fits (k h : ℕ) (bytes : List UInt8) : Bool :=
  h ≤ bytes.length && h ≤ numOf (bytes.take k) && numOf (bytes.take k) ≤ bytes.length

/-- The records at the start of the bytes, without their padding. -/
def split (k h : ℕ) (bytes : List UInt8) : List (List UInt8) :=
  if _hfits : fits k h bytes ∧ 0 < h then
    bytes.take (numOf (bytes.take k)) :: split k h (bytes.drop (align (numOf (bytes.take k))))
  else []
termination_by bytes.length
decreasing_by
  have hle := le_align (numOf (bytes.take k))
  simp only [fits, Bool.and_eq_true, decide_eq_true_eq] at _hfits
  rw [List.length_drop]
  omega

/-- A record with its own length in its header. -/
structure WellFormed (k h : ℕ) (record : List UInt8) : Prop where
  pos : 0 < h
  field : k ≤ h
  header : h ≤ record.length
  length : numOf (record.take k) = record.length

variable {k h : ℕ} {record : List UInt8}

/-- The length field is that of the record at the start. -/
theorem WellFormed.take (hr : WellFormed k h record) (rest : List UInt8) :
    (pad record ++ rest).take k = record.take k := by
  rw [pad, List.append_assoc, List.take_append_of_le_length (Nat.le_trans hr.field hr.header)]

/-- A record stands at the start. -/
theorem WellFormed.fits (hr : WellFormed k h record) (rest : List UInt8) :
    fits k h (pad record ++ rest) := by
  have hle := le_align record.length
  have hheader := hr.header
  rw [Records.fits, hr.take, hr.length, List.length_append, length_pad]
  simp only [Bool.and_eq_true, decide_eq_true_eq]
  omega

/-- **The records are read back.** -/
theorem split_pad {records : List (List UInt8)} (hr : ∀ record ∈ records, WellFormed k h record)
    (hk : 0 < h) : split k h (records.flatMap pad) = records := by
  induction records with
  | nil =>
    have hfits : ¬fits k h [] := by
      simp only [fits, Bool.and_eq_true, decide_eq_true_eq, List.length_nil]
      omega
    rw [List.flatMap_nil, split, dif_neg fun hfits' => hfits hfits'.1]
  | cons record records ih =>
    have hrecord := hr record List.mem_cons_self
    rw [List.flatMap_cons, split, dif_pos ⟨hrecord.fits _, hk⟩, hrecord.take, hrecord.length]
    congr 1
    · rw [pad, List.append_assoc, List.take_left]
    · rw [← length_pad, List.drop_left]
      exact ih fun r hmem => hr r (List.mem_cons_of_mem _ hmem)

end Records
