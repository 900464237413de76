import PrototypeKernel.RingQueue.Settled

/-! # The watermark

An enqueue compares `mask + 1 - free_entries + n` with the watermark. With one slot that always
stays unused this is one more than the number of elements after the call, so the quota is reported
when the watermark is reached, not when it is exceeded. -/

namespace RingQueue

open KernelInt CallSequence CopyLoop

variable {α : Type*} {r r' : RingQueue α} {count n : UInt32} {behavior : Behavior}

/-- `ring_queue_set_water_mark()`. -/
def ringQueueSetWaterMark (r : RingQueue α) (count : UInt32) : RingQueue α × ℤ :=
  if count ≥ r.prod.size then (r, -einval)
  else
    -- 0 disables the watermarking
    let count := if count = 0 then r.prod.size else count
    ({ r with prod := { r.prod with watermark := count } }, 0)

/-- A call of a transfer routine, or a change of the watermark. -/
inductive Op (α : Type*) where
  | transfer (c : Call α)
  | setWaterMark (count : UInt32)

/-- Run an operation, for the value it returns. -/
def op (r : RingQueue α) : Op α → Option (RingQueue α × ℤ)
  | .transfer c => (r.call c).map fun v => (v.1, v.2.2)
  | .setWaterMark count => some (r.ringQueueSetWaterMark count)

/-! ## What is asked for -/

/-- The watermark that an operation leaves, in a ring of `count` slots; `none` when water marking is
disabled. -/
def setMark (count : UInt32) (mark : Option UInt32) : Op α → Option UInt32
  | .transfer _ => mark
  | .setWaterMark w => if w ≥ count then mark else if w = 0 then none else some w

/-- The watermark after some operations on a new ring. -/
def waterMark (count : UInt32) (ops : List (Op α)) : Option UInt32 := ops.foldl (setMark count) none

/-- The returned value reports the quota as exceeded. -/
def QuotaReported (behavior : Behavior) (ret : ℤ) : Prop :=
  match behavior with
  | .ringQueueFixed => ret = -edquot
  | .ringQueueVariable => UInt32.ofInt ret &&& ringQueueQuotExceed ≠ 0

instance (behavior : Behavior) (ret : ℤ) : Decidable (QuotaReported behavior ret) :=
  match behavior with
  | .ringQueueFixed => inferInstanceAs (Decidable (ret = -edquot))
  | .ringQueueVariable =>
    inferInstanceAs (Decidable (UInt32.ofInt ret &&& ringQueueQuotExceed ≠ 0))

/-- **The report of an enqueue from `r` to `r'` is right**: the quota is exceeded when there are
more elements than the watermark, and the low bits of a burst give the number of items moved. -/
structure QuotaExact (mark : Option UInt32) (behavior : Behavior) (r r' : RingQueue α)
    (ret : ℤ) : Prop where
  report : QuotaReported behavior ret ↔ ∃ w, mark = some w ∧ w < r'.ringQueueCount
  low : behavior = .ringQueueVariable →
    UInt32.ofInt ret &&& ~~~ringQueueQuotExceed = r'.prod.tail - r.prod.tail

/-- **When the report is right**, for an enqueue of `n` items with `used` elements in the ring:
nothing is moved, or the watermark is not reached exactly. The second part is for a ring of no
slots. -/
def QuotaFits (count : UInt32) (mark : Option UInt32) (used n : ℕ) (behavior : Behavior) : Prop :=
  let m := toMove ((count - 1).toNat - used) n behavior
  m = 0 ∨ match mark with
    | some w => used + m ≠ w.toNat
    | none => count ≠ 0 ∨ used + m = 2 ^ 32 - 1 ∧ (behavior = .ringQueueFixed ∨ m < 2 ^ 31)

/-! ## The ring with its watermark -/

/-- The ring between two operations: its size, its watermark, and its indices. -/
structure Marked (count : UInt32) (mark : Option UInt32) (r : RingQueue α) : Prop where
  settled : r.Settled
  size_eq : r.prod.size = count
  mask_eq : r.prod.mask = count - 1
  watermark_eq : r.prod.watermark = mark.getD count
  mark_lt : ∀ w, mark = some w → 0 < w.toNat ∧ w.toNat < count.toNat

/-- A new ring has no watermark. -/
theorem marked_of_create {null : α} {flags : UInt32} {pages : Bool}
    (h : ringQueueCreate null count flags pages = some r) : Marked count none r := by
  obtain ⟨hsettled, -⟩ := settled_of_create h
  obtain ⟨-, rfl⟩ := ringQueueCreate_eq_some.mp h
  exact ⟨hsettled, rfl, rfl, rfl, fun w hw => by cases hw⟩

/-- Moving the indices keeps the watermark. -/
theorem Marked.congr {mark : Option UInt32} (h : Marked count mark r) (hsettled : r'.Settled)
    (hsize : r'.prod.size = r.prod.size) (hmask : r'.prod.mask = r.prod.mask)
    (hwatermark : r'.prod.watermark = r.prod.watermark) : Marked count mark r' where
  settled := hsettled
  size_eq := hsize.trans h.size_eq
  mask_eq := hmask.trans h.mask_eq
  watermark_eq := hwatermark.trans h.watermark_eq
  mark_lt := h.mark_lt

/-- Setting the watermark sets it, or is refused. -/
theorem Marked.setWaterMark {mark : Option UInt32} (h : Marked count mark r) (w : UInt32) :
    Marked count (setMark count mark (.setWaterMark w : Op α)) (r.ringQueueSetWaterMark w).1 := by
  unfold ringQueueSetWaterMark setMark
  rw [h.size_eq]
  dsimp only
  split
  · exact h
  · rename_i hlt
    have hlt := UInt32.lt_iff_toNat_lt.mp (UInt32.not_le.mp hlt)
    have hsettled : (⟨r.flags, { r.prod with watermark := if w = 0 then count else w }, r.cons,
        r.ring⟩ : RingQueue α).Settled :=
      ⟨h.settled.prod_tail, h.settled.cons_tail, h.settled.used_le⟩
    split
    · rename_i hzero
      rw [if_pos hzero] at hsettled
      exact ⟨hsettled, h.size_eq, h.mask_eq, rfl, fun w' hw' => by cases hw'⟩
    · rename_i hpos
      rw [if_neg hpos] at hsettled
      refine ⟨hsettled, h.size_eq, h.mask_eq, rfl, fun w' hw' => ?_⟩
      cases hw'
      exact ⟨Cyclic.toNat_pos hpos, hlt⟩

/-- **Every operation returns**, and leaves the watermark that is asked for. -/
theorem Marked.op {mark : Option UInt32} (h : Marked count mark r) (o : Op α) :
    ∃ out, r.op o = some out ∧ Marked count (setMark count mark o) out.1 := by
  cases o with
  | setWaterMark w => exact ⟨_, rfl, h.setWaterMark w⟩
  | transfer c =>
    cases c with
    | enqueue variant behavior objTable n =>
      obtain ⟨k, hk, hprod, hcons, -⟩ := h.settled.enqueue objTable n behavior
      have hle := toMove_le (r.prod.mask.toNat - r.used) n.toNat behavior
      obtain ⟨hsettled, -⟩ := h.settled.used_enqueue (by omega) hprod hcons
      refine ⟨_, by rw [RingQueue.op, h.settled.call_enqueue]; rfl, h.congr hsettled ?_ ?_ ?_⟩ <;>
        rw [hprod]
    | dequeue variant behavior objTable n =>
      obtain ⟨k, hk, hprod, hcons⟩ := h.settled.dequeue objTable n behavior
      have hle := toMove_le r.used n.toNat behavior
      obtain ⟨hsettled, -⟩ := h.settled.used_dequeue (by omega) hprod hcons
      refine ⟨_, by rw [RingQueue.op, h.settled.call_dequeue]; rfl, h.congr hsettled ?_ ?_ ?_⟩ <;>
        rw [hprod]

/-- Every run of operations returns, and leaves the watermark that is asked for. -/
theorem Marked.runAll {mark : Option UInt32} (h : Marked count mark r) (ops : List (Op α)) :
    ∃ r' rets, runAll RingQueue.op r ops = some (r', rets) ∧
      Marked count (ops.foldl (setMark count) mark) r' := by
  induction ops generalizing r mark with
  | nil => exact ⟨r, [], rfl, h⟩
  | cons o os ih =>
    obtain ⟨out, hop, hmarked⟩ := h.op o
    obtain ⟨r', rets, hrun, hmarked'⟩ := ih hmarked
    exact ⟨r', out.2 :: rets, by simp [CallSequence.runAll, hop, hrun], hmarked'⟩

/-! ## The bit of the quota -/

/-- A number of items has the bit of the quota when it is no `int`. -/
theorem and_quotExceed_eq_zero_iff (k : UInt32) :
    k &&& ringQueueQuotExceed = 0 ↔ k.toNat < 2 ^ 31 := by
  have hlt := k.toNat_lt
  have hbit : (k &&& ringQueueQuotExceed).toNat = (k.toNat.testBit 31).toNat * 2 ^ 31 := by
    rw [UInt32.toNat_and]
    exact Nat.and_two_pow k.toNat 31
  rw [← UInt32.toNat_inj, hbit, Nat.testBit_eq_decide_div_mod_eq]
  simp
  omega

/-- The quota bit can be read back. -/
theorem or_quotExceed_and (k : UInt32) :
    (k ||| ringQueueQuotExceed) &&& ringQueueQuotExceed ≠ 0 := by
  have hbits : (k ||| ringQueueQuotExceed) &&& ringQueueQuotExceed = ringQueueQuotExceed := by
    rw [← UInt32.toBitVec_inj]
    ext i
    simp only [UInt32.toBitVec_and, UInt32.toBitVec_or, BitVec.getElem_and, BitVec.getElem_or]
    cases k.toBitVec[i] <;> cases ringQueueQuotExceed.toBitVec[i] <;> rfl
  rw [hbits]
  decide

/-- Without the bit of the quota a small number of items is itself. -/
theorem and_not_quotExceed {k : UInt32} (hk : k.toNat < 2 ^ 31) :
    k &&& ~~~ringQueueQuotExceed = k ∧
      (k ||| ringQueueQuotExceed) &&& ~~~ringQueueQuotExceed = k := by
  have hsplit := and_not_add_and k ringQueueQuotExceed
  rw [(and_quotExceed_eq_zero_iff k).mpr hk, UInt32.add_zero] at hsplit
  refine ⟨hsplit, Eq.trans ?_ hsplit⟩
  rw [← UInt32.toBitVec_inj]
  ext i
  simp only [UInt32.toBitVec_and, UInt32.toBitVec_or, UInt32.toBitVec_not, BitVec.getElem_and,
    BitVec.getElem_or, BitVec.getElem_not]
  cases k.toBitVec[i] <;> cases ringQueueQuotExceed.toBitVec[i] <;> rfl

/-! ## What is reported -/

/-- What the value returned for `k` items reports. -/
theorem quotaReported_enqueueRet_iff (prod : RingProd) (k freeEntries : UInt32)
    (behavior : Behavior) :
    QuotaReported behavior (enqueueRet prod k freeEntries behavior) ↔
      prod.watermark < prod.mask + 1 - freeEntries + k ∨
        behavior = .ringQueueVariable ∧ 2 ^ 31 ≤ k.toNat := by
  unfold enqueueRet QuotaReported
  by_cases hmark : prod.mask + 1 - freeEntries + k > prod.watermark
  · rw [if_pos hmark]
    refine iff_of_true ?_ (.inl hmark)
    cases behavior with
    | ringQueueFixed => rfl
    | ringQueueVariable =>
      dsimp only
      rw [ofInt_intOfU32]
      exact or_quotExceed_and k
  · rw [if_neg hmark, or_iff_right hmark]
    cases behavior with
    | ringQueueFixed =>
      exact iff_of_false (show ¬ (0 : ℤ) = -edquot by decide) fun h => by cases h.1
    | ringQueueVariable =>
      dsimp only
      rw [ofInt_intOfU32, ne_eq, and_quotExceed_eq_zero_iff, Nat.not_lt]
      exact (and_iff_right rfl).symm

/-- Without the bit of the quota a value is an `int`. -/
theorem toNat_and_not_quotExceed_lt (k : UInt32) :
    (k &&& ~~~ringQueueQuotExceed).toNat < 2 ^ 31 := by
  rw [← and_quotExceed_eq_zero_iff, ← UInt32.toBitVec_inj]
  ext i
  simp only [UInt32.toBitVec_and, UInt32.toBitVec_not, BitVec.getElem_and, BitVec.getElem_not]
  cases k.toBitVec[i] <;> cases ringQueueQuotExceed.toBitVec[i] <;> simp

/-- The low bits of the value returned for a burst give the number of items if this is an `int`. -/
theorem low_enqueueRet_iff (prod : RingProd) (k freeEntries : UInt32) :
    UInt32.ofInt (enqueueRet prod k freeEntries .ringQueueVariable) &&& ~~~ringQueueQuotExceed = k ↔
      k.toNat < 2 ^ 31 := by
  constructor
  · intro hlow
    rw [← hlow]
    exact toNat_and_not_quotExceed_lt _
  · intro hk
    unfold enqueueRet
    split
    · dsimp only
      rw [ofInt_intOfU32]
      exact (and_not_quotExceed hk).2
    · dsimp only
      rw [ofInt_intOfU32]
      exact (and_not_quotExceed hk).1

/-- What is compared with the watermark: one more than the number of elements after the call. -/
theorem Settled.quota_toNat (h : r.Settled) (k : UInt32) :
    (r.prod.mask + 1 - (r.prod.mask + r.cons.tail - r.prod.head) + k).toNat
      = (r.used + k.toNat + 1) % 2 ^ 32 := by
  have hfree := h.freeEntries
  have hle := h.used_le
  have hmask := r.prod.mask.toNat_lt
  rw [UInt32.toNat_add, UInt32.toNat_sub, UInt32.toNat_add, hfree, UInt32.toNat_one]
  omega

/-- The count of a settled ring is the number of positions in use. -/
theorem Settled.ringQueueCount_toNat (h : r.Settled) {j : ℕ}
    (hmask : r.prod.mask.toNat = 2 ^ j - 1) : r.ringQueueCount.toNat = r.used := by
  have hle := h.used_le
  have hpos := Nat.two_pow_pos j
  rw [ringQueueCount, Cyclic.toNat_and_mask hmask, h.prod_tail, h.cons_tail]
  exact Nat.mod_eq_of_lt (show r.used < 2 ^ j by omega)

/-- The mask of a created ring. -/
theorem exists_mask_of_create {null : α} {flags : UInt32} {pages : Bool}
    (h : ringQueueCreate null count flags pages = some r) :
    (∃ j, (count - 1).toNat = 2 ^ j - 1) ∧ count.toNat < 2 ^ 28 + 1 := by
  by_cases hcount : 1 ≤ count
  · have hsized := wellSized_of_create h hcount
    obtain ⟨-, rfl⟩ := ringQueueCreate_eq_some.mp h
    obtain ⟨j, -, hsize⟩ := hsized.pow
    exact ⟨⟨j, hsized.mask_eq.trans (by rw [hsize])⟩, Nat.lt_succ_of_le hsized.le⟩
  · rw [eq_zero_of_not_one_le hcount]
    exact ⟨⟨32, by decide⟩, by decide⟩

/-- The report of an enqueue of `k` items: whether one more than the number of elements is above the
watermark. -/
theorem Settled.quotaExact_iff_lt (h : r.Settled) {mark : Option UInt32} {k : UInt32}
    (hmoved : r'.prod.tail - r.prod.tail = k)
    (hcount : r'.ringQueueCount.toNat = r.used + k.toNat) :
    QuotaExact mark behavior r r'
        (enqueueRet r.prod k (r.prod.mask + r.cons.tail - r.prod.head) behavior) ↔
      (behavior = .ringQueueVariable → k.toNat < 2 ^ 31) ∧
        (r.prod.watermark.toNat < (r.used + k.toNat + 1) % 2 ^ 32 ↔
          ∃ w, mark = some w ∧ w.toNat < r.used + k.toNat) := by
  have hreport := quotaReported_enqueueRet_iff r.prod k
    (r.prod.mask + r.cons.tail - r.prod.head) behavior
  rw [UInt32.lt_iff_toNat_lt, h.quota_toNat k] at hreport
  -- the bit of the quota is not one of the number of items
  have hnotBit (hint : behavior = .ringQueueVariable → k.toNat < 2 ^ 31) :
      ¬ (behavior = .ringQueueVariable ∧ 2 ^ 31 ≤ k.toNat) := fun hbit =>
    absurd (hint hbit.1) (Nat.not_lt.mpr hbit.2)
  constructor
  · intro hexact
    have hint : behavior = .ringQueueVariable → k.toNat < 2 ^ 31 := by
      rintro rfl
      exact (low_enqueueRet_iff r.prod k _).mp ((hexact.low rfl).trans hmoved)
    have hexactReport := hexact.report
    rw [hreport, or_iff_left (hnotBit hint)] at hexactReport
    simp only [UInt32.lt_iff_toNat_lt, hcount] at hexactReport
    exact ⟨hint, hexactReport⟩
  · rintro ⟨hint, hlt⟩
    refine ⟨?_, ?_⟩
    · rw [hreport, or_iff_left (hnotBit hint)]
      simp only [UInt32.lt_iff_toNat_lt, hcount]
      exact hlt
    · rintro rfl
      rw [hmoved, low_enqueueRet_iff]
      exact hint rfl

/-- When the comparison is right, for a ring of at most 2^28 slots or none. -/
theorem Marked.quota_lt_iff {mark : Option UInt32} (h : Marked count mark r)
    (hcount : count.toNat < 2 ^ 28 + 1) {k : ℕ} (hk : 0 < k)
    (hroom : k ≤ r.prod.mask.toNat - r.used) (behavior : Behavior) :
    ((behavior = .ringQueueVariable → k < 2 ^ 31) ∧
        (r.prod.watermark.toNat < (r.used + k + 1) % 2 ^ 32 ↔
          ∃ w, mark = some w ∧ w.toNat < r.used + k)) ↔
      match mark with
      | some w => r.used + k ≠ w.toNat
      | none =>
        count ≠ 0 ∨ r.used + k = 2 ^ 32 - 1 ∧ (behavior = .ringQueueFixed ∨ k < 2 ^ 31) := by
  have hle := h.settled.used_le
  have hmask : r.prod.mask.toNat = (count.toNat + (2 ^ 32 - 1)) % 2 ^ 32 := by
    rw [h.mask_eq, UInt32.toNat_sub, UInt32.toNat_one, Nat.add_comm]
  rw [h.watermark_eq]
  cases mark with
  | none =>
    simp only [Option.getD_none, reduceCtorEq, false_and, exists_false, iff_false]
    by_cases hslots : count = 0
    · -- the watermark is 0, and only the largest number wraps to it
      rw [hslots, UInt32.toNat_zero] at hmask ⊢
      rw [or_iff_right (not_not.mpr rfl)]
      cases behavior <;> simp <;> omega
    · have hpos := Cyclic.toNat_pos hslots
      exact iff_of_true ⟨by omega, by omega⟩ (.inl hslots)
  | some w =>
    obtain ⟨hw₀, hw⟩ := h.mark_lt w rfl
    simp only [Option.getD_some, Option.some.injEq, exists_eq_left']
    omega

/-- **An enqueue, and when its report is right.** -/
theorem Marked.enqueue_report {mark : Option UInt32} (h : Marked count mark r)
    (hpow : ∃ j, (count - 1).toNat = 2 ^ j - 1) (hcount : count.toNat < 2 ^ 28 + 1)
    (variant : Variant) (behavior : Behavior) (objTable : ℕ → α) (n : UInt32) :
    ∃ r' ret, r.op (.transfer (.enqueue variant behavior objTable n)) = some (r', ret) ∧
      ((r'.prod.tail ≠ r.prod.tail → QuotaExact mark behavior r r' ret) ↔
        QuotaFits count mark r.ringQueueCount.toNat n.toNat behavior) := by
  obtain ⟨j, hj⟩ := hpow
  obtain ⟨k, hk, hprod, hcons, hret⟩ := h.settled.enqueue objTable n behavior
  have hroom := toMove_le (r.prod.mask.toNat - r.used) n.toNat behavior
  rw [← hk] at hroom
  obtain ⟨hsettled, hused⟩ := h.settled.used_enqueue hroom hprod hcons
  refine ⟨_, _, by rw [RingQueue.op, h.settled.call_enqueue]; rfl, ?_⟩
  generalize (r.ringQueueSpDoEnqueue objTable n behavior).1 = r' at hprod hcons hsettled hused ⊢
  have hmask : r.prod.mask.toNat = 2 ^ j - 1 := by rw [h.mask_eq, hj]
  have hcount₁ : r'.ringQueueCount.toNat = r.used + k.toNat := by
    rw [hsettled.ringQueueCount_toNat (by rw [hprod]; exact hmask), hused]
  have hmoved : r'.prod.tail - r.prod.tail = k := by
    rw [hprod, h.settled.prod_tail]
    show r.prod.head + k - r.prod.head = k
    rw [UInt32.add_comm, UInt32.add_sub_cancel]
  unfold QuotaFits
  dsimp only
  rw [h.settled.ringQueueCount_toNat hmask, ← h.mask_eq, ← hk]
  by_cases hzero : k = 0
  · -- nothing is moved
    refine iff_of_true (fun hne => absurd ?_ hne) (.inl (by rw [hzero]; rfl))
    rw [hprod, hzero, h.settled.prod_tail]
    exact UInt32.add_zero _
  · have hpos := Cyclic.toNat_pos hzero
    have hne : r'.prod.tail ≠ r.prod.tail := by
      intro heq
      rw [heq, UInt32.sub_self] at hmoved
      exact hzero hmoved.symm
    rw [hret hzero, imp_iff_right hne, or_iff_right hpos.ne',
      h.settled.quotaExact_iff_lt hmoved hcount₁, h.quota_lt_iff hcount hpos hroom]

/-- **When the quota is reported right**, by an enqueue after any operations on a created ring. -/
theorem quotaExact_iff {null : α} {flags : UInt32} {pages : Bool}
    (hcreate : ringQueueCreate null count flags pages = some r) (ops : List (Op α)) :
    ∃ r' rets, runAll op r ops = some (r', rets) ∧
      ∀ variant behavior objTable n, ∃ r'' ret,
        r'.op (.transfer (.enqueue variant behavior objTable n)) = some (r'', ret) ∧
          ((r''.prod.tail ≠ r'.prod.tail →
              QuotaExact (waterMark count ops) behavior r' r'' ret) ↔
            QuotaFits count (waterMark count ops) r'.ringQueueCount.toNat n.toNat behavior) := by
  obtain ⟨hpow, hcount⟩ := exists_mask_of_create hcreate
  obtain ⟨r', rets, hrun, hmarked⟩ := (marked_of_create hcreate).runAll ops
  exact ⟨r', rets, hrun, hmarked.enqueue_report hpow hcount⟩

/-- A ring of four slots with a watermark of two. -/
theorem quotaExact_iff_four :
    ∃ r' rets, runAll op fourSlots [.setWaterMark 2,
        .transfer (.enqueue .single .ringQueueFixed id 1), .setWaterMark 7] = some (r', rets) ∧
      ∀ variant behavior objTable n, ∃ r'' ret,
        r'.op (.transfer (.enqueue variant behavior objTable n)) = some (r'', ret) ∧
          ((r''.prod.tail ≠ r'.prod.tail →
              QuotaExact (some 2) behavior r' r'' ret) ↔
            QuotaFits 4 (some 2) r'.ringQueueCount.toNat n.toNat behavior) :=
  quotaExact_iff (show ringQueueCreate 0 4 0 true = some fourSlots from rfl) _

/-- **A ring filled up to its watermark reports the quota as exceeded.** -/
theorem not_quotaExact_fourSlots :
    ringQueueCreate 0 4 0 true = some fourSlots ∧
      ∃ r' rets, runAll op fourSlots [.setWaterMark 2] = some (r', rets) ∧
        ∃ r'' ret, r'.op (.transfer (.enqueue .single .ringQueueFixed id 2)) = some (r'', ret) ∧
          r''.prod.tail ≠ r'.prod.tail ∧ r''.ringQueueCount = 2 ∧ ret = -edquot ∧
            ¬ QuotaExact (waterMark 4 [(.setWaterMark 2 : Op ℕ)]) .ringQueueFixed r' r'' ret := by
  refine ⟨rfl, _, _, rfl, _, _, rfl, by decide, by decide, by decide, fun hexact => ?_⟩
  obtain ⟨w, hw, hlt⟩ := hexact.report.mp (by decide)
  cases hw
  exact absurd hlt (by decide)

end RingQueue
