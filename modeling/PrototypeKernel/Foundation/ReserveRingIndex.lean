import PrototypeKernel.Foundation.ReserveRing
import PrototypeKernel.Foundation.TransitionSystem
import Mathlib.Data.Nat.Basic
import Mathlib.Order.Basic

/-! # The index invariant of a reservation ring

In every run whose reserve loops stay fresh and which never publishes a non-empty batch past an
empty one that is already committed to its tail store, the four positions keep the cyclic order
`consumer.tail ≤ consumer.head ≤ producer.tail ≤ producer.head ≤ consumer.tail + capacity`. What
carries it through the interleavings is the place of every batch in flight: non-empty batches of one
side tile the positions between its tail and its head, so exactly one of them starts at the tail. -/

namespace ReserveRing

open Cyclic

variable {ι Req α : Type*} {d : Discipline Req} {single : Side → Option ι}

/-! ## Consequences of the laws -/

/-- The capacity is a `u32`. -/
theorem Discipline.Lawful.capacity_lt (hd : d.Lawful) : d.capacity < 2 ^ 32 := by
  have := hd.capacity_le
  have := hd.slots_le
  omega

/-! ## The invariant -/

/-- A batch **placed** between the tail and the head of its side. -/
structure Batch.Placed (pos : Positions) (sd : Side) (b : Batch Req α) : Prop where
  head_eq : b.head = UInt32.ofNat b.start
  bounds : b.len ≠ 0 → pos.tail sd ≤ b.start ∧ b.start + b.len.toNat ≤ pos.head sd

/-- The available positions of a batch were computed from an opposite tail `t` that was read while
the own head was at `h`, at or after the first load of the loop. -/
def Batch.Granted (d : Discipline Req) (pos : Positions) (sd : Side) (b : Batch Req α) : Prop :=
  d.grant sd b.req b.avail = .ok b.len ∧
  ∃ t h, b.start ≤ h ∧ h ≤ pos.head sd ∧ t ≤ pos.tail sd.other ∧
    h ≤ t + d.room sd ∧ t + d.room sd ≤ h + d.capacity ∧
    b.avail = UInt32.ofNat (t + d.room sd) - b.head

/-- What is known of one call from its place. -/
def Pc.Ok (d : Discipline Req) (pos : Positions) : Pc Req α → Prop
  | .loadTail sd _ _ head since =>
      since.head sd ≤ pos.head sd ∧ head = UInt32.ofNat (since.head sd)
  | .swapHead sd b since =>
      b.start = since.head sd ∧ b.head = UInt32.ofNat b.start ∧ b.Granted d pos sd
  | .copy sd b _ | .waitTail sd b => b.Placed pos sd
  | .storeTail sd b => b.Placed pos sd ∧ b.head = UInt32.ofNat (pos.tail sd)
  | _ => True

/-- What is known of the only user of side `sd`: nothing is in flight but its own batch, and its
head read is current. -/
structure Pc.Alone (pos : Positions) (sd : Side) (pc : Pc Req α) : Prop where
  busy : ∀ x n, pc.span? = some (sd, x, n) → x = pos.tail sd ∧ x + n = pos.head sd
  quiet : (∀ x n, pc.span? ≠ some (sd, x, n)) → pos.tail sd = pos.head sd
  current : ∀ since, pc.since? = some (sd, since) → since.head sd = pos.head sd

/-- **The index invariant** of a reservation ring. -/
structure IndexInv (d : Discipline Req) (single : Side → Option ι) (s : State ι Req α) : Prop where
  head_eq : ∀ sd, s.mem.head sd = UInt32.ofNat (s.pos.head sd)
  tail_eq : ∀ sd, s.mem.tail sd = UInt32.ofNat (s.pos.tail sd)
  tail_le : ∀ sd, s.pos.tail sd ≤ s.pos.head sd
  head_le : ∀ sd, s.pos.head sd ≤ s.pos.tail sd.other + d.room sd
  calls : ∀ i, (s.pc i).Ok d s.pos
  disjoint : ∀ i j sd x n y m, i ≠ j → (s.pc i).span? = some (sd, x, n) →
    (s.pc j).span? = some (sd, y, m) → 0 < n → 0 < m → x + n ≤ y ∨ y + m ≤ x
  covered : ∀ sd p, s.pos.tail sd ≤ p → p < s.pos.head sd →
    ∃ i x n, (s.pc i).span? = some (sd, x, n) ∧ x ≤ p ∧ p < x + n
  owned : ∀ sd i, single sd = some i → ∀ j, (s.pc j).side? = some sd → j = i
  alone : ∀ sd i, single sd = some i → (s.pc i).Alone s.pos sd

/-- The four positions **in order**. -/
structure Positions.Ordered (capacity : ℕ) (pos : Positions) : Prop where
  cTail_le : pos.tail .consumer ≤ pos.head .consumer
  cHead_le : pos.head .consumer ≤ pos.tail .producer
  pTail_le : pos.tail .producer ≤ pos.head .producer
  pHead_le : pos.head .producer ≤ pos.tail .consumer + capacity

/-- The invariant keeps the positions in their order. -/
theorem IndexInv.ordered {s : State ι Req α} (hs : IndexInv d single s) :
    s.pos.Ordered d.capacity :=
  ⟨hs.tail_le _, hs.head_le .consumer, hs.tail_le _, hs.head_le .producer⟩

/-- The producers are at most `capacity` ahead of the consumers. -/
theorem IndexInv.span_le {s : State ι Req α} (hs : IndexInv d single s) (sd : Side) :
    s.pos.head sd ≤ s.pos.tail sd + d.capacity ∧
      s.pos.tail sd.other + d.room sd ≤ s.pos.head sd + d.capacity := by
  obtain ⟨htc, hc, htp, hp⟩ := hs.ordered
  cases sd <;> simp only [Side.other, Discipline.room] <;> omega

/-- The cyclic distances of the indices, in the order the indices follow each other. -/
structure Shared.CyclicOrder (capacity : ℕ) (m : Shared α) : Prop where
  cHead_le_pTail : gap (m.tail .consumer) (m.head .consumer) ≤
    gap (m.tail .consumer) (m.tail .producer)
  pTail_le_pHead : gap (m.tail .consumer) (m.tail .producer) ≤
    gap (m.tail .consumer) (m.head .producer)
  pHead_le : gap (m.tail .consumer) (m.head .producer) ≤ capacity

/-- Under the index invariant the indices are in cyclic order. -/
theorem IndexInv.cyclicOrder {s : State ι Req α} (hd : d.Lawful) (hs : IndexInv d single s) :
    s.mem.CyclicOrder d.capacity := by
  obtain ⟨htc, hc, htp, hp⟩ := hs.ordered
  have hcap := hd.capacity_lt
  -- all four positions lie within `capacity`, so each distance is a plain difference
  have h₁ : gap (s.mem.tail .consumer) (s.mem.head .consumer)
      = s.pos.head .consumer - s.pos.tail .consumer := by
    rw [hs.tail_eq, hs.head_eq]; exact gap_ofNat (by omega) (by omega)
  have h₂ : gap (s.mem.tail .consumer) (s.mem.tail .producer)
      = s.pos.tail .producer - s.pos.tail .consumer := by
    rw [hs.tail_eq, hs.tail_eq]; exact gap_ofNat (by omega) (by omega)
  have h₃ : gap (s.mem.tail .consumer) (s.mem.head .producer)
      = s.pos.head .producer - s.pos.tail .consumer := by
    rw [hs.tail_eq, hs.head_eq]; exact gap_ofNat (by omega) (by omega)
  constructor <;> omega

/-- The invariant at the start. -/
theorem IndexInv.init (null : α) :
    IndexInv d single (State.init null : State ι Req α) where
  head_eq _ := rfl
  tail_eq _ := rfl
  tail_le _ := Nat.le_refl _
  head_le _ := Nat.zero_le _
  calls _ := trivial
  disjoint _ _ _ _ _ _ _ _ h := nomatch h
  covered _ _ _ h := absurd h (Nat.not_lt_zero _)
  owned _ _ _ _ h := nomatch h
  alone _ _ _ := ⟨fun _ _ h => (nomatch h), fun _ => rfl, fun _ h => (nomatch h)⟩

/-! ## What one call knows survives the steps of the others -/

/-- A head that moves leaves a batch granted. -/
theorem Batch.Granted.moveHead {pos : Positions} {sd : Side} {b : Batch Req α}
    (h : b.Granted d pos sd) (sd' : Side) (k : ℕ) : b.Granted d (pos.moveHead sd' k) sd := by
  obtain ⟨hg, t, x, hx, hxh, ht, hrest⟩ := h
  exact ⟨hg, t, x, hx, hxh.trans (pos.head_le_moveHead sd' k sd), ht, hrest⟩

/-- A tail that moves leaves a batch granted. -/
theorem Batch.Granted.moveTail {pos : Positions} {sd : Side} {b : Batch Req α}
    (h : b.Granted d pos sd) (sd' : Side) (k : ℕ) : b.Granted d (pos.moveTail sd' k) sd := by
  obtain ⟨hg, t, x, hx, hxh, ht, hrest⟩ := h
  exact ⟨hg, t, x, hx, hxh, ht.trans (pos.tail_le_moveTail sd' k sd.other), hrest⟩

/-- A head that moves leaves a batch in its place. -/
theorem Batch.Placed.moveHead {pos : Positions} {sd : Side} {b : Batch Req α}
    (h : b.Placed pos sd) (sd' : Side) (k : ℕ) : b.Placed (pos.moveHead sd' k) sd where
  head_eq := h.head_eq
  bounds hlen :=
    ⟨(h.bounds hlen).1, (h.bounds hlen).2.trans (pos.head_le_moveHead sd' k sd)⟩

/-- A placed batch stays placed when a tail moves up to its start at most. -/
theorem Batch.Placed.moveTail {pos : Positions} {sd sd' : Side} {b : Batch Req α} {k : ℕ}
    (h : b.Placed pos sd) (hk : sd = sd' → b.len ≠ 0 → pos.tail sd' + k ≤ b.start) :
    b.Placed (pos.moveTail sd' k) sd where
  head_eq := h.head_eq
  bounds hlen := by
    refine ⟨?_, (h.bounds hlen).2⟩
    by_cases hsd : sd = sd'
    · subst hsd; simpa using hk rfl hlen
    · simpa [hsd] using (h.bounds hlen).1

/-- Moving a head keeps what is known of every call. -/
theorem Pc.Ok.moveHead {pos : Positions} {pc : Pc Req α} (h : pc.Ok d pos) (sd : Side) (k : ℕ) :
    pc.Ok d (pos.moveHead sd k) := by
  cases pc with
  | loadTail => exact ⟨h.1.trans (pos.head_le_moveHead ..), h.2⟩
  | swapHead => exact ⟨h.1, h.2.1, h.2.2.moveHead ..⟩
  | copy => exact Batch.Placed.moveHead h ..
  | waitTail => exact Batch.Placed.moveHead h ..
  | storeTail => exact ⟨h.1.moveHead .., h.2⟩
  | _ => trivial

/-- Moving a tail up to the non-empty batches still in flight keeps what is known of every call that
is not committed to a store of that tail. -/
theorem Pc.Ok.moveTail {pos : Positions} {pc : Pc Req α} {sd : Side} {k : ℕ} (h : pc.Ok d pos)
    (hspan : ∀ x n, pc.span? = some (sd, x, n) → 0 < n → pos.tail sd + k ≤ x)
    (hstore : ∀ b, pc ≠ .storeTail sd b) : pc.Ok d (pos.moveTail sd k) := by
  -- a batch in flight on the side of that tail starts behind it or is empty
  have hplaced : ∀ {sd' : Side} {b : Batch Req α}, b.Placed pos sd' →
      pc.span? = some (sd', b.start, b.len.toNat) → b.Placed (pos.moveTail sd k) sd' := by
    intro sd' b hb hpc
    refine hb.moveTail fun hsd hlen => ?_
    subst hsd
    exact hspan _ _ hpc (toNat_pos hlen)
  cases pc with
  | loadTail => exact h
  | swapHead => exact ⟨h.1, h.2.1, h.2.2.moveTail ..⟩
  | copy => exact hplaced h rfl
  | waitTail => exact hplaced h rfl
  | storeTail sd' b =>
    have hsd : sd' ≠ sd := fun hsd => hstore b (by rw [hsd])
    exact ⟨hplaced h.1 rfl, by simpa [hsd] using h.2⟩
  | _ => trivial

/-! ## Preservation by the three kinds of step -/

section Preservation

variable [DecidableEq ι] {s s' : State ι Req α} {i : ι} {sd : Side} {b : Batch Req α}

omit [DecidableEq ι] in
/-- Non-empty batches in flight lie between the tail and the head of their side. -/
theorem IndexInv.span_bounds (hs : IndexInv d single s) {x n : ℕ}
    (h : (s.pc i).span? = some (sd, x, n)) (hn : 0 < n) :
    s.pos.tail sd ≤ x ∧ x + n ≤ s.pos.head sd := by
  have hok := hs.calls i
  -- only a call past its head store has a batch in flight, and that batch is placed
  have hplaced : ∀ b : Batch Req α, b.Placed s.pos sd → b.start = x → b.len.toNat = n →
      s.pos.tail sd ≤ x ∧ x + n ≤ s.pos.head sd := by
    rintro b hb rfl rfl
    exact hb.bounds fun h0 => by rw [h0] at hn; exact absurd hn (by decide)
  cases hp : s.pc i <;> rw [hp] at h hok <;>
    simp only [Pc.span?, Option.some.injEq, Prod.mk.injEq, reduceCtorEq] at h
  all_goals obtain ⟨rfl, hx, hn'⟩ := h
  · exact hplaced _ hok hx hn'
  · exact hplaced _ hok hx hn'
  · exact hplaced _ hok.1 hx hn'

omit [DecidableEq ι] in
/-- A call that is about to move its tail over a non-empty batch holds the batch at the tail. -/
theorem IndexInv.start_eq_tail (hd : d.Lawful) (hs : IndexInv d single s)
    (hpc : s.pc i = .storeTail sd b) (hlen : b.len ≠ 0) : b.start = s.pos.tail sd := by
  have hok := hs.calls i
  rw [hpc] at hok
  obtain ⟨hplaced, htail⟩ := hok
  have hb := hplaced.bounds hlen
  have hspan := (hs.span_le sd).1
  have hcap := hd.capacity_lt
  exact (eq_of_ofNat_eq hb.1 (by omega) (by rw [← htail, hplaced.head_eq])).symm

omit [DecidableEq ι] in
/-- A call that goes on is one that may use its side. -/
theorem IndexInv.allowed (hs : IndexInv d single s) {pc : Pc Req α}
    (hside : pc.side? = (s.pc i).side?) (sd : Side) (h : pc.side? = some sd) :
    single sd = none ∨ single sd = some i := by
  rw [hside] at h
  cases hk : single sd with
  | none => exact .inl rfl
  | some k => exact .inr (congrArg some (hs.owned sd k hk i h).symm)

/-- A batch in flight after a move is that of the moving call, or was in flight before. -/
theorem State.of_span?_goto {pc : Pc Req α} {j : ι} {x n : ℕ}
    (h : ((s.goto i pc).pc j).span? = some (sd, x, n)) :
    (j = i ∧ pc.span? = some (sd, x, n)) ∨ (j ≠ i ∧ (s.pc j).span? = some (sd, x, n)) := by
  by_cases hj : j = i
  · subst hj
    rw [State.goto_pc_self] at h
    exact .inl ⟨rfl, h⟩
  · rw [s.goto_pc_of_ne hj] at h
    exact .inr ⟨hj, h⟩

/-- A side with a single user is used by no other call, when the moving call may use its side. -/
theorem IndexInv.owned_goto (hs : IndexInv d single s) {pc : Pc Req α}
    (hside : ∀ sd, pc.side? = some sd → single sd = none ∨ single sd = some i) (sd : Side) (k : ι)
    (hk : single sd = some k) (j : ι) (hj : ((s.goto i pc).pc j).side? = some sd) : j = k := by
  by_cases hji : j = i
  · subst hji
    rw [State.goto_pc_self] at hj
    rcases hside sd hj with hnone | hsome
    · rw [hnone] at hk
      cases hk
    · rw [hsome] at hk
      exact Option.some.inj hk
  · rw [s.goto_pc_of_ne hji] at hj
    exact hs.owned sd k hk j hj

/-- A step that moves no index keeps the index invariant when the call's new place is in order and
keeps its batch. -/
theorem IndexInv.goto (hs : IndexInv d single s) {pc : Pc Req α} (hok : pc.Ok d s.pos)
    (hspan : pc.span? = (s.pc i).span?)
    (hside : ∀ sd, pc.side? = some sd → single sd = none ∨ single sd = some i)
    (hsince : ∀ sd since, single sd = some i → pc.since? = some (sd, since) →
      since.head sd = s.pos.head sd) :
    IndexInv d single (s.goto i pc) := by
  -- the batches in flight are those of before
  have hspans : ∀ j, ((s.goto i pc).pc j).span? = (s.pc j).span? := by
    intro j
    by_cases hj : j = i
    · subst hj
      rw [State.goto_pc_self, hspan]
    · rw [s.goto_pc_of_ne hj]
  refine ⟨hs.head_eq, hs.tail_eq, hs.tail_le, hs.head_le, ?_, ?_, ?_, ?_, ?_⟩
  · exact State.forall_goto hs.calls hok
  · intro j k sd x n y m hjk hj hk
    rw [hspans] at hj hk
    exact hs.disjoint j k sd x n y m hjk hj hk
  · intro sd p htail hhead
    obtain ⟨j, x, n, hj, hxp⟩ := hs.covered sd p htail hhead
    exact ⟨j, x, n, (hspans j).trans hj, hxp⟩
  · exact hs.owned_goto hside
  · intro sd k hk
    have hal := hs.alone sd k hk
    refine ⟨fun x n h => hal.busy x n (hspans k ▸ h),
      fun h => hal.quiet fun x n => hspans k ▸ h x n, fun since h => ?_⟩
    by_cases hki : k = i
    · subst hki
      rw [State.goto_pc_self] at h
      exact hsince sd since hk h
    · rw [s.goto_pc_of_ne hki] at h
      exact hal.current since h

omit [DecidableEq ι] in
/-- **At a successful head store the reserve loop is up to date**: the head has not moved since its
first load, and the batch fits into the positions that are available now. -/
theorem IndexInv.reserve_fits (hd : d.Lawful) (hs : IndexInv d single s) {since : Positions}
    (hpc : s.pc i = .swapHead sd b since) (hwin : (s.pc i).Fresh single s.pos)
    (hgo : (single sd).isSome ∨ s.mem.head sd = b.head) :
    b.start = s.pos.head sd ∧ b.head = s.mem.head sd ∧ b.avail.toNat ≤ d.capacity ∧
      s.pos.head sd + b.avail.toNat ≤ s.pos.tail sd.other + d.room sd ∧
      b.len.toNat ≤ b.avail.toNat := by
  have hok := hs.calls i
  rw [hpc] at hok hwin
  obtain ⟨hstart, hhead, hgrant, t, h, hsth, hh, ht, hht, hth, havail⟩ := hok
  -- the head read is current: by ownership, or because fewer than `2 ^ 31` positions went by
  have hcur : b.start = s.pos.head sd := by
    cases hsingle : single sd with
    | some k =>
      have hki : i = k := hs.owned sd k hsingle i (by rw [hpc]; rfl)
      subst hki
      rw [hstart]
      exact (hs.alone sd i hsingle).current since (by rw [hpc]; rfl)
    | none =>
      have hgo : s.mem.head sd = b.head := by simpa [hsingle] using hgo
      rw [hs.head_eq, hhead] at hgo
      have := (hwin hsingle sd).1
      exact eq_of_ofNat_eq (by omega) (by omega) hgo.symm
  have hcap := hd.capacity_lt
  -- the opposite tail has at most moved on since it was read
  have havail' : b.avail.toNat = t + d.room sd - b.start := by
    rw [havail, hhead]
    exact toNat_ofNat_sub (by omega) (by omega)
  have hlen : b.len.toNat ≤ b.avail.toNat := UInt32.le_iff_toNat_le.mp (hd.grant_le hgrant)
  exact ⟨hcur, by rw [hhead, hs.head_eq, hcur], by omega, by omega, hlen⟩

/-! ### Taking a batch -/

/-- A new batch at the head overlaps no other one. -/
theorem IndexInv.reserve_disjoint (hs : IndexInv d single s) {pc : Pc Req α}
    (hpc : pc.span? = some (sd, b.start, b.len.toNat)) (hcur : b.start = s.pos.head sd) {j k : ι}
    {sd' : Side} {x n y m : ℕ} (hjk : j ≠ k) (hj : ((s.goto i pc).pc j).span? = some (sd', x, n))
    (hk : ((s.goto i pc).pc k).span? = some (sd', y, m)) (hn : 0 < n) (hm : 0 < m) :
    x + n ≤ y ∨ y + m ≤ x := by
  -- what was in flight on this side ends at the old head, where the new batch starts
  have hbelow : ∀ l z p, (s.pc l).span? = some (sd, z, p) → 0 < p → z + p ≤ b.start :=
    fun l z p hl hp => hcur ▸ (hs.span_bounds hl hp).2
  rcases State.of_span?_goto hj with ⟨hji, hj⟩ | ⟨-, hj⟩ <;>
    rcases State.of_span?_goto hk with ⟨hki, hk⟩ | ⟨-, hk⟩
  · exact absurd (hji.trans hki.symm) hjk
  · rw [hpc] at hj
    cases hj
    exact .inr (hbelow k y m hk hm)
  · rw [hpc] at hk
    cases hk
    exact .inl (hbelow j x n hj hn)
  · exact hs.disjoint j k sd' x n y m hjk hj hk hn hm

/-- The positions the head has moved over are those of the new batch. -/
theorem IndexInv.reserve_covered (hs : IndexInv d single s) {pc : Pc Req α}
    (hpc : pc.span? = some (sd, b.start, b.len.toNat)) (hbefore : (s.pc i).span? = none)
    (hcur : b.start = s.pos.head sd) {sd' : Side} {p : ℕ} (htail : s.pos.tail sd' ≤ p)
    (hhead : p < (s.pos.moveHead sd b.len.toNat).head sd') :
    ∃ j x n, ((s.goto i pc).pc j).span? = some (sd', x, n) ∧ x ≤ p ∧ p < x + n := by
  by_cases hnew : sd' = sd ∧ s.pos.head sd ≤ p
  · obtain ⟨rfl, hp⟩ := hnew
    rw [Positions.moveHead_head, Function.update_self] at hhead
    exact ⟨i, b.start, b.len.toNat, by rw [State.goto_pc_self, hpc], by omega, by omega⟩
  · have hold : p < s.pos.head sd' := by
      by_cases hsd : sd' = sd
      · subst hsd
        exact Nat.lt_of_not_le fun hp => hnew ⟨rfl, hp⟩
      · simpa [hsd] using hhead
    obtain ⟨j, x, n, hj, hxp⟩ := hs.covered sd' p htail hold
    refine ⟨j, x, n, ?_, hxp⟩
    have hji : j ≠ i := by
      rintro rfl
      rw [hbefore] at hj
      cases hj
    rw [s.goto_pc_of_ne hji]
    exact hj

/-- The only user of a side has nothing in flight but the batch it takes. -/
theorem IndexInv.reserve_alone (hs : IndexInv d single s) {since : Positions}
    (hpc : s.pc i = .swapHead sd b since) (hcur : b.start = s.pos.head sd) {sd' : Side} {k : ι}
    (hk : single sd' = some k) :
    ((s.goto i (.copy sd b 0)).pc k).Alone (s.pos.moveHead sd b.len.toNat) sd' := by
  have hal := hs.alone sd' k hk
  by_cases hki : k = i
  · subst hki
    -- before the batch was taken nothing was in flight, so head and tail were equal
    have hquiet := hal.quiet fun x n h => by rw [hpc] at h; cases h
    rw [State.goto_pc_self]
    by_cases hsd : sd' = sd
    · subst hsd
      refine ⟨fun x n h => ?_, fun h => absurd rfl (h b.start b.len.toNat), fun _ h => by cases h⟩
      cases h
      simp only [Positions.moveHead_head, Positions.moveHead_tail, Function.update_self]
      omega
    · refine ⟨fun x n h => ?_, fun _ => by simpa [hsd] using hquiet, fun _ h => by cases h⟩
      cases h
      exact absurd rfl hsd
  · -- another user is alone on the other side
    have hsd : sd' ≠ sd := by
      rintro rfl
      exact hki (hs.owned sd' k hk i (by rw [hpc]; rfl)).symm
    rw [s.goto_pc_of_ne hki]
    refine ⟨fun x n h => ?_, fun h => ?_, fun since h => ?_⟩
    · simpa [hsd] using hal.busy x n h
    · simpa [hsd] using hal.quiet h
    · simpa [hsd] using hal.current since h

/-- Taking a batch keeps the index invariant. -/
theorem IndexInv.reserve (hd : d.Lawful) (hs : IndexInv d single s) {since : Positions}
    (hpc : s.pc i = .swapHead sd b since) (hwin : (s.pc i).Fresh single s.pos)
    (hgo : (single sd).isSome ∨ s.mem.head sd = b.head) :
    IndexInv d single ((s.reserve sd b).goto i (.copy sd b 0)) := by
  obtain ⟨hcur, hhead, havail, hfit, hlen⟩ := hs.reserve_fits hd hpc hwin hgo
  have hgap : gap (s.mem.head sd) b.next = b.len.toNat := by
    rw [← hhead, Batch.next, gap_add_self]
  have hpos : ((s.reserve sd b).goto i (.copy sd b 0)).pos = s.pos.moveHead sd b.len.toNat :=
    congrArg (s.pos.moveHead sd) hgap
  have hspan : (s.pc i).span? = none := by rw [hpc]; rfl
  constructor
  case head_eq =>
    intro sd'
    show Function.update s.mem.head sd b.next sd' = _
    rw [hpos]
    by_cases hsd : sd' = sd
    · subst hsd
      simp only [Positions.moveHead_head, Function.update_self]
      rw [ofNat_add_toNat, ← hs.head_eq, ← hhead, Batch.next]
    · simpa [hsd] using hs.head_eq sd'
  case tail_eq => exact hs.tail_eq
  case tail_le =>
    intro sd'
    rw [hpos]
    exact (hs.tail_le sd').trans (s.pos.head_le_moveHead ..)
  case head_le =>
    intro sd'
    rw [hpos]
    by_cases hsd : sd' = sd
    · subst hsd
      simp only [Positions.moveHead_head, Positions.moveHead_tail, Function.update_self]
      omega
    · simpa [hsd] using hs.head_le sd'
  case calls =>
    rw [hpos]
    have hnew : (Pc.copy sd b 0).Ok d (s.pos.moveHead sd b.len.toNat) := by
      refine ⟨by rw [hhead, hs.head_eq, hcur], fun _ => ?_⟩
      have := hs.tail_le sd
      simp only [Positions.moveHead_head, Positions.moveHead_tail, Function.update_self]
      omega
    exact State.forall_goto (s := s) (fun j => (hs.calls j).moveHead sd b.len.toNat) hnew
  case disjoint => exact fun j k sd' x n y m => hs.reserve_disjoint rfl hcur
  case covered =>
    rw [hpos]
    exact fun sd' p => hs.reserve_covered rfl hspan hcur
  case owned => exact hs.owned_goto (hs.allowed (by rw [hpc]; rfl))
  case alone =>
    rw [hpos]
    exact fun sd' k => hs.reserve_alone hpc hcur

/-! ### Publishing a batch -/

omit [DecidableEq ι] in
/-- No other call is committed to a tail store when a non-empty batch is published. -/
theorem IndexInv.storeTail_unique (hd : d.Lawful) (hs : IndexInv d single s)
    (hpc : s.pc i = .storeTail sd b) (hrace : s.RaceFree (.run i)) (hlen : b.len ≠ 0) {j : ι}
    (hj : j ≠ i) (b' : Batch Req α) : s.pc j ≠ .storeTail sd b' := by
  intro hpc'
  have hlen' := hrace sd b hpc hlen j b' hj hpc'
  have hi := hs.start_eq_tail hd hpc hlen
  have hj' := hs.start_eq_tail hd hpc' hlen'
  -- two non-empty batches that both start at the tail would overlap
  rcases hs.disjoint j i sd _ _ _ _ hj (by rw [hpc']; rfl) (by rw [hpc]; rfl) (toNat_pos hlen')
    (toNat_pos hlen) with h | h
  · have := toNat_pos hlen'
    omega
  · have := toNat_pos hlen
    omega

omit [DecidableEq ι] in
/-- The store of a tail moves it forward over the batch, at most to the head. -/
theorem IndexInv.publish_gap (hd : d.Lawful) (hs : IndexInv d single s)
    (hpc : s.pc i = .storeTail sd b) :
    gap (s.mem.tail sd) b.next = b.len.toNat ∧
      s.pos.tail sd + b.len.toNat ≤ s.pos.head sd := by
  have hok := hs.calls i
  rw [hpc] at hok
  refine ⟨by rw [hs.tail_eq, ← hok.2, Batch.next, gap_add_self], ?_⟩
  by_cases hlen : b.len = 0
  · rw [hlen]; exact hs.tail_le sd
  · have := (hok.1.bounds hlen).2
    rw [hs.start_eq_tail hd hpc hlen] at this
    exact this

omit [DecidableEq ι] in
/-- What is known of the other calls, unless the batch races with an empty one. -/
theorem IndexInv.publish_calls (hd : d.Lawful) (hs : IndexInv d single s)
    (hpc : s.pc i = .storeTail sd b) (hrace : s.RaceFree (.run i)) {j : ι} (hj : j ≠ i) :
    (s.pc j).Ok d (s.pos.moveTail sd b.len.toNat) := by
  by_cases hlen : b.len = 0
  · -- an empty batch moves nothing
    have hsame : s.pos.moveTail sd b.len.toNat = s.pos := by
      rw [hlen]
      simp [Positions.moveTail]
    rw [hsame]
    exact hs.calls j
  · refine (hs.calls j).moveTail (fun x n hjs hn => ?_)
      (fun b' => hs.storeTail_unique hd hpc hrace hlen hj b')
    -- the batch starts at the tail, so the other one lies behind it
    have hstart := hs.start_eq_tail hd hpc hlen
    have hlow := (hs.span_bounds hjs hn).1
    have hdis := hs.disjoint i j sd _ _ x n (Ne.symm hj) (by rw [hpc]; rfl) hjs (toNat_pos hlen) hn
    omega

/-- The positions behind the new tail are those of the other batches. -/
theorem IndexInv.publish_covered (hd : d.Lawful) (hs : IndexInv d single s)
    (hpc : s.pc i = .storeTail sd b) (pc : Pc Req α) {sd' : Side} {p : ℕ}
    (htail : (s.pos.moveTail sd b.len.toNat).tail sd' ≤ p) (hhead : p < s.pos.head sd') :
    ∃ j x n, ((s.goto i pc).pc j).span? = some (sd', x, n) ∧ x ≤ p ∧ p < x + n := by
  obtain ⟨j, x, n, hj, hxp⟩ :=
    hs.covered sd' p ((s.pos.tail_le_moveTail sd b.len.toNat sd').trans htail) hhead
  refine ⟨j, x, n, ?_, hxp⟩
  have hji : j ≠ i := by
    -- the batch of `i` is the one the tail has moved over
    rintro rfl
    rw [hpc] at hj
    cases hj
    have hlen : b.len ≠ 0 := fun h => by rw [h] at hxp; exact absurd hxp.2 (by simpa using hxp.1)
    rw [Positions.moveTail_tail, Function.update_self, ← hs.start_eq_tail hd hpc hlen] at htail
    omega
  rw [s.goto_pc_of_ne hji]
  exact hj

/-- The only user of a side has nothing in flight once it has published its batch. -/
theorem IndexInv.publish_alone (hs : IndexInv d single s) (hpc : s.pc i = .storeTail sd b)
    (ptr : ℕ → α) (code : ℤ) {sd' : Side} {k : ι} (hk : single sd' = some k) :
    ((s.goto i (.returned sd ptr code)).pc k).Alone (s.pos.moveTail sd b.len.toNat) sd' := by
  have hal := hs.alone sd' k hk
  by_cases hki : k = i
  · subst hki
    rw [State.goto_pc_self]
    refine ⟨(fun _ _ h => by cases h), fun _ => ?_, fun _ h => by cases h⟩
    by_cases hsd : sd' = sd
    · subst hsd
      have := hal.busy b.start b.len.toNat (by rw [hpc]; rfl)
      simp only [Positions.moveTail_head, Positions.moveTail_tail, Function.update_self]
      omega
    · have hquiet := hal.quiet fun x n h => by
        rw [hpc] at h
        cases h
        exact hsd rfl
      simpa [hsd] using hquiet
  · -- another user is alone on the other side
    have hsd : sd' ≠ sd := by
      rintro rfl
      exact hki (hs.owned sd' k hk i (by rw [hpc]; rfl)).symm
    rw [s.goto_pc_of_ne hki]
    refine ⟨fun x n h => ?_, fun h => ?_, hal.current⟩
    · simpa [hsd] using hal.busy x n h
    · simpa [hsd] using hal.quiet h

/-- Publishing a batch keeps the index invariant, unless it races with an empty batch. -/
theorem IndexInv.publish (hd : d.Lawful) (hs : IndexInv d single s)
    (hpc : s.pc i = .storeTail sd b) (hrace : s.RaceFree (.run i)) (ptr : ℕ → α) (code : ℤ) :
    IndexInv d single ((s.publish sd b).goto i (.returned sd ptr code)) := by
  obtain ⟨hgap, hle⟩ := hs.publish_gap hd hpc
  have hpos : ((s.publish sd b).goto i (.returned sd ptr code)).pos
      = s.pos.moveTail sd b.len.toNat := congrArg (s.pos.moveTail sd) hgap
  constructor
  case head_eq => exact hs.head_eq
  case tail_eq =>
    intro sd'
    show Function.update s.mem.tail sd b.next sd' = _
    rw [hpos]
    by_cases hsd : sd' = sd
    · subst hsd
      have hhead := (hpc ▸ hs.calls i : (Pc.storeTail sd' b).Ok d s.pos).2
      simp only [Positions.moveTail_tail, Function.update_self]
      rw [ofNat_add_toNat, ← hhead, Batch.next]
    · simpa [hsd] using hs.tail_eq sd'
  case tail_le =>
    intro sd'
    rw [hpos]
    by_cases hsd : sd' = sd
    · subst hsd
      simpa using hle
    · simpa [hsd] using hs.tail_le sd'
  case head_le =>
    intro sd'
    rw [hpos]
    have := s.pos.tail_le_moveTail sd b.len.toNat sd'.other
    exact (hs.head_le sd').trans (by omega)
  case calls =>
    intro j
    rw [hpos]
    by_cases hj : j = i
    · subst hj
      rw [State.goto_pc_self]
      trivial
    · rw [State.goto_pc_of_ne _ hj]
      exact hs.publish_calls hd hpc hrace hj
  case disjoint =>
    intro j k sd' x n y m hjk hj hk
    -- the batches in flight are those of before, without the published one
    obtain ⟨-, h⟩ | ⟨-, hj⟩ := State.of_span?_goto hj
    · cases h
    obtain ⟨-, h⟩ | ⟨-, hk⟩ := State.of_span?_goto hk
    · cases h
    exact hs.disjoint j k sd' x n y m hjk hj hk
  case covered =>
    rw [hpos]
    exact fun sd' p => hs.publish_covered hd hpc _
  case owned => exact hs.owned_goto fun _ h => by cases h
  case alone =>
    rw [hpos]
    exact fun sd' k => hs.publish_alone hpc ptr code

/-! ### Every step -/

/-- A slot access keeps the index invariant. -/
theorem IndexInv.transfer (hs : IndexInv d single s) {k : ℕ} (hpc : s.pc i = .copy sd b k)
    (slot j : ℕ) : IndexInv d single (s.transfer i sd b k slot j) := by
  have hok : (Pc.copy sd b k).Ok d s.pos := hpc ▸ hs.calls i
  have hside : ∀ sd', (Pc.copy sd b k).side? = some sd' →
      single sd' = none ∨ single sd' = some i := hs.allowed (by rw [hpc])
  have hput : IndexInv d single { s with mem := s.mem.setSlot slot (b.ptr j) } :=
    ⟨hs.head_eq, hs.tail_eq, hs.tail_le, hs.head_le, hs.calls, hs.disjoint, hs.covered,
      hs.owned, hs.alone⟩
  cases sd with
  | producer =>
    exact hput.goto hok (show _ = (s.pc i).span? by rw [hpc]; rfl) hside
      fun _ _ _ h => (nomatch h)
  | consumer =>
    exact hs.goto ⟨hok.head_eq, hok.bounds⟩ (by rw [hpc]; rfl) hside fun _ _ _ h => (nomatch h)

/-- **Every step keeps the index invariant**, when the reserve loops are fresh and no non-empty
batch is published past an empty one. -/
theorem IndexInv.step (hd : d.Lawful) (hs : IndexInv d single s) {a : Action ι Req α}
    (hwin : s.Windowed single) (hrace : s.RaceFree a) (hstep : step d single s a = some s') :
    IndexInv d single s' := by
  cases move_of_step hstep with
  | @call i sd req ptr hready hallowed =>
    have hspan : (s.pc i).span? = none := by
      cases hpc : s.pc i <;> rw [hpc] at hready <;> first | rfl | cases hready
    refine hs.goto trivial hspan.symm (fun sd' h => ?_) fun _ _ _ h => by cases h
    cases h
    exact hallowed
  | loadHead hpc =>
    refine hs.goto ⟨le_rfl, hs.head_eq _⟩ (by rw [hpc]; rfl) (hs.allowed (by rw [hpc]; rfl)) ?_
    intro sd' since _ h
    cases h
    rfl
  | refused hpc =>
    exact hs.goto trivial (by rw [hpc]; rfl) (fun _ h => by cases h) fun _ _ _ h => by cases h
  | @granted i sd req ptr head since len hpc hgrant =>
    have hok : (Pc.loadTail sd req ptr head since).Ok d s.pos := hpc ▸ hs.calls i
    -- the tail that was read is the one of now
    refine hs.goto ⟨rfl, hok.2, hgrant, s.pos.tail sd.other, s.pos.head sd, hok.1, le_rfl, le_rfl,
      hs.head_le sd, (hs.span_le sd).2, ?_⟩ (by rw [hpc]; rfl) (hs.allowed (by rw [hpc]; rfl)) ?_
    · show d.avail sd head (s.mem.tail sd.other) = _
      rw [hd.avail_eq, hs.tail_eq, Nat.add_comm, UInt32.ofNat_add]
    · intro sd' since' hk h
      cases h
      exact (hs.alone sd i hk).current since (by rw [hpc]; rfl)
  | reserve hpc hgo => exact hs.reserve hd hpc (hwin _) hgo
  | retry hpc =>
    exact hs.goto trivial (by rw [hpc]; rfl) (hs.allowed (by rw [hpc]; rfl)) fun _ _ _ h => by
      cases h
  | transfer hpc => exact hs.transfer hpc _ _
  | @copied i sd b k hpc =>
    have hok : b.Placed s.pos sd := (hpc ▸ hs.calls i : (Pc.copy sd b k).Ok d s.pos)
    split
    · rename_i hsingle
      obtain ⟨k', hk'⟩ := Option.isSome_iff_exists.mp hsingle
      have hki : i = k' := hs.owned sd k' hk' i (by rw [hpc]; rfl)
      subst hki
      -- alone on its side, the batch starts at the tail
      have hbusy := (hs.alone sd i hk').busy b.start b.len.toNat (by rw [hpc]; rfl)
      exact hs.goto ⟨hok, by rw [← hbusy.1]; exact hok.head_eq⟩ (by rw [hpc]; rfl)
        (hs.allowed (by rw [hpc]; rfl)) fun _ _ _ h => by cases h
    · exact hs.goto hok (by rw [hpc]; rfl) (hs.allowed (by rw [hpc]; rfl)) fun _ _ _ h => by
        cases h
  | @waited i sd b hpc htail =>
    have hok : b.Placed s.pos sd := (hpc ▸ hs.calls i : (Pc.waitTail sd b).Ok d s.pos)
    exact hs.goto ⟨hok, by rw [← htail, hs.tail_eq]⟩ (by rw [hpc]; rfl)
      (hs.allowed (by rw [hpc]; rfl)) fun _ _ _ h => by cases h
  | spin => exact hs
  | publish hpc => exact hs.publish hd hpc hrace _ _

end Preservation

/-! ## Runs -/

section Runs

variable [DecidableEq ι]

/-- The guard of the runs considered: fresh reserve loops, and no race with an empty batch. -/
def Guard (single : Side → Option ι) (s : State ι Req α) (a : Action ι Req α) : Prop :=
  s.Windowed single ∧ s.RaceFree a

/-- **The index invariant holds in every reachable state.** -/
theorem IndexInv.reachable (hd : d.Lawful) {null : α} {s : State ι Req α}
    (hreach :
      TransitionSystem.Reachable (ReserveRing.step d single) (Guard single) (.init null) s) :
    IndexInv d single s :=
  hreach.invariant (.init null) fun _ _ _ hs hok hstep => hs.step hd hok.1 hok.2 hstep

/-- Along every run from `s₀` under the guard `ok` the indices keep their cyclic order, and a call
that takes its batch has computed at most `capacity` available positions. -/
def OrderKept (d : Discipline Req) (single : Side → Option ι)
    (ok : State ι Req α → Action ι Req α → Prop) (s₀ : State ι Req α) : Prop :=
  ∀ s, TransitionSystem.Reachable (step d single) ok s₀ s →
    s.mem.CyclicOrder d.capacity ∧
      ∀ i sd b since, ok s (.run i) → s.pc i = .swapHead sd b since →
        (single sd).isSome ∨ s.mem.head sd = b.head → b.avail.toNat ≤ d.capacity

/-- **The order is kept** in every run that does not race with an empty batch. -/
theorem orderKept (hd : d.Lawful) (single : Side → Option ι) (null : α) :
    OrderKept d single (Guard single) (.init null) := by
  intro s hreach
  have hs := IndexInv.reachable hd hreach
  refine ⟨hs.cyclicOrder hd, fun i sd b since hok hpc hgo => ?_⟩
  exact (hs.reserve_fits hd hpc (hok.1 i) hgo).2.2.1

/-! ## Tail stores

What a store of a tail does to the published indices, and how a race with an empty batch undoes it.
-/

/-- A store of the tail of side `sd` that turns `m` into `m'` **moves forward**: by a cyclic
distance of at most `capacity`, and it leaves the producer tail between the consumer head and the
producer head. -/
structure Shared.TailForward (capacity : ℕ) (sd : Side) (m m' : Shared α) : Prop where
  gap_le : gap (m.tail sd) (m'.tail sd) ≤ capacity
  pTail_le : gap (m'.head .consumer) (m'.tail .producer) ≤
    gap (m'.head .consumer) (m'.head .producer)

/-- Every tail store of every run from `s₀` under the guard `ok` moves forward. -/
def TailsForward (d : Discipline Req) (single : Side → Option ι)
    (ok : State ι Req α → Action ι Req α → Prop) (s₀ : State ι Req α) : Prop :=
  ∀ (s s' : State ι Req α) (i : ι) (sd : Side) (b : Batch Req α),
    TransitionSystem.Reachable (step d single) ok s₀ s → ok s (.run i) →
    s.pc i = .storeTail sd b → step d single s (.run i) = some s' →
    s.mem.TailForward d.capacity sd s'.mem

omit [DecidableEq ι] in
/-- Under the index invariant the producer tail lies between the consumer head and the producer
head. -/
theorem IndexInv.pTail_mem {s : State ι Req α} (hd : d.Lawful) (hs : IndexInv d single s) :
    gap (s.mem.head .consumer) (s.mem.tail .producer) ≤
      gap (s.mem.head .consumer) (s.mem.head .producer) := by
  obtain ⟨htc, hc, htp, hp⟩ := hs.ordered
  have hcap := hd.capacity_lt
  rw [hs.head_eq, hs.head_eq, hs.tail_eq, gap_ofNat (by omega) (by omega),
    gap_ofNat (by omega) (by omega)]
  omega

/-- **Tail stores move forward** in every run that does not race with an empty batch. -/
theorem tailsForward (hd : d.Lawful) (single : Side → Option ι) (null : α) :
    TailsForward d single (Guard single) (.init null) := by
  intro s s' i sd b hreach hok hpc hstep
  have hs := IndexInv.reachable hd hreach
  have hs' := hs.step hd hok.1 hok.2 hstep
  refine ⟨?_, hs'.pTail_mem hd⟩
  obtain ⟨hgap, hle⟩ := hs.publish_gap hd hpc
  have hspan := (hs.span_le sd).1
  simp only [ReserveRing.step, State.advance, hpc, Option.some.injEq] at hstep
  subst hstep
  show gap (s.mem.tail sd) (Function.update s.mem.tail sd b.next sd) ≤ d.capacity
  rw [Function.update_self, hgap]
  omega

/-- **The race is real.** When a non-empty batch is published while another call of its side holds
an empty batch and has already passed its wait, the next step of that call moves the tail back, by
the length of the batch. -/
theorem IndexInv.race_moves_back {s s' : State ι Req α} (hs : IndexInv d single s) {i j : ι}
    {sd : Side} {b b' : Batch Req α} (hpc : s.pc i = .storeTail sd b) (hlen : b.len ≠ 0)
    (hij : j ≠ i) (hpc' : s.pc j = .storeTail sd b') (hempty : b'.len = 0)
    (hstep : ReserveRing.step d single s (.run i) = some s') :
    ∃ s'', ReserveRing.step d single s' (.run j) = some s'' ∧
      s'.mem.tail sd = s.mem.tail sd + b.len ∧
      s''.mem.tail sd = s.mem.tail sd ∧
      gap (s'.mem.tail sd) (s''.mem.tail sd) = 2 ^ 32 - b.len.toNat := by
  have hbi : b.head = s.mem.tail sd := by
    rw [(hpc ▸ hs.calls i : (Pc.storeTail sd b).Ok d s.pos).2, hs.tail_eq]
  have hbj : b'.head = s.mem.tail sd := by
    rw [(hpc' ▸ hs.calls j : (Pc.storeTail sd b').Ok d s.pos).2, hs.tail_eq]
  simp only [ReserveRing.step, State.advance, hpc, Option.some.injEq] at hstep
  subst hstep
  -- the first store does not move the other call
  have hpc'' : (State.goto (s.publish sd b) i
      (.returned sd b.ptr (d.result sd b.req b.avail b.len))).pc j = .storeTail sd b' := by
    rw [State.goto_pc_of_ne _ hij]; exact hpc'
  refine ⟨_, by simp only [ReserveRing.step, State.advance, hpc'']; rfl, ?_, ?_, ?_⟩
  · simp [State.publish, Batch.next, hbi]
  · simp [State.publish, Batch.next, hbj, hempty]
  · have hpos := toNat_pos hlen
    have hlt := b.len.toNat_lt
    -- the second store puts back the index it read before the first one
    have hback : s.mem.tail sd - (s.mem.tail sd + b.len) = -b.len := by
      rw [UInt32.sub_eq_add_neg, UInt32.neg_add, UInt32.sub_eq_add_neg, ← UInt32.add_assoc,
        UInt32.add_right_neg, UInt32.zero_add]
    simp only [State.publish, Batch.next, State.goto_mem, Shared.setTail_tail, Function.update_self,
      hbi, hbj, hempty, UInt32.add_zero, gap, hback, UInt32.toNat_neg, UInt32.size]
    omega

/-! ## Runs without empty batches -/

/-- Requests that satisfy `P` are never granted an empty batch. -/
def Discipline.Positive (d : Discipline Req) (P : Req → Prop) : Prop :=
  ∀ {sd req a len}, P req → d.grant sd req a = .ok len → len ≠ 0

/-- The running call was made with a request satisfying `P`, and holds no empty batch. -/
def Pc.NonEmpty (P : Req → Prop) : Pc Req α → Prop
  | .loadHead _ req _ | .loadTail _ req _ _ _ => P req
  | .swapHead _ b _ => P b.req ∧ b.len ≠ 0
  | .copy _ b _ | .waitTail _ b | .storeTail _ b => b.len ≠ 0
  | _ => True

/-- **Calls that take non-empty batches never race with an empty one.** -/
theorem guard_of_positive {P : Req → Prop} (hpos : d.Positive P) {null : α} {s : State ι Req α}
    (hreach : TransitionSystem.Reachable (step d single)
      (fun s a => s.Windowed single ∧ a.Calls P) (.init null) s) :
    TransitionSystem.Reachable (step d single) (Guard single) (.init null) s ∧
      ∀ i, (s.pc i).NonEmpty P := by
  refine hreach.invariant (P := fun s =>
    TransitionSystem.Reachable (step d single) (Guard single) (.init null) s ∧
      ∀ i, (s.pc i).NonEmpty P) ⟨.refl, fun _ => trivial⟩ ?_
  rintro s a s' ⟨hr, hne⟩ ⟨hwin, hcalls⟩ hstep
  -- no call holds an empty batch at all
  have hrace : s.RaceFree a := by
    cases a with
    | call => trivial
    | run i =>
      intro sd b _ _ j b' _ hpc'
      exact (hpc' ▸ hne j : (Pc.storeTail sd b').NonEmpty P)
  refine ⟨hr.tail ⟨hwin, hrace⟩ hstep, ?_⟩
  -- only the place of the moving call changes, and it inherits what the old place knew
  have hold : ∀ {i : ι} {pc : Pc Req α}, s.pc i = pc → pc.NonEmpty P := fun h => h ▸ hne _
  cases move_of_step hstep with
  | call => exact State.forall_goto hne hcalls
  | @loadHead i sd req ptr hpc =>
    have hreq : P req := hold hpc
    exact State.forall_goto hne hreq
  | granted hpc hgrant => exact State.forall_goto hne ⟨hold hpc, hpos (hold hpc) hgrant⟩
  | reserve hpc => exact State.forall_goto hne (hold hpc).2
  | retry hpc => exact State.forall_goto hne (hold hpc).1
  | @transfer i sd b k slot j hpc =>
    have hlen : b.len ≠ 0 := hold hpc
    cases sd <;> exact State.forall_goto hne hlen
  | @copied i sd b k hpc =>
    have hlen : b.len ≠ 0 := hold hpc
    refine State.forall_goto hne ?_
    split <;> exact hlen
  | @waited i sd b hpc =>
    have hlen : b.len ≠ 0 := hold hpc
    exact State.forall_goto hne hlen
  | spin => exact hne
  | refused | publish => exact State.forall_goto hne trivial

end Runs

end ReserveRing
