import PrototypeKernel.Foundation.ReserveRingIndex

/-! # What goes through a reservation ring

The pointers the producers took positions for form the stream `sent`, indexed by position. On top of
the index invariant, a published position that is not yet released holds its pointer in its slot,
and a dequeue copies exactly the pointers of the positions it took. Since the consumer tail moves
over the batches in position order, the pointers delivered so far are a prefix of `sent`: none is
lost, repeated, reordered or overwritten before it is read. -/

namespace ReserveRing

open Cyclic

variable {ι Req α : Type*} {d : Discipline Req} {single : Side → Option ι}

/-- The side and batch of a call that has taken its positions, with the number of slots copied. -/
def Pc.copied? : Pc Req α → Option (Side × Batch Req α × ℕ)
  | .copy sd b k => some (sd, b, k)
  | .waitTail sd b | .storeTail sd b => some (sd, b, b.len.toNat)
  | _ => none

/-- The pointers of the batch are the stream's pointers at its first `n` positions. -/
def Batch.Matches (b : Batch Req α) (sent : List α) (n : ℕ) : Prop :=
  ∀ j, j < n → j < b.len.toNat → sent[b.start + j]? = some (b.ptr j)

/-- The first `n` pointers of the batch are in their slots. -/
def Batch.Stored (d : Discipline Req) (b : Batch Req α) (ring : ℕ → α) (n : ℕ) : Prop :=
  ∀ j, j < n → j < b.len.toNat → ring ((b.start + j) % d.slots) = b.ptr j

/-- What a call that has copied `k` slots has achieved. -/
def Batch.Carried (d : Discipline Req) (sent : List α) (ring : ℕ → α) (k : ℕ) :
    Side → Batch Req α → Prop
  | .producer, b => b.Matches sent b.len.toNat ∧ b.Stored d ring k
  | .consumer, b => b.Matches sent k

/-- **The data invariant** of a reservation ring. -/
structure DataInv (d : Discipline Req) (s : State ι Req α) : Prop where
  sent_length : s.sent.length = s.pos.head .producer
  received_eq : s.received = s.sent.take (s.pos.tail .consumer)
  published : ∀ x, s.pos.tail .consumer ≤ x → x < s.pos.tail .producer →
    s.sent[x]? = some (s.mem.ring (x % d.slots))
  carried : ∀ i sd b k, (s.pc i).copied? = some (sd, b, k) → b.Carried d s.sent s.mem.ring k sd

/-- The data invariant at the start. -/
theorem DataInv.init (null : α) : DataInv d (State.init null : State ι Req α) where
  sent_length := rfl
  received_eq := rfl
  published _ _ h := absurd h (Nat.not_lt_zero _)
  carried _ _ _ _ h := nomatch h

/-- A call with copied pointers has the positions of its batch. -/
theorem Pc.span?_of_copied? {pc : Pc Req α} {sd : Side} {b : Batch Req α} {k : ℕ}
    (h : pc.copied? = some (sd, b, k)) : pc.span? = some (sd, b.start, b.len.toNat) := by
  cases pc <;> simp_all [Pc.copied?, Pc.span?]

/-- A call with positions has copied some of their pointers. -/
theorem Pc.copied?_of_span? {pc : Pc Req α} {sd : Side} {x n : ℕ}
    (h : pc.span? = some (sd, x, n)) :
    ∃ b k, pc.copied? = some (sd, b, k) ∧ b.start = x ∧ b.len.toNat = n := by
  cases pc with
  | copy | waitTail | storeTail =>
    simp only [Pc.span?, Option.some.injEq, Prod.mk.injEq] at h
    obtain ⟨rfl, hx, hn⟩ := h
    exact ⟨_, _, rfl, hx, hn⟩
  | _ => cases h

/-! ## Batches and the stream -/

/-- More that is sent leaves what a batch matches. -/
theorem Batch.Matches.append {b : Batch Req α} {sent : List α} {n : ℕ} (h : b.Matches sent n)
    (more : List α) : b.Matches (sent ++ more) n := by
  intro j hj hlen
  -- a matched position lies in the stream already, before what is appended
  have hlt : b.start + j < sent.length := (List.getElem?_eq_some_iff.mp (h j hj hlen)).1
  rw [List.getElem?_append_left hlt]
  exact h j hj hlen

/-- A batch has as many pointers as positions. -/
theorem Batch.length_ptrs (b : Batch Req α) : b.ptrs.length = b.len.toNat := by
  simp [Batch.ptrs]

/-- The pointers of a batch are those of the caller's array. -/
theorem Batch.getElem?_ptrs (b : Batch Req α) {j : ℕ} (hj : j < b.len.toNat) :
    b.ptrs[j]? = some (b.ptr j) := by
  simp [Batch.ptrs, hj]

/-- A batch matches the stream that it extends. -/
theorem Batch.matches_append_ptrs (b : Batch Req α) (sent : List α)
    (hstart : b.start = sent.length) (n : ℕ) : b.Matches (sent ++ b.ptrs) n := by
  intro j _ hlen
  rw [hstart, List.getElem?_append_right (Nat.le_add_right ..), Nat.add_sub_cancel_left,
    b.getElem?_ptrs hlen]

/-- The pointers of a matching batch are the stream's next ones. -/
theorem Batch.Matches.ptrs_eq {b : Batch Req α} {sent : List α} (h : b.Matches sent b.len.toNat) :
    b.ptrs = (sent.drop b.start).take b.len.toNat := by
  apply List.ext_getElem?
  intro j
  by_cases hj : j < b.len.toNat
  · rw [b.getElem?_ptrs hj, List.getElem?_take_of_lt hj, List.getElem?_drop, h j hj hj]
  · rw [List.getElem?_eq_none (by rw [b.length_ptrs]; omega),
      List.getElem?_eq_none (by rw [List.length_take]; omega)]

/-! ## Preservation -/

section Preservation

variable [DecidableEq ι] {s s' : State ι Req α} {i : ι} {sd : Side} {b : Batch Req α}

/-- A step that only moves the call keeps the data invariant when the new place claims no more. -/
theorem DataInv.goto (hs : DataInv d s) {pc : Pc Req α}
    (hpc : ∀ sd b k, pc.copied? = some (sd, b, k) → b.Carried d s.sent s.mem.ring k sd) :
    DataInv d (s.goto i pc) := by
  refine ⟨hs.sent_length, hs.received_eq, hs.published, fun j sd b k hj => ?_⟩
  by_cases hji : j = i
  · subst hji; rw [State.goto_pc_self] at hj; exact hpc sd b k hj
  · rw [State.goto_pc_of_ne _ hji] at hj; exact hs.carried j sd b k hj

/-- Taking a batch extends the stream. -/
theorem DataInv.reserve (hi : IndexInv d single s) (hs : DataInv d s)
    (hstart : b.start = s.pos.head sd) (hgap : gap (s.mem.head sd) b.next = b.len.toNat) :
    DataInv d ((s.reserve sd b).goto i (.copy sd b 0)) := by
  cases sd with
  | consumer =>
    -- a dequeue moves its head only, so stream and slots are those of before
    have hbase : DataInv d (s.reserve .consumer b) :=
      ⟨by simpa [State.reserve] using hs.sent_length, hs.received_eq, hs.published, hs.carried⟩
    refine hbase.goto fun sd' b' k h => ?_
    cases h
    exact fun j hj => absurd hj (Nat.not_lt_zero j)
  | producer =>
    -- all positions spoken of lie below the old producer head, so the pointers appended behind it
    -- leave what was known of the stream alone
    have hlen := hs.sent_length
    obtain ⟨htail, hhead, htail', -⟩ := hi.ordered
    have hbase : DataInv d (s.reserve .producer b) := by
      refine ⟨?_, ?_, fun x hx hx' => ?_, fun j sd' b' k h => ?_⟩
      · simp only [State.reserve, List.length_append, b.length_ptrs, Positions.moveHead_head,
          Function.update_self, hgap, hlen]
      · show s.received = (s.sent ++ b.ptrs).take (s.pos.tail .consumer)
        rw [List.take_append_of_le_length (by omega), hs.received_eq]
      · have hlt : x < s.sent.length := by
          have : x < s.pos.tail .producer := hx'
          omega
        show (s.sent ++ b.ptrs)[x]? = _
        rw [List.getElem?_append_left hlt]
        exact hs.published x hx hx'
      · have hold := hs.carried j sd' b' k h
        cases sd' with
        | producer => exact ⟨hold.1.append _, hold.2⟩
        | consumer => exact Batch.Matches.append hold _
    refine hbase.goto fun sd' b' k h => ?_
    cases h
    exact ⟨b.matches_append_ptrs _ (by rw [hstart, hlen]) _, fun j hj => absurd hj (by omega)⟩

omit [DecidableEq ι] in
/-- The access of a placed batch: number `k` goes to the slot of position `start + k`. -/
theorem IndexInv.access_get (hd : d.Lawful) (hi : IndexInv d single s) {k : ℕ}
    (hpc : s.pc i = .copy sd b k) :
    (d.access sd b.head b.len)[k]? =
      if k < b.len.toNat then some ((b.start + k) % d.slots, k) else none := by
  have hok : b.Placed s.pos sd := (hpc ▸ hi.calls i : (Pc.copy sd b k).Ok d s.pos)
  have hlen : b.len.toNat ≤ d.capacity := by
    by_cases h0 : b.len = 0
    · rw [h0]; exact Nat.zero_le _
    · have := hok.bounds h0
      have := (hi.span_le sd).1
      omega
  rw [hok.head_eq, hd.access_eq _ _ _ hlen]
  split
  · rename_i hk; simp [hk]
  · rename_i hk; simpa using Nat.le_of_not_lt hk

/-- A slot access keeps the data invariant. A producer's slot belongs to no other position in use;
a consumer's position is published and not yet released. -/
theorem DataInv.transfer (hd : d.Lawful) (hi : IndexInv d single s) (hs : DataInv d s) {k : ℕ}
    (hpc : s.pc i = .copy sd b k) (hk : k < b.len.toNat) :
    DataInv d (s.transfer i sd b k ((b.start + k) % d.slots) k) := by
  have hspan : (s.pc i).span? = some (sd, b.start, b.len.toNat) := by rw [hpc]; rfl
  have hbounds := hi.span_bounds hspan (by omega)
  have hmine := hs.carried i sd b k (by rw [hpc]; rfl)
  have hcap := hd.capacity_le
  obtain ⟨htc, hcc, htp, hpp⟩ := hi.ordered
  cases sd with
  | producer =>
    -- the slot written is not the slot of another position between the consumer tail and the head
    have hother : ∀ y, s.pos.tail .consumer ≤ y → y < s.pos.head .producer → y ≠ b.start + k →
        Function.update s.mem.ring ((b.start + k) % d.slots) (b.ptr k) (y % d.slots)
          = s.mem.ring (y % d.slots) := by
      intro y hy hy' hne
      exact Function.update_of_ne
        (fun heq => hne (eq_of_mod_eq (by omega) (by omega) heq)) _ _
    refine ⟨hs.sent_length, hs.received_eq, fun x hx hx' => ?_, fun j sd' b' k' h => ?_⟩
    · have hx'' : x < s.pos.tail .producer := hx'
      show s.sent[x]? = some (Function.update s.mem.ring _ _ _)
      rw [hother x hx (by omega) (by omega)]
      exact hs.published x hx hx'
    · by_cases hj : j = i
      · subst hj
        have h : (Pc.copy Side.producer b (k + 1)).copied? = some (sd', b', k') := by
          simpa [State.transfer] using h
        cases h
        refine ⟨hmine.1, fun l hl hlen => ?_⟩
        show Function.update s.mem.ring _ _ _ = _
        by_cases hlk : l = k
        · subst hlk; rw [Function.update_self]
        · rw [hother _ (by omega) (by omega) (by omega)]
          exact hmine.2 l (by omega) hlen
      · have h : (s.pc j).copied? = some (sd', b', k') := by
          rw [State.transfer, State.goto_pc_of_ne _ hj] at h
          exact h
        have hold := hs.carried j sd' b' k' h
        cases sd' with
        | consumer => exact hold
        | producer =>
          refine ⟨hold.1, fun l hl hlen => ?_⟩
          -- the batch of another producer does not overlap the one of `i`
          have hspan' := Pc.span?_of_copied? h
          have hb' := hi.span_bounds hspan' (by omega)
          have hdis := hi.disjoint j i _ _ _ _ _ hj hspan' hspan (by omega) (by omega)
          show Function.update s.mem.ring _ _ _ = _
          rw [hother _ (by omega) (by omega) (by omega)]
          exact hold.2 l hl hlen
  | consumer =>
    -- a load changes the caller's array only, and the slot it reads is a published one
    refine hs.goto fun sd' b' k' h => ?_
    cases h
    intro l hl hlen
    show s.sent[b.start + l]? = some (Function.update b.ptr k _ l)
    by_cases hlk : l = k
    · subst hlk
      rw [Function.update_self]
      exact hs.published _ (by omega) (by omega)
    · rw [Function.update_of_ne hlk]
      exact hmine l (by omega) hlen

/-- Publishing a batch: a producer's positions become readable, a consumer's pointers are the next
ones of the stream. -/
theorem DataInv.publish (hd : d.Lawful) (hi : IndexInv d single s) (hs : DataInv d s)
    (hpc : s.pc i = .storeTail sd b) (ptr : ℕ → α) (code : ℤ) :
    DataInv d ((s.publish sd b).goto i (.returned sd ptr code)) := by
  obtain ⟨hgap, hle⟩ := hi.publish_gap hd hpc
  have hmine := hs.carried i sd b b.len.toNat (by rw [hpc]; rfl)
  have hstart : 0 < b.len.toNat → b.start = s.pos.tail sd := fun h0 =>
    hi.start_eq_tail hd hpc fun h => by rw [h] at h0; exact absurd h0 (by decide)
  refine DataInv.goto ?_ fun _ _ _ h => by cases h
  cases sd with
  | producer =>
    refine ⟨hs.sent_length, hs.received_eq, fun x hx hx' => ?_, hs.carried⟩
    have hx'' : x < s.pos.tail .producer + b.len.toNat := by
      simpa [State.publish, hgap] using hx'
    by_cases hold : x < s.pos.tail .producer
    · exact hs.published x hx hold
    · -- `x` is a position of the batch, whose slots are all stored
      have hst := hstart (by omega)
      obtain ⟨j, rfl⟩ : ∃ j, x = b.start + j := ⟨x - b.start, by omega⟩
      show s.sent[b.start + j]? = some (s.mem.ring _)
      rw [hmine.1 j (by omega) (by omega), hmine.2 j (by omega) (by omega)]
  | consumer =>
    refine ⟨hs.sent_length, ?_, fun x hx hx' => hs.published x (le_trans ?_ hx) hx', hs.carried⟩
    · have htail : (s.publish .consumer b).pos.tail .consumer
          = s.pos.tail .consumer + b.len.toNat := by
        rw [State.publish, Positions.moveTail_tail, Function.update_self, hgap]
      show s.received ++ b.ptrs = s.sent.take ((s.publish .consumer b).pos.tail .consumer)
      rw [htail, List.take_add, ← hs.received_eq, Batch.Matches.ptrs_eq hmine]
      by_cases h0 : b.len.toNat = 0
      · simp [h0]
      · rw [hstart (by omega)]
    · exact s.pos.tail_le_moveTail ..

/-- **Every step keeps the data invariant.** -/
theorem DataInv.step (hd : d.Lawful) (hi : IndexInv d single s) (hs : DataInv d s)
    {a : Action ι Req α} (hwin : s.Windowed single) (hstep : step d single s a = some s') :
    DataInv d s' := by
  cases move_of_step hstep with
  | call | loadHead | refused | granted | retry => exact hs.goto fun _ _ _ h => by cases h
  | @reserve i sd b since hpc hgo =>
    obtain ⟨hstart, hhead, -⟩ := hi.reserve_fits hd hpc (hwin i) hgo
    exact hs.reserve hi hstart (by rw [← hhead, Batch.next, gap_add_self])
  | transfer hpc hget =>
    rw [hi.access_get hd hpc] at hget
    obtain ⟨hk, hget⟩ := Option.ite_none_right_eq_some.mp hget
    cases hget
    exact hs.transfer hd hi hpc hk
  | @copied i sd b k hpc hget =>
    rw [hi.access_get hd hpc] at hget
    -- the copy loop is over, so all slots of the batch are done
    have hk : ¬ k < b.len.toNat := fun hk => by rw [if_pos hk] at hget; cases hget
    have hmine := hs.carried i sd b k (by rw [hpc]; rfl)
    have hall : b.Carried d s.sent s.mem.ring b.len.toNat sd := by
      cases sd with
      | producer => exact ⟨hmine.1, fun j _ hj => hmine.2 j (by omega) hj⟩
      | consumer => exact fun j _ hj => hmine j (by omega) hj
    refine hs.goto fun sd' b' k' h => ?_
    split at h <;> cases h <;> exact hall
  | @waited i sd b hpc =>
    refine hs.goto fun sd' b' k' h => ?_
    cases h
    exact hs.carried i sd b b.len.toNat (by rw [hpc]; rfl)
  | spin => exact hs
  | publish hpc => exact hs.publish hd hi hpc _ _

end Preservation

/-- **Where a pointer is.** Each pointer of the stream has been received, or is in its slot, or is
still being stored by the producer that took its position. -/
theorem DataInv.located (hi : IndexInv d single s) (hs : DataInv d s) {x : ℕ} {p : α}
    (hx : s.sent[x]? = some p) :
    s.received[x]? = some p ∨
      (s.pos.tail .consumer ≤ x ∧ x < s.pos.tail .producer ∧ s.mem.ring (x % d.slots) = p) ∨
      ∃ i b k, (s.pc i).copied? = some (.producer, b, k) ∧ b.start ≤ x ∧
        x < b.start + b.len.toNat ∧ b.ptr (x - b.start) = p := by
  have hlt := (List.getElem?_eq_some_iff.mp hx).1
  rw [hs.sent_length] at hlt
  -- by the position of `x`: behind the consumer tail, published, or taken and not yet published
  by_cases hreceived : x < s.pos.tail .consumer
  · left
    rw [hs.received_eq, List.getElem?_take_of_lt hreceived, hx]
  right
  by_cases hpublished : x < s.pos.tail .producer
  · left
    have hslot := hs.published x (by omega) hpublished
    rw [hx, Option.some.injEq] at hslot
    exact ⟨by omega, hpublished, hslot.symm⟩
  · right
    obtain ⟨i, y, n, hspan, hy, hyn⟩ := hi.covered .producer x (by omega) hlt
    obtain ⟨b, k, hcopied, rfl, rfl⟩ := Pc.copied?_of_span? hspan
    refine ⟨i, b, k, hcopied, hy, hyn, ?_⟩
    have hmatch := (hs.carried i .producer b k hcopied).1 (x - b.start) (by omega) (by omega)
    rw [Nat.add_sub_cancel' hy, hx, Option.some.injEq] at hmatch
    exact hmatch.symm

/-- **Both invariants hold in every reachable state.** -/
theorem DataInv.reachable [DecidableEq ι] (hd : d.Lawful) {null : α} {s : State ι Req α}
    (hreach :
      TransitionSystem.Reachable (ReserveRing.step d single) (Guard single) (.init null) s) :
    IndexInv d single s ∧ DataInv d s :=
  hreach.invariant (P := fun s => IndexInv d single s ∧ DataInv d s) ⟨.init null, .init null⟩
    fun _ _ _ hs hok hstep =>
      ⟨hs.1.step hd hok.1 hok.2 hstep, hs.2.step hd hs.1 hok.1 hstep⟩

/-! ## Exact delivery -/

/-- **Exact delivery**: what the stream says about the calls in flight, the slots and the pointers
delivered so far. -/
structure State.Delivers (d : Discipline Req) (s : State ι Req α) : Prop where
  /-- The indices are the positions modulo `2 ^ 32`. -/
  head_eq : ∀ sd, s.mem.head sd = UInt32.ofNat (s.pos.head sd)
  tail_eq : ∀ sd, s.mem.tail sd = UInt32.ofNat (s.pos.tail sd)
  /-- The stream has one pointer for each position of the producer head. -/
  sent_length : s.sent.length = s.pos.head .producer
  /-- An enqueue writes the stream's pointers at the positions it took. -/
  wrote : ∀ i b k, (s.pc i).copied? = some (.producer, b, k) → ∀ j, j < b.len.toNat →
    s.sent[b.start + j]? = some (b.ptr j)
  /-- A dequeue obtains the stream's pointers at the positions it took, as far as it has copied. -/
  obtained : ∀ i b k, (s.pc i).copied? = some (.consumer, b, k) → ∀ j, j < k → j < b.len.toNat →
    s.sent[b.start + j]? = some (b.ptr j)
  /-- Two calls in flight on one side hold different positions. -/
  distinct : ∀ i j sd b b' k k', i ≠ j → (s.pc i).copied? = some (sd, b, k) →
    (s.pc j).copied? = some (sd, b', k') → b.len ≠ 0 → b'.len ≠ 0 →
      b.start + b.len.toNat ≤ b'.start ∨ b'.start + b'.len.toNat ≤ b.start
  /-- The dequeues that have released their positions obtained a prefix of the stream. -/
  received_eq : s.received = s.sent.take (s.pos.tail .consumer)
  /-- No published pointer is overwritten before its position is released. -/
  published : ∀ x, s.pos.tail .consumer ≤ x → x < s.pos.tail .producer →
    s.sent[x]? = some (s.mem.ring (x % d.slots))
  /-- No pointer is lost: it has been received, is in its slot, or its enqueue is in flight. -/
  located : ∀ x p, s.sent[x]? = some p → s.received[x]? = some p ∨
    (s.pos.tail .consumer ≤ x ∧ x < s.pos.tail .producer ∧ s.mem.ring (x % d.slots) = p) ∨
    ∃ i b k, (s.pc i).copied? = some (.producer, b, k) ∧ b.start ≤ x ∧
      x < b.start + b.len.toNat ∧ b.ptr (x - b.start) = p

/-- The two invariants give exact delivery. -/
theorem DataInv.delivers {s : State ι Req α} (hi : IndexInv d single s) (hs : DataInv d s) :
    s.Delivers d where
  head_eq := hi.head_eq
  tail_eq := hi.tail_eq
  sent_length := hs.sent_length
  wrote i b k h j hj := (hs.carried i .producer b k h).1 j hj hj
  obtained i b k h j hjk hj := hs.carried i .consumer b k h j hjk hj
  distinct i j sd _ _ _ _ hij h h' hlen hlen' :=
    hi.disjoint i j sd _ _ _ _ hij (Pc.span?_of_copied? h) (Pc.span?_of_copied? h')
      (toNat_pos hlen) (toNat_pos hlen')
  received_eq := hs.received_eq
  published := hs.published
  located _ _ hx := hs.located hi hx

/-- **Runs without empty batches deliver exactly**, with their indices in cyclic order. -/
theorem delivers_of_positive [DecidableEq ι] (hd : d.Lawful) {P : Req → Prop} (hpos : d.Positive P)
    {null : α} {s : State ι Req α}
    (hreach : TransitionSystem.Reachable (ReserveRing.step d single)
      (fun s a => s.Windowed single ∧ a.Calls P) (.init null) s) :
    s.mem.CyclicOrder d.capacity ∧ s.Delivers d := by
  obtain ⟨hi, hs⟩ := DataInv.reachable hd (guard_of_positive hpos hreach).1
  exact ⟨hi.cyclicOrder hd, hs.delivers hi⟩

end ReserveRing
