import PrototypeKernel.Foundation.ReserveRingSolo

/-! # A reservation ring without overlapping calls is a bounded FIFO list

`HoldsAt d m c xs` says that memory `m` holds the list `xs`, with its first element at position `c`:
the two indices of a side agree, the sides are `xs.length` apart, and the slots from `c` on hold the
elements. Through `Discipline.solo` a producer is offered the free positions and appends what it
stores, a consumer is offered the occupied positions and removes what it loads from the front. The
slot of an element depends on `c`, the observable behaviour does not, so indices may wrap. -/

namespace ReserveRing

open Cyclic

variable {Req α : Type*} {d : Discipline Req}

/-- Memory `m` **holds** the list `xs` from position `c` on. -/
structure HoldsAt (d : Discipline Req) (m : Shared α) (c : ℕ) (xs : List α) : Prop where
  cHead : m.head .consumer = UInt32.ofNat c
  cTail : m.tail .consumer = UInt32.ofNat c
  pHead : m.head .producer = UInt32.ofNat (c + xs.length)
  pTail : m.tail .producer = UInt32.ofNat (c + xs.length)
  length_le : xs.length ≤ d.capacity
  slot : ∀ j (hj : j < xs.length), m.ring ((c + j) % d.slots) = xs[j]

/-- Memory `m` holds the list `xs`. -/
def Holds (d : Discipline Req) (m : Shared α) (xs : List α) : Prop := ∃ c, HoldsAt d m c xs

/-- The positions a call of side `sd` can take of a ring that holds `n` elements. -/
def Discipline.offered (d : Discipline Req) (n : ℕ) : Side → ℕ
  | .producer => d.capacity - n
  | .consumer => n

/-- With all indices 0 the ring is empty. -/
theorem Holds.init (d : Discipline Req) {m : Shared α} (hhead : ∀ sd, m.head sd = 0)
    (htail : ∀ sd, m.tail sd = 0) : Holds d m [] :=
  ⟨0, hhead _, htail _, hhead _, htail _, Nat.zero_le _, fun _ hj => absurd hj (Nat.not_lt_zero _)⟩

/-- The ring holds at most its capacity. -/
theorem Holds.length_le {m : Shared α} {xs : List α} (h : Holds d m xs) :
    xs.length ≤ d.capacity := by
  obtain ⟨c, hc⟩ := h
  exact hc.length_le

/-- No call of a ring that holds a list is in flight. -/
theorem Holds.tail_eq_head {m : Shared α} {xs : List α} (h : Holds d m xs) (sd : Side) :
    m.tail sd = m.head sd := by
  obtain ⟨c, hc⟩ := h
  cases sd
  · rw [hc.pTail, hc.pHead]
  · rw [hc.cTail, hc.cHead]

/-- The available positions that a call of a ring holding `xs` computes. -/
theorem HoldsAt.avail_toNat (hd : d.Lawful) {m : Shared α} {c : ℕ} {xs : List α}
    (h : HoldsAt d m c xs) (sd : Side) :
    (d.avail sd (m.head sd) (m.tail sd.other)).toNat = d.offered xs.length sd := by
  have hcap := hd.capacity_lt
  have hlen := h.length_le
  rw [hd.avail_eq]
  cases sd with
  | producer =>
    show (UInt32.ofNat d.capacity + m.tail .consumer - m.head .producer).toNat = _
    rw [h.cTail, h.pHead, ← UInt32.ofNat_add, toNat_ofNat_sub (by omega) (by omega)]
    show _ = d.capacity - xs.length
    omega
  | consumer =>
    show (UInt32.ofNat 0 + m.tail .producer - m.head .consumer).toNat = _
    rw [h.pTail, h.cHead, ← UInt32.ofNat_add, toNat_ofNat_sub (by omega) (by omega)]
    show _ = xs.length
    omega

/-! ## The copy loop -/

/-- Storing `n` consecutive positions writes their slots, and no other slot. -/
theorem copySlots_producer {p n : ℕ} (hn : n ≤ d.slots) (m : Shared α) (ptr : ℕ → α) :
    let m' := (copySlots .producer ((List.range n).map fun k => ((p + k) % d.slots, k)) m ptr).1
    m'.head = m.head ∧ m'.tail = m.tail ∧
      (∀ k, k < n → m'.ring ((p + k) % d.slots) = ptr k) ∧
      ∀ x, (∀ k, k < n → x ≠ (p + k) % d.slots) → m'.ring x = m.ring x := by
  induction n with
  | zero => exact ⟨rfl, rfl, fun k hk => absurd hk (Nat.not_lt_zero k), fun _ _ => rfl⟩
  | succ n ih =>
    obtain ⟨hhead, htail, hin, hout⟩ := ih (by omega)
    -- the last access is split off the loop
    have hlast : (copySlots .producer
        ((List.range (n + 1)).map fun k => ((p + k) % d.slots, k)) m ptr).1
          = (copySlots .producer
              ((List.range n).map fun k => ((p + k) % d.slots, k)) m ptr).1.setSlot
                ((p + n) % d.slots) (ptr n) := by
      rw [copySlots, List.range_succ, List.map_append, List.foldl_append, ← copySlots]
      show ((copySlots .producer _ m ptr).1.setSlot _ ((copySlots .producer _ m ptr).2 n)) = _
      rw [copySlots_producer_eq]
    simp only [hlast]
    refine ⟨hhead, htail, fun k hk => ?_, fun x hx => ?_⟩
    · by_cases hkn : k = n
      · subst hkn; simp
      · rw [Shared.setSlot_ring, Function.update_of_ne
          (fun h => hkn (Nat.add_left_cancel (eq_of_mod_eq (by omega) (by omega) h)))]
        exact hin k (by omega)
    · rw [Shared.setSlot_ring, Function.update_of_ne (hx n (by omega))]
      exact hout x fun k hk => hx k (by omega)

/-- The caller's array `ptr` once the elements `xs` have been written to its front. -/
def writeFront (xs : List α) (ptr : ℕ → α) : ℕ → α := fun j => xs[j]?.getD (ptr j)

/-- Nothing is written to the caller's array. -/
@[simp] theorem writeFront_nil (ptr : ℕ → α) : writeFront [] ptr = ptr := rfl

/-- Loading `n` consecutive positions fills the first `n` entries of the caller's array. -/
theorem copySlots_consumer (p n : ℕ) (m : Shared α) (ptr : ℕ → α) :
    copySlots .consumer ((List.range n).map fun k => ((p + k) % d.slots, k)) m ptr
      = (m, fun j => if j < n then m.ring ((p + j) % d.slots) else ptr j) := by
  induction n with
  | zero => simp [copySlots]
  | succ n ih =>
    -- the last access is split off the loop
    have hsplit : copySlots .consumer
        ((List.range (n + 1)).map fun k => ((p + k) % d.slots, k)) m ptr
        = accessSlot .consumer (copySlots .consumer
            ((List.range n).map fun k => ((p + k) % d.slots, k)) m ptr) ((p + n) % d.slots, n) := by
      simp [copySlots, List.range_succ]
    rw [hsplit, ih]
    simp only [accessSlot]
    congr 1
    funext j
    rcases Nat.lt_trichotomy j n with h | h | h
    · rw [Function.update_of_ne (by omega), if_pos h, if_pos (by omega)]
    · subst h; rw [Function.update_self, if_pos (by omega)]
    · rw [Function.update_of_ne (by omega), if_neg (by omega), if_neg (by omega)]

/-! ## The calls -/

/-- The memory after a refused call, and its value. -/
theorem Discipline.solo_error (sd : Side) {req : Req} {m : Shared α} {ptr : ℕ → α} {code : ℤ}
    (h : d.grant sd req (d.avail sd (m.head sd) (m.tail sd.other)) = .error code) :
    d.solo sd req m ptr = (m, ptr, code) := by
  simp only [Discipline.solo, h]

/-- **A granted producer call appends.** The value is the discipline's result, the caller's array is
left alone. -/
theorem Holds.solo_producer (hd : d.Lawful) {m : Shared α} {xs : List α} (h : Holds d m xs)
    (req : Req) (ptr : ℕ → α) {len : UInt32}
    (hgrant : d.grant .producer req
      (d.avail .producer (m.head .producer) (m.tail .consumer)) = .ok len) :
    let r := d.solo .producer req m ptr
    len.toNat ≤ d.capacity - xs.length ∧
      Holds d r.1 (xs ++ (List.range len.toNat).map ptr) ∧ r.2.1 = ptr ∧
      r.2.2 = d.result .producer req
        (d.avail .producer (m.head .producer) (m.tail .consumer)) len := by
  obtain ⟨c, hc⟩ := h
  have havail := hc.avail_toNat hd .producer
  have hlen : len.toNat ≤ d.capacity - xs.length := by
    have := UInt32.le_iff_toNat_le.mp (hd.grant_le hgrant)
    simp only [Side.other, Discipline.offered] at havail
    omega
  have hcap := hd.capacity_le
  have hxs := hc.length_le
  obtain ⟨hhead, htail, hin, hout⟩ := copySlots_producer (d := d) (p := c + xs.length)
    (n := len.toNat) (by omega) (m.setHead .producer (m.head .producer + len)) ptr
  have haccess : d.access .producer (m.head .producer) len
      = (List.range len.toNat).map fun k => ((c + xs.length + k) % d.slots, k) := by
    rw [hc.pHead, hd.access_eq _ _ _ (by omega)]
  refine ⟨hlen, ?_⟩
  simp only [Discipline.solo, Side.other, hgrant, haccess]
  -- the new indices are those of the longer list
  have hnext : m.head .producer + len
      = UInt32.ofNat (c + (xs ++ (List.range len.toNat).map ptr).length) := by
    rw [List.length_append, List.length_map, List.length_range, ← Nat.add_assoc, ofNat_add_toNat,
      hc.pHead]
  refine ⟨⟨c, ?_, ?_, ?_, ?_, ?_, ?_⟩, by rw [copySlots_producer_eq], trivial⟩
  · rw [Shared.setTail_head, hhead]
    exact hc.cHead
  · rw [Shared.setTail_tail, htail]
    exact hc.cTail
  · rw [Shared.setTail_head, hhead, Shared.setHead_head, Function.update_self, hnext]
  · rw [Shared.setTail_tail, Function.update_self, hnext]
  · simp only [List.length_append, List.length_map, List.length_range]
    omega
  · intro j hj
    simp only [List.length_append, List.length_map, List.length_range] at hj
    rw [Shared.setTail_ring]
    by_cases hlt : j < xs.length
    · -- an element already held keeps its slot
      rw [List.getElem_append_left hlt, hout, Shared.setHead_ring, hc.slot j hlt]
      intro k hk heq
      have := eq_of_mod_eq (by omega) (by omega) heq
      omega
    · obtain ⟨k, rfl⟩ : ∃ k, j = xs.length + k := ⟨j - xs.length, by omega⟩
      rw [List.getElem_append_right (by omega), ← Nat.add_assoc, hin k (by omega)]
      simp

/-- **A granted consumer call removes from the front.** The value is the discipline's result, and
the removed elements are written to the front of the caller's array. -/
theorem Holds.solo_consumer (hd : d.Lawful) {m : Shared α} {xs : List α} (h : Holds d m xs)
    (req : Req) (ptr : ℕ → α) {len : UInt32}
    (hgrant : d.grant .consumer req
      (d.avail .consumer (m.head .consumer) (m.tail .producer)) = .ok len) :
    let r := d.solo .consumer req m ptr
    len.toNat ≤ xs.length ∧ Holds d r.1 (xs.drop len.toNat) ∧
      r.2.1 = writeFront (xs.take len.toNat) ptr ∧
      r.2.2 = d.result .consumer req
        (d.avail .consumer (m.head .consumer) (m.tail .producer)) len := by
  obtain ⟨c, hc⟩ := h
  have havail := hc.avail_toNat hd .consumer
  have hlen : len.toNat ≤ xs.length := by
    have := UInt32.le_iff_toNat_le.mp (hd.grant_le hgrant)
    simp only [Side.other, Discipline.offered] at havail
    omega
  have hxs := hc.length_le
  -- the slots loaded are those of the first `len` elements
  have haccess : d.access .consumer (m.head .consumer) len
      = (List.range len.toNat).map fun k => ((c + k) % d.slots, k) := by
    rw [hc.cHead, hd.access_eq _ _ _ (by omega)]
  refine ⟨hlen, ?_⟩
  simp only [Discipline.solo, Side.other, hgrant, haccess, copySlots_consumer]
  refine ⟨⟨c + len.toNat, ?_, ?_, ?_, ?_, ?_, ?_⟩, ?_, trivial⟩
  · simp [hc.cHead]
  · simp [hc.cHead]
  · simp only [Shared.setTail_head, Shared.setHead_head, List.length_drop]
    rw [Function.update_of_ne (by decide), hc.pHead]
    congr 1
    omega
  · simp only [Shared.setTail_tail, Shared.setHead_tail, List.length_drop]
    rw [Function.update_of_ne (by decide), hc.pTail]
    congr 1
    omega
  · rw [List.length_drop]
    omega
  · intro j hj
    rw [List.length_drop] at hj
    rw [List.getElem_drop, Shared.setTail_ring, Shared.setHead_ring, Nat.add_assoc,
      hc.slot _ (by omega)]
  · funext j
    rw [writeFront]
    by_cases hj : j < len.toNat
    · rw [if_pos hj, List.getElem?_take_of_lt hj, List.getElem?_eq_getElem (by omega),
        Option.getD_some, Shared.setHead_ring]
      exact hc.slot j (by omega)
    · rw [if_neg hj, List.getElem?_eq_none (by rw [List.length_take]; omega), Option.getD_none]

end ReserveRing
