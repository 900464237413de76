import PrototypeKernel.PtrRing.ResizeRace

/-! # What keeps a resize and a consumer apart

The resize stores the fields of the ring under `producer_lock`, and the consumer reads them under
`consumer_lock`. `raceOk` is what keeps the two apart all the same. The invariant of the runs that
meet it is kept by the steps of `ptr_ring_consume()`, in the consumer and in the resize. -/

namespace PtrRing.Race

open TransitionSystem

variable {E : Type*}

/-! ## Places of a call -/

/-- The call holds `consumer_lock`. -/
def Pc.inSection : Pc E → Bool
  | .idle | .lock => false
  | _ => true

/-- The pointer a call has found and not taken out of its slot. -/
def Pc.pending : Pc E → Option E
  | .discard ptr | .discardQueue ptr _ | .discardIndex ptr _ | .access ptr _ _
  | .storeSlot ptr _ _ => some ptr
  | _ => none

/-- The pointer a call has taken out of its slot and not returned. -/
def Pc.inflight : Pc E → List E
  | .storeIndex ptr _ | .compare ptr | .compareIndex ptr _ | .compareSize ptr _ | .wrap ptr
  | .unlock (some ptr) => [ptr]
  | _ => []

/-- The call has found a pointer. -/
def Pc.taking (pc : Pc E) : Bool := pc.pending.isSome || !pc.inflight.isEmpty

/-- The `queue` a call has loaded, when it has not read the slot. -/
def Pc.unread : Pc E → Option ℕ
  | .peekQueue q | .loadSlot q _ => some q
  | _ => none

/-! ## Places of a resize -/

/-- The locals of the running call, until the new `queue` is stored. -/
def ResizePc.ctx : ResizePc E → Option Resize
  | .lockProducer c | .drain c | .move c _ | .storeSize c | .storeProducer c | .storeConsumer c
  | .loadOld c | .storeQueue c _ => some c
  | _ => none

/-- The loop has found the ring empty, and the new `queue` is not stored. -/
def ResizePc.drained : ResizePc E → Bool
  | .storeSize _ | .storeProducer _ | .storeConsumer _ | .loadOld _ | .storeQueue _ _ => true
  | _ => false

/-- The new `size` is stored, and the new `queue` is not. -/
def ResizePc.sizeStored : ResizePc E → Bool
  | .storeProducer _ | .storeConsumer _ | .loadOld _ | .storeQueue _ _ => true
  | _ => false

/-- The new `consumer` is stored, and the new `queue` is not. -/
def ResizePc.indexStored : ResizePc E → Bool
  | .loadOld _ | .storeQueue _ _ => true
  | _ => false

/-- No pointer has been taken out of the ring by the running call. -/
def ResizePc.untouched : ResizePc E → Bool
  | .idle | .unlockProducer _ | .free _ => true
  | .lockProducer c | .drain c => c.producer = 0
  | _ => false

/-- The pointer that is about to be moved or destroyed. -/
def ResizePc.inHand : ResizePc E → List E
  | .move _ ptr => [ptr]
  | _ => []

/-! ## When the two are kept apart -/

/-- Slot `i` is one of the array `q`, and empty. -/
def State.emptySlot (s : State E) (q i : ℕ) : Bool :=
  (s.heap q).any fun a => decide (i < a.size) && (a.slot i).isNone

/-- **The steps that keep the resize and the consumer apart.** A resize is to at least one slot, and
it destroys what does not fit. The old `queue` is not freed while the consumer has loaded it and not
read the slot. The consumer does not use an index that it loaded before the resize with the new
`queue`, unless it leads to an empty slot of it. And it does not find a pointer in the old `queue`
after the resize has taken one. -/
def raceOk (s : State E) : Action → Bool
  | .resize size _ _ => 0 < size
  | .consume => true
  | .run .resizer _ =>
    match s.resize with
    | .move c _ => c.producer < c.size || c.destroy
    | .free old => (s.call .consumer).unread != some old
    | _ => true
  | .run .consumer _ =>
    match s.call .consumer with
    | .peekIndex i => i = s.consumer || s.emptySlot s.queue i
    | .loadSlot q i => s.emptySlot q i || s.resize.untouched
    | _ => true

/-! ## Exact delivery across resizes -/

/-- The pointers in the new slots. -/
def State.moved (s : State E) : List E :=
  match s.resize.ctx with
  | some c => (List.range c.producer).filterMap fun k => (s.heap c.arr).bind fun a => a.slot k
  | none => []

/-- The pointers that are not destroyed, in the order in which they are or will be returned: those
that are returned, in the hands of the consumer, in the new slots, in the hands of the resize, and
in the ring. -/
def State.line (s : State E) (moved content : List E) : List E :=
  s.returned ++ (s.call .consumer).inflight ++ moved ++ (s.call .resizer).inflight ++
    s.resize.inHand ++ content

/-- **What a resize has to leave to the consumer** of a ring with the pointers `xs`. -/
structure Delivers (xs : List E) (s : State E) : Prop where
  /-- The slot that the consumer is about to read is one of an array that is not freed. -/
  read_ok : ∀ q i, s.call .consumer = .loadSlot q i → ∃ a, s.heap q = some a ∧ i < a.size
  /-- The slots of the ring hold the pointers that are neither returned nor destroyed nor on their
  way, in order. -/
  kept : ∃ arr d content, s.heap s.queue = some arr ∧ SlotRing.Holds arr.size arr.slot d content ∧
    (s.consumerLock = none → s.consumer = d % arr.size) ∧ (s.line s.moved content).Sublist xs ∧
    (s.line s.moved content ++ s.destroyed).Perm xs

/-! ## The invariant -/

/-- The array that a resize has just replaced. -/
def State.Stale (s : State E) (q : ℕ) : Prop := s.resize = .unlockProducer q ∨ s.resize = .free q

/-- Reading slot `i` of `q` gives `NULL`. -/
def State.Harmless (s : State E) (q i : ℕ) : Prop :=
  (q = s.queue ∨ s.Stale q) ∧ ∃ a, s.heap q = some a ∧ i < a.size ∧ a.slot i = none

/-- What is known of the loaded and stored values of a call at the place `pc`, on an array of `n`
slots from which `d` pointers were taken. -/
def CallOk (s : State E) (n d : ℕ) (content : List E) (t : Thread) : Pc E → Prop
  | .idle | .lock => True
  | .peek | .discard _ | .unlock (some _) => s.consumer = d % n
  | .peekQueue q => s.consumer = d % n ∧
      (q = s.queue ∨ t = .consumer ∧ s.Harmless q 0 ∧ s.consumer = 0 ∧ s.Stale q)
  | .peekIndex i => s.consumer = d % n ∧ (t = .resizer → i = s.consumer)
  | .loadSlot q i => s.consumer = d % n ∧
      (q = s.queue ∧ i = s.consumer ∧ s.resize.drained = false ∨ t = .consumer ∧ s.Harmless q i)
  | .discardQueue _ q => s.consumer = d % n ∧ q = s.queue
  | .discardIndex _ i => s.consumer = d % n ∧ i = d % n
  | .access _ q i => s.consumer = d % n ∧ q = s.queue ∧ i = d % n
  | .storeIndex _ i => ∃ p, d = p + 1 ∧ i = p % n
  | .storeSlot _ q i => q = s.queue ∧ i = d % n ∧ s.consumer = i + 1
  | .compare _ => ∃ p, d = p + 1 ∧ s.consumer = p % n + 1
  | .compareIndex _ i => i = s.consumer ∧ ∃ p, d = p + 1 ∧ s.consumer = p % n + 1
  | .compareSize _ m => m = n ∧ ∃ p, d = p + 1 ∧ s.consumer = p % n + 1
  | .wrap _ => d % n = 0
  | .unlock none => s.consumer = d % n ∧ (t = .resizer → content = [])

/-- The new array of a resize holds the pointers moved so far. -/
structure NewArr (s : State E) (c : Resize) (moved : List E) : Prop where
  pos : 0 < c.size
  heap : ∃ a, s.heap c.arr = some a ∧ a.size = c.size ∧ ∀ k, a.slot k = moved[k]?
  length : moved.length = c.producer
  producer_le : c.producer ≤ c.size
  ne : c.arr ≠ s.queue
  lt : c.arr < s.brk

/-- **The invariant.** The array `arr` of the ring holds `content`, from position `d` on, and the
new array of a resize holds `moved`. -/
structure Inv (xs : List E) (s : State E) (arr : Arr E) (d : ℕ) (content moved : List E) :
    Prop where
  cur : s.heap s.queue = some arr
  ring : SlotRing.Holds arr.size arr.slot d content
  queue_lt : s.queue < s.brk
  size_eq : s.resize.sizeStored = false → s.size = arr.size
  size_new : s.resize.sizeStored → ∀ c, s.resize.ctx = some c → s.size = c.size
  new : ∀ c, s.resize.ctx = some c → NewArr s c moved
  moved_nil : s.resize.ctx = none → moved = []
  drained : s.resize.drained → content = []
  indexStored : s.resize.indexStored → s.consumer = 0
  old_eq : ∀ c old, s.resize = .storeQueue c old → old = s.queue
  stale_ne : ∀ q, s.Stale q → q ≠ s.queue
  index : s.consumerLock = none → s.consumer = d % arr.size
  locked : ∀ t, (s.call t).inSection ↔ s.consumerLock = some t
  drain : (s.call .resizer).ready = false → ∃ c, s.resize = .drain c
  call : ∀ t, CallOk s arr.size d content t (s.call t)
  pending : ∀ t ptr, (s.call t).pending = some ptr → content.head? = some ptr
  taking : (s.call .consumer).taking → s.resize.untouched
  order : (s.line moved content).Sublist xs
  perm : (s.line moved content ++ s.destroyed).Perm xs

/-! ## Outside of the critical section -/

section

variable {xs content moved : List E} {s s' : State E} {arr : Arr E} {d n : ℕ} {t t' : Thread}
  {pc : Pc E}

/-- Outside its section a call has loaded nothing that matters. -/
theorem callOk_of_not_inSection (h : pc.inSection = false) : CallOk s n d content t pc := by
  cases pc <;> trivial

/-- Outside its section a call holds no pointer. -/
theorem Pc.inflight_of_not_inSection (h : pc.inSection = false) : pc.inflight = [] := by
  cases pc <;> first | rfl | cases h

/-- Outside its section a call is about to return no pointer. -/
theorem Pc.pending_of_not_inSection (h : pc.inSection = false) : pc.pending = none := by
  cases pc <;> first | rfl | cases h

/-- Outside its section a call takes no pointer. -/
theorem Pc.taking_of_not_inSection (h : pc.inSection = false) : pc.taking = false := by
  rw [Pc.taking, Pc.pending_of_not_inSection h, Pc.inflight_of_not_inSection h]
  rfl

/-- A thread in its section is inside a call. -/
theorem Pc.not_ready_of_inSection (h : pc.inSection) : pc.ready = false := by
  cases pc <;> first | rfl | cases h

/-- A call that has read a pointer takes it. -/
theorem Pc.taking_of_pending {ptr : E} (h : pc.pending = some ptr) : pc.taking := by
  rw [Pc.taking, h]
  rfl

/-- A call in its section holds the consumer's lock. -/
theorem Inv.holder (h : Inv xs s arr d content moved) (hsec : (s.call t).inSection) :
    s.consumerLock = some t := (h.locked t).mp hsec

/-- The other thread is not in its critical section. -/
theorem Inv.other (h : Inv xs s arr d content moved) (hsec : (s.call t).inSection)
    (hne : t' ≠ t) : (s.call t').inSection = false := by
  rw [← Bool.not_eq_true, h.locked, h.holder hsec]
  exact fun heq => hne (Option.some.inj heq).symm

/-- A call that has found a pointer leaves no room for the stores of a resize. -/
theorem Inv.not_drained (h : Inv xs s arr d content moved) (htaking : (s.call t).taking) :
    s.resize.drained = false := by
  cases t with
  | consumer =>
    have huntouched := h.taking htaking
    cases hr : s.resize <;> first | rfl | (rw [hr] at huntouched; cases huntouched)
  | resizer =>
    have hsec : (s.call .resizer).inSection := by
      rw [← Bool.not_eq_false]
      intro hout
      rw [Pc.taking_of_not_inSection hout] at htaking
      cases htaking
    obtain ⟨c, hc⟩ := h.drain (Pc.not_ready_of_inSection hsec)
    rw [hc]
    rfl

/-! ## Steps inside of the critical section -/

/-- The state after a step of a call that moves it on and stores `consumer` or a slot. -/
def State.within (s : State E) (t : Thread) (pc : Pc E) (consumer : ℕ)
    (heap : ℕ → Option (Arr E)) : State E :=
  { s with consumer := consumer, heap := heap, call := Function.update s.call t pc }

/-- A step inside of the critical section keeps the invariant when it keeps what concerns the ring
and its own call. -/
theorem Inv.within (h : Inv xs s arr d content moved) (consumer : ℕ) (heap : ℕ → Option (Arr E))
    {arr' : Arr E} {d' : ℕ} {content' : List E} (hsec : (s.call t).inSection)
    (hpc : pc.inSection) (hcur : heap s.queue = some arr') (hsize : arr'.size = arr.size)
    (hring : SlotRing.Holds arr'.size arr'.slot d' content')
    (hheap : ∀ q, q ≠ s.queue → heap q = s.heap q)
    (hdrained : s.resize.drained → content' = [] ∧ consumer = s.consumer)
    (hcall : CallOk (s.within t pc consumer heap) arr'.size d' content' t pc)
    (hpending : ∀ ptr, pc.pending = some ptr → content'.head? = some ptr)
    (htaking : t = .consumer → pc.taking → s.resize.untouched)
    (hline : (s.within t pc consumer heap).line moved content' = s.line moved content) :
    Inv xs (s.within t pc consumer heap) arr' d' content' moved where
  cur := hcur
  ring := hring
  queue_lt := h.queue_lt
  size_eq hr := (h.size_eq hr).trans hsize.symm
  size_new := h.size_new
  new c hc := by
    have hnew := h.new c hc
    obtain ⟨a, ha, hslots⟩ := hnew.heap
    exact { hnew with heap := ⟨a, (hheap _ hnew.ne).trans ha, hslots⟩ }
  moved_nil := h.moved_nil
  drained hr := (hdrained hr).1
  indexStored hr := by
    have hr' : s.resize.drained := by
      have hr : s.resize.indexStored := hr
      cases hres : s.resize <;> rw [hres] at hr <;> first | rfl | cases hr
    exact (hdrained hr').2.trans (h.indexStored hr)
  old_eq := h.old_eq
  stale_ne := h.stale_ne
  index hfree := by
    have hlock := h.holder hsec
    rw [show s.consumerLock = none from hfree] at hlock
    cases hlock
  locked t' := by
    show (Function.update s.call t pc t').inSection ↔ _
    by_cases ht : t' = t
    · rw [ht, Function.update_self]
      exact iff_of_true hpc (h.holder hsec)
    · rw [Function.update_of_ne ht]
      exact h.locked t'
  drain hready := by
    have hready : (Function.update s.call t pc .resizer).ready = false := hready
    by_cases ht : .resizer = t
    · exact h.drain (ht ▸ Pc.not_ready_of_inSection hsec)
    · rw [Function.update_of_ne ht] at hready
      exact h.drain hready
  call t' := by
    show CallOk _ _ _ _ t' (Function.update s.call t pc t')
    by_cases ht : t' = t
    · rw [ht, Function.update_self]
      exact hcall
    · rw [Function.update_of_ne ht]
      exact callOk_of_not_inSection (h.other hsec ht)
  pending t' ptr hptr := by
    have hptr : (Function.update s.call t pc t').pending = some ptr := hptr
    by_cases ht : t' = t
    · rw [ht, Function.update_self] at hptr
      exact hpending ptr hptr
    · rw [Function.update_of_ne ht, Pc.pending_of_not_inSection (h.other hsec ht)] at hptr
      cases hptr
  taking htaken := by
    have htaken : (Function.update s.call t pc .consumer).taking := htaken
    by_cases ht : .consumer = t
    · rw [← ht, Function.update_self] at htaken
      exact htaking ht.symm htaken
    · rw [Function.update_of_ne ht] at htaken
      exact h.taking htaken
  order := hline ▸ h.order
  perm := by
    have hdestroyed : (s.within t pc consumer heap).destroyed = s.destroyed := rfl
    rw [hline, hdestroyed]
    exact h.perm

/-- What is in the hands of the calls, when a call moves on with the same pointers. -/
theorem State.line_within {consumer : ℕ} {heap : ℕ → Option (Arr E)}
    (hinflight : pc.inflight = (s.call t).inflight) :
    (s.within t pc consumer heap).line moved content = s.line moved content := by
  have hcalls : ∀ t', (Function.update s.call t pc t').inflight = (s.call t').inflight := by
    intro t'
    by_cases ht : t' = t
    · rw [ht, Function.update_self, hinflight]
    · rw [Function.update_of_ne ht]
  show s.returned ++ (Function.update s.call t pc .consumer).inflight ++ moved ++
    (Function.update s.call t pc .resizer).inflight ++ s.resize.inHand ++ content = _
  rw [hcalls, hcalls]
  rfl

/-- A step that only moves the call on. -/
theorem Inv.goto (h : Inv xs s arr d content moved) (hsec : (s.call t).inSection)
    (hpc : pc.inSection) (hcall : CallOk s arr.size d content t pc)
    (hpending : ∀ ptr, pc.pending = some ptr → content.head? = some ptr)
    (htaking : t = .consumer → pc.taking → s.resize.untouched)
    (hinflight : pc.inflight = (s.call t).inflight) :
    Inv xs (s.goto t pc) arr d content moved := by
  refine h.within s.consumer s.heap hsec hpc h.cur rfl h.ring
    (fun _ _ => rfl) (fun hr => ⟨h.drained hr, rfl⟩) ?_ hpending htaking
    (State.line_within hinflight)
  -- the places of the other thread are not looked at
  cases pc <;> exact hcall

/-- The next slot of the consumer. -/
theorem Inv.front (h : Inv xs s arr d content moved) :
    arr.slot (d % arr.size) = content.head? := by
  rw [h.ring.front, List.head?_eq_getElem?]

/-- An empty slot of the ring is harmless to read. -/
theorem Inv.harmless (h : Inv xs s arr d content moved) {i : ℕ} (hi : i < arr.size)
    (hslot : arr.slot i = none) : s.Harmless s.queue i :=
  ⟨.inl rfl, arr, h.cur, hi, hslot⟩

/-! ## One step of a call -/

/-- The step from the test of the slot to the loads for its store. -/
theorem Inv.found (h : Inv xs s arr d content moved) {q i : ℕ} {a : Arr E} {ptr : E}
    (hpc : s.call t = .loadSlot q i) (harr : s.heap q = some a) (hslot : a.slot i = some ptr)
    (hok : t = .consumer → raceOk s (.run .consumer true)) :
    Inv xs (s.goto t (.discard ptr)) arr d content moved := by
  have hcall := h.call t
  rw [hpc] at hcall
  obtain ⟨hidx, ⟨rfl, rfl, -⟩ | ⟨-, -, a', harr', -, hnone⟩⟩ := hcall
  · cases harr.symm.trans h.cur
    rw [hidx, h.front] at hslot
    refine h.goto (by rw [hpc]; rfl) rfl hidx (fun ptr' hptr => ?_) (fun ht _ => ?_)
      (by rw [hpc]; rfl)
    · cases hptr
      exact hslot
    · -- the guard: the resize has taken nothing yet
      subst ht
      have hok := hok rfl
      simpa only [raceOk, hpc, State.emptySlot, h.cur, Option.any_some, hidx, h.front, hslot,
        Option.isNone_some, Bool.and_false, Bool.false_or] using hok
  · cases harr.symm.trans harr'
    rw [hslot] at hnone
    cases hnone

/-- A resize that has taken nothing has nothing in its hands. -/
theorem Inv.nothing_moved (h : Inv xs s arr d content moved) (hr : s.resize.untouched) :
    moved = [] ∧ s.resize.inHand = [] := by
  have hctx : ∀ c, s.resize.ctx = some c → c.producer = 0 := by
    intro c hc
    cases hres : s.resize <;> rw [hres] at hr hc <;> cases hc <;>
      first | exact of_decide_eq_true hr | cases hr
  constructor
  · cases hc : s.resize.ctx with
    | none => exact h.moved_nil hc
    | some c => exact List.eq_nil_of_length_eq_zero ((h.new c hc).length.trans (hctx c hc))
  · cases hres : s.resize <;> first | rfl | (rw [hres] at hr; cases hr)

/-- A call that has found a pointer is the only one that has pointers in its hands. -/
theorem Inv.line_clear (h : Inv xs s arr d content moved) {ptr : E} {rest : List E}
    {heap : ℕ → Option (Arr E)} (hptr : (s.call t).pending = some ptr)
    (hsec : (s.call t).inSection) (hpc : pc.inflight = [ptr]) :
    (s.within t pc s.consumer heap).line moved rest = s.line moved (ptr :: rest) := by
  have hold : (s.call t).inflight = [] := by
    cases hc : s.call t <;> rw [hc] at hptr <;> first | rfl | cases hptr
  have hother : ∀ t', t' ≠ t → (s.call t').inflight = [] := fun t' ht =>
    Pc.inflight_of_not_inSection (h.other hsec ht)
  cases t with
  | consumer =>
    obtain ⟨hmoved, hhand⟩ := h.nothing_moved (h.taking (Pc.taking_of_pending hptr))
    have hresizer := hother .resizer (fun heq => by cases heq)
    show s.returned ++ pc.inflight ++ moved ++ (s.call .resizer).inflight ++ s.resize.inHand ++ rest
      = _
    rw [State.line, hpc, hold, hmoved, hhand, hresizer]
    simp
  | resizer =>
    obtain ⟨c, hc⟩ := h.drain (Pc.not_ready_of_inSection hsec)
    have hhand : s.resize.inHand = [] := by rw [hc]; rfl
    show s.returned ++ (s.call .consumer).inflight ++ moved ++ pc.inflight ++ s.resize.inHand ++
      rest = _
    rw [State.line, hpc, hold, hhand]
    simp

/-- The store that clears the slot of the first pointer. -/
theorem Inv.clear (h : Inv xs s arr d content moved) (pc : Pc E) {q i : ℕ} {a : Arr E} {ptr : E}
    (hsec : (s.call t).inSection) (hptr : (s.call t).pending = some ptr) (hq : q = s.queue)
    (hi : i = d % arr.size) (harr : s.heap q = some a) (hpc : pc.inflight = [ptr])
    (hnot : pc.pending = none)
    (hcall : ∀ rest, CallOk (s.within t pc s.consumer (s.clear q a i).heap) arr.size (d + 1) rest t
      pc) (hin : pc.inSection) :
    ∃ arr content, Inv xs ((s.clear q a i).goto t pc) arr (d + 1) content moved := by
  subst hq
  obtain rfl : a = arr := Option.some.inj (harr.symm.trans h.cur)
  have htaking : (s.call t).taking := Pc.taking_of_pending hptr
  obtain ⟨rest, rfl⟩ := List.head?_eq_some_iff.mp (h.pending t ptr hptr)
  have hring := h.ring.pop
  rw [← hi] at hring
  refine ⟨_, rest, h.within s.consumer (s.clear s.queue a i).heap
    hsec hin (Function.update_self ..) rfl hring (fun q hq => Function.update_of_ne hq ..)
    (fun hr => ?_) (hcall rest) (fun ptr' hptr' => ?_) (fun ht _ => ?_)
    (h.line_clear hptr hsec hpc)⟩
  · rw [h.not_drained htaking] at hr
    cases hr
  · rw [hnot] at hptr'
    cases hptr'
  · subst ht
    exact h.taking htaking

/-- A store of the index by a call that has found a pointer. -/
theorem Inv.putIndex (h : Inv xs s arr d content moved) (hsec : (s.call t).inSection)
    (htaking : (s.call t).taking) {i : ℕ} (hpc : pc.inSection)
    (hcall : CallOk (s.within t pc i s.heap) arr.size d content t pc)
    (hpending : pc.pending = (s.call t).pending) (hinflight : pc.inflight = (s.call t).inflight) :
    Inv xs ({ s with consumer := i }.goto t pc) arr d content moved := by
  refine h.within i s.heap hsec hpc h.cur rfl h.ring (fun _ _ => rfl)
    (fun hr => ?_) hcall (fun ptr hptr => h.pending t ptr (hpending ▸ hptr)) (fun ht _ => ?_)
    (State.line_within hinflight)
  · rw [h.not_drained htaking] at hr
    cases hr
  · subst ht
    exact h.taking htaking

/-- A step between places with the same pointers. -/
theorem Inv.goOn (h : Inv xs s arr d content moved) (hsec : (s.call t).inSection)
    (hpc : pc.inSection) (hcall : CallOk s arr.size d content t pc)
    (hpending : pc.pending = (s.call t).pending) (hinflight : pc.inflight = (s.call t).inflight) :
    Inv xs (s.goto t pc) arr d content moved := by
  refine h.goto hsec hpc hcall (fun ptr hptr => h.pending t ptr (hpending ▸ hptr))
    (fun ht htaking => ?_) hinflight
  subst ht
  rw [Pc.taking, hpending, hinflight] at htaking
  exact h.taking htaking

/-- Taking or releasing the lock keeps the invariant when it keeps what concerns the calls. -/
theorem Inv.relock (h : Inv xs s arr d content moved) {consumerLock : Option Thread}
    {call : Thread → Pc E} {returned : List E}
    (hindex : consumerLock = none → s.consumer = d % arr.size)
    (hlocked : ∀ t, (call t).inSection ↔ consumerLock = some t)
    (hdrain : (call .resizer).ready = false → (s.call .resizer).ready = false)
    (hcall : ∀ t, CallOk { s with consumerLock := consumerLock, call := call, returned := returned }
      arr.size d content t (call t))
    (hpending : ∀ t, (call t).pending = none) (htaking : (call .consumer).taking = false)
    (hline : State.line { s with consumerLock := consumerLock, call := call, returned := returned }
      moved content = s.line moved content) :
    Inv xs { s with consumerLock := consumerLock, call := call, returned := returned } arr d content
      moved where
  cur := h.cur
  ring := h.ring
  queue_lt := h.queue_lt
  size_eq := h.size_eq
  size_new := h.size_new
  new c hc := { h.new c hc with }
  moved_nil := h.moved_nil
  drained := h.drained
  indexStored := h.indexStored
  old_eq := h.old_eq
  stale_ne := h.stale_ne
  index := hindex
  locked := hlocked
  drain hready := h.drain (hdrain hready)
  call := hcall
  pending t ptr hptr := by cases (hpending t).symm.trans hptr
  taking htaken := absurd (htaking.symm.trans htaken) Bool.false_ne_true
  order := hline ▸ h.order
  perm := by
    rw [hline]
    exact h.perm

/-- Taking the lock. -/
theorem Inv.lock (h : Inv xs s arr d content moved) (hpc : s.call t = .lock)
    (hfree : s.consumerLock = none) :
    Inv xs ({ s with consumerLock := some t }.goto t .peek) arr d content moved := by
  -- nobody was in the critical section
  have hout : ∀ t', (s.call t').inSection = false := fun t' => by
    rw [← Bool.not_eq_true, h.locked, hfree]
    exact fun heq => by cases heq
  have hself : Function.update s.call t .peek t = .peek := Function.update_self ..
  have hother : ∀ t', t' ≠ t → Function.update s.call t .peek t' = s.call t' := fun t' ht =>
    Function.update_of_ne ht ..
  have hinflight : ∀ t', (Function.update s.call t .peek t').inflight = (s.call t').inflight := by
    intro t'
    by_cases ht : t' = t
    · rw [ht, hself, Pc.inflight_of_not_inSection (hout t)]
      rfl
    · rw [hother t' ht]
  have hpending : ∀ t', (Function.update s.call t .peek t').pending = none := by
    intro t'
    by_cases ht : t' = t
    · rw [ht, hself]
      rfl
    · rw [hother t' ht]
      exact Pc.pending_of_not_inSection (hout t')
  refine h.relock (fun hlock => by cases hlock) (fun t' => ?_) (fun hready => ?_) (fun t' => ?_)
    hpending ?_ ?_
  · by_cases ht : t' = t
    · rw [ht, hself]
      exact iff_of_true rfl rfl
    · rw [hother t' ht, hout t']
      exact iff_of_false Bool.false_ne_true fun heq => ht (Option.some.inj heq).symm
  · by_cases ht : .resizer = t
    · rw [ht, hpc]
      rfl
    · rwa [hother _ ht] at hready
  · by_cases ht : t' = t
    · rw [ht, hself]
      exact h.index hfree
    · rw [hother t' ht]
      exact callOk_of_not_inSection (hout t')
  · rw [Pc.taking, hpending, hinflight, Pc.inflight_of_not_inSection (hout .consumer)]
    rfl
  · rw [State.line, hinflight, hinflight]
    rfl

/-- When the lock is released, nobody is in the critical section. -/
theorem Inv.all_out (h : Inv xs s arr d content moved) (hsec : (s.call t).inSection) (t' : Thread) :
    (Function.update s.call t .idle t').inSection = false := by
  by_cases ht : t' = t
  · rw [ht, Function.update_self]
    rfl
  · rw [Function.update_of_ne ht]
    exact h.other hsec ht

/-- The index when a call returns. -/
theorem Inv.index_unlock (h : Inv xs s arr d content moved) {ret : Option E}
    (hpc : s.call t = .unlock ret) : s.consumer = d % arr.size := by
  have hcall := h.call t
  rw [hpc] at hcall
  cases ret with
  | none => exact hcall.1
  | some ptr => exact hcall

/-- The return to the consumer. -/
theorem Inv.returned (h : Inv xs s arr d content moved) {ret : Option E}
    (hpc : s.call .consumer = .unlock ret) :
    Inv xs ({ s with consumerLock := none }.ret .consumer ret) arr d content moved := by
  have hsec : (s.call .consumer).inSection := by rw [hpc]; rfl
  have hout := h.all_out hsec
  have hinflight : (s.call .consumer).inflight = ret.toList := by
    rw [hpc]
    cases ret <;> rfl
  have hline : ({ s with consumerLock := none }.ret .consumer ret).line moved content =
      s.line moved content := by
    show (s.returned ++ ret.toList) ++ [] ++ moved ++ (s.call .resizer).inflight ++
      s.resize.inHand ++ content = _
    rw [State.line, hinflight, List.append_nil]
  exact h.relock (fun _ => h.index_unlock hpc)
    (fun t => iff_of_false (fun hin => Bool.false_ne_true ((hout t).symm.trans hin))
      (fun heq => by cases heq))
    id (fun t => callOk_of_not_inSection (hout t)) (fun t => Pc.pending_of_not_inSection (hout t))
    (Pc.taking_of_not_inSection (hout .consumer)) hline

/-- The return to the loop of the resize. -/
theorem Inv.drained_one (h : Inv xs s arr d content moved) {ret : Option E}
    (hpc : s.call .resizer = .unlock ret) :
    Inv xs ({ s with consumerLock := none }.ret .resizer ret) arr d content moved := by
  have hsec : (s.call .resizer).inSection := by rw [hpc]; rfl
  have hout := h.all_out hsec
  obtain ⟨c, hc⟩ := h.drain (Pc.not_ready_of_inSection hsec)
  have hcall := h.call .resizer
  rw [hpc] at hcall
  have hinflight : (s.call .resizer).inflight = ret.toList := by
    rw [hpc]
    cases ret <;> rfl
  rw [ret_resizer (s := { s with consumerLock := none }) hc]
  -- the pointer goes from the hands of the call to those of the loop
  have hline : State.line { { s with consumerLock := none }.goto .resizer .idle with
      resize := .loop c ret } moved content = s.line moved content := by
    have hhand : s.resize.inHand = [] := by rw [hc]; rfl
    rw [State.line, State.line, hhand, hinflight]
    cases ret with
    | none => rfl
    | some ptr =>
      show s.returned ++ (s.call .consumer).inflight ++ moved ++ [] ++ [ptr] ++ content = _
      simp
  have hctx : s.resize.ctx = some c := by rw [hc]; rfl
  have hsize : s.size = arr.size := h.size_eq (by rw [hc]; rfl)
  exact
    { cur := h.cur
      ring := h.ring
      queue_lt := h.queue_lt
      size_eq := fun _ => hsize
      size_new := fun hr => by cases ret <;> cases hr
      new := fun c' hc' => by
        have hc' : some c = some c' := by cases ret <;> exact hc'
        cases hc'
        exact { h.new c hctx with }
      moved_nil := fun hr => by cases ret <;> cases hr
      drained := fun hr => by
        cases ret with
        | none => exact hcall.2 rfl
        | some ptr => cases hr
      indexStored := fun hr => by cases ret <;> cases hr
      old_eq := fun c' old hr => by cases ret <;> cases hr
      stale_ne := fun q hq => by rcases hq with hq | hq <;> cases ret <;> cases hq
      index := fun _ => h.index_unlock hpc
      locked := fun t' => iff_of_false (fun hin => Bool.false_ne_true ((hout t').symm.trans hin))
        (fun heq => by cases heq)
      drain := fun hready => by cases hready
      call := fun t' => callOk_of_not_inSection (hout t')
      pending := fun t' ptr hptr => by
        cases (Pc.pending_of_not_inSection (hout t')).symm.trans hptr
      taking := fun htaken =>
        absurd ((Pc.taking_of_not_inSection (hout .consumer)).symm.trans htaken) Bool.false_ne_true
      order := hline ▸ h.order
      perm := by
        rw [hline]
        exact h.perm }

/-- An empty slot is one of an array that is not freed. -/
theorem emptySlot_iff {q i : ℕ} :
    s.emptySlot q i ↔ ∃ a, s.heap q = some a ∧ i < a.size ∧ a.slot i = none := by
  rw [State.emptySlot, Option.any_eq_true]
  simp only [Bool.and_eq_true, decide_eq_true_eq, Option.isNone_iff_eq_none]

/-- The slot that the next pointer is in can be read: it is the front of the ring, or the ring is
empty and the resize is about to replace it. -/
theorem Inv.front_ok (h : Inv xs s arr d content moved) (hsec : (s.call t).inSection)
    (hidx : s.consumer = d % arr.size) :
    s.resize.drained = false ∨ t = .consumer ∧ s.Harmless s.queue s.consumer := by
  cases hr : s.resize.drained with
  | false => exact .inl rfl
  | true =>
    refine .inr ⟨?_, ?_⟩
    · cases t with
      | consumer => rfl
      | resizer =>
        obtain ⟨c, hc⟩ := h.drain (Pc.not_ready_of_inSection hsec)
        rw [hc] at hr
        cases hr
    · have hi : s.consumer < arr.size := hidx ▸ Nat.mod_lt d h.ring.pos
      exact h.harmless hi (SlotRing.Holds.slot_eq_none (h.drained hr ▸ h.ring) hi)

/-- The field `size` is that of the ring when a call compares it. -/
theorem Inv.size_of_taking (h : Inv xs s arr d content moved) (htaking : (s.call t).taking) :
    s.size = arr.size := by
  have hdrained := h.not_drained htaking
  refine h.size_eq ?_
  cases hr : s.resize <;> rw [hr] at hdrained <;> first | rfl | cases hdrained

/-- The residue of the position behind a taken pointer. -/
theorem Inv.wrap_or_inside (h : Inv xs s arr d content moved) {p : ℕ} (hd : d = p + 1)
    (hidx : s.consumer = p % arr.size + 1) :
    (arr.size ≤ s.consumer → d % arr.size = 0) ∧
      (s.consumer < arr.size → s.consumer = d % arr.size) := by
  have hnext := succ_mod (p := p) h.ring.pos
  rw [← hd, next] at hnext
  constructor
  · intro hge
    rw [hnext, if_pos (by omega)]
  · intro hlt
    rw [hnext, if_neg (by omega), hidx]

/-- What a call that compares the index with the size has loaded. -/
theorem Inv.compared (h : Inv xs s arr d content moved) {ptr : E} {i m : ℕ}
    (hpc : s.call t = .compareIndex ptr i ∧ s.size = m ∨
      s.call t = .compareSize ptr m ∧ s.consumer = i) :
    ∃ pc, s.call t = pc ∧ pc.inSection ∧ pc.pending = none ∧ pc.inflight = [ptr] ∧
      i = s.consumer ∧ m = arr.size ∧ ∃ p, d = p + 1 ∧ s.consumer = p % arr.size + 1 := by
  have hcall := h.call t
  rcases hpc with ⟨hpc, hm⟩ | ⟨hpc, hi⟩
  · rw [hpc] at hcall
    have hsize := h.size_of_taking (t := t) (by rw [hpc]; rfl)
    exact ⟨_, hpc, rfl, rfl, rfl, hcall.1, hm ▸ hsize, hcall.2⟩
  · rw [hpc] at hcall
    exact ⟨_, hpc, rfl, rfl, rfl, hi.symm, hcall.1, hcall.2⟩

/-- A step between places with the same pointers, named by the places. -/
theorem Inv.turn (h : Inv xs s arr d content moved) {pc' : Pc E} (hpc : s.call t = pc)
    (hsec : pc.inSection) (hsec' : pc'.inSection) (hpending : pc'.pending = pc.pending)
    (hinflight : pc'.inflight = pc.inflight) (hcall : CallOk s arr.size d content t pc') :
    ∃ arr d content moved, Inv xs (s.goto t pc') arr d content moved := by
  subst hpc
  exact ⟨_, _, _, _, h.goOn hsec hsec' hcall hpending hinflight⟩

/-- A store of the index, named by the places. -/
theorem Inv.storeIndex (h : Inv xs s arr d content moved) (pc' : Pc E) (hpc : s.call t = pc)
    (hsec : pc.inSection) (htaking : pc.taking) (hsec' : pc'.inSection)
    (hpending : pc'.pending = pc.pending) (hinflight : pc'.inflight = pc.inflight) {i : ℕ}
    (hcall : CallOk (s.within t pc' i s.heap) arr.size d content t pc') :
    ∃ arr d content moved, Inv xs ({ s with consumer := i }.goto t pc') arr d content moved := by
  subst hpc
  exact ⟨_, _, _, _, h.putIndex hsec htaking hsec' hcall hpending hinflight⟩

/-- **Every step of a call keeps the invariant.** -/
theorem Inv.move (h : Inv xs s arr d content moved) (hmove : Move s t s')
    (hok : t = .consumer → raceOk s (.run .consumer true)) :
    ∃ arr d content moved, Inv xs s' arr d content moved := by
  have hcall := h.call t
  cases hmove with
  | lock hpc hfree => exact ⟨_, _, _, _, h.lock hpc hfree⟩
  | peekQueue hpc =>
    rw [hpc] at hcall
    exact h.turn hpc rfl rfl rfl rfl ⟨hcall, .inl rfl⟩
  | peekIndex hpc =>
    rw [hpc] at hcall
    exact h.turn hpc rfl rfl rfl rfl ⟨hcall, fun _ => rfl⟩
  | @thenIndex q hpc =>
    rw [hpc] at hcall
    refine h.turn hpc rfl rfl rfl rfl ⟨hcall.1, ?_⟩
    obtain ⟨hidx, rfl | ⟨ht, hharmless, hzero, -⟩⟩ := hcall
    · exact (h.front_ok (by rw [hpc]; rfl) hidx).imp_left fun hr => ⟨rfl, rfl, hr⟩
    · rw [hzero]
      exact .inr ⟨ht, hharmless⟩
  | @thenQueue i hpc =>
    rw [hpc] at hcall
    refine h.turn hpc rfl rfl rfl rfl ⟨hcall.1, ?_⟩
    -- the guard is about an index that the resize has changed behind the back of the consumer
    by_cases hi : i = s.consumer
    · subst hi
      exact (h.front_ok (by rw [hpc]; rfl) hcall.1).imp_left fun hr => ⟨rfl, rfl, hr⟩
    · cases t with
      | consumer =>
        have hok := hok rfl
        simp only [raceOk, hpc, hi, decide_false, Bool.false_or] at hok
        exact .inr ⟨rfl, .inl rfl, emptySlot_iff.mp hok⟩
      | resizer => exact absurd (hcall.2 rfl) hi
  | empty hpc harr hslot =>
    rw [hpc] at hcall
    refine h.turn hpc rfl rfl rfl rfl ⟨hcall.1, fun ht => ?_⟩
    obtain ⟨hidx, ⟨rfl, rfl, -⟩ | ⟨hconsumer, -⟩⟩ := hcall
    · cases harr.symm.trans h.cur
      rw [hidx, h.front] at hslot
      exact List.head?_eq_none_iff.mp hslot
    · rw [ht] at hconsumer
      cases hconsumer
  | found hpc harr hslot => exact ⟨_, _, _, _, h.found hpc harr hslot hok⟩
  | discardQueue hpc =>
    rw [hpc] at hcall
    exact h.turn hpc rfl rfl rfl rfl ⟨hcall, rfl⟩
  | discardIndex hpc =>
    rw [hpc] at hcall
    exact h.turn hpc rfl rfl rfl rfl ⟨hcall, hcall⟩
  | accessIndex hpc =>
    rw [hpc] at hcall
    exact h.turn hpc rfl rfl rfl rfl ⟨hcall.1, hcall.2, hcall.1⟩
  | accessQueue hpc =>
    rw [hpc] at hcall
    exact h.turn hpc rfl rfl rfl rfl ⟨hcall.1, rfl, hcall.2⟩
  | @slotFirst ptr q i a hpc harr =>
    rw [hpc] at hcall
    obtain ⟨hidx, hq, hi⟩ := hcall
    obtain ⟨arr', content', hinv⟩ := h.clear (.storeIndex ptr i) (by rw [hpc]; rfl)
      (by rw [hpc]; rfl) hq hi harr rfl rfl (fun _ => ⟨d, rfl, hi⟩) rfl
    exact ⟨_, _, _, _, hinv⟩
  | indexFirst hpc =>
    rw [hpc] at hcall
    obtain ⟨hidx, hq, hi⟩ := hcall
    exact h.storeIndex (.storeSlot ..) hpc rfl rfl rfl rfl rfl ⟨hq, hi, rfl⟩
  | storeIndex hpc =>
    rw [hpc] at hcall
    obtain ⟨p, hd, hi⟩ := hcall
    exact h.storeIndex (.compare _) hpc rfl rfl rfl rfl rfl ⟨p, hd, congrArg (· + 1) hi⟩
  | @storeSlot ptr q i a hpc harr =>
    rw [hpc] at hcall
    obtain ⟨hq, hi, hidx⟩ := hcall
    obtain ⟨arr', content', hinv⟩ := h.clear (.compare ptr) (by rw [hpc]; rfl)
      (by rw [hpc]; rfl) hq hi harr rfl rfl
      (fun _ => ⟨d, rfl, hidx.trans (congrArg (· + 1) hi)⟩) rfl
    exact ⟨_, _, _, _, hinv⟩
  | compareIndex hpc =>
    rw [hpc] at hcall
    exact h.turn hpc rfl rfl rfl rfl ⟨rfl, hcall⟩
  | compareSize hpc =>
    rw [hpc] at hcall
    have hsize := h.size_of_taking (t := t) (by rw [hpc]; rfl)
    exact h.turn hpc rfl rfl rfl rfl ⟨hsize, hcall⟩
  | past hpc hge =>
    obtain ⟨pc, hat, hsec, hpending, hinflight, rfl, rfl, p, hd, hidx⟩ := h.compared hpc
    exact h.turn hat hsec rfl hpending.symm hinflight.symm ((h.wrap_or_inside hd hidx).1 hge)
  | inside hpc hlt =>
    obtain ⟨pc, hat, hsec, hpending, hinflight, rfl, rfl, p, hd, hidx⟩ := h.compared hpc
    exact h.turn hat hsec rfl hpending.symm hinflight.symm ((h.wrap_or_inside hd hidx).2 hlt)
  | wrap hpc =>
    rw [hpc] at hcall
    exact h.storeIndex (.unlock _) hpc rfl rfl rfl rfl rfl hcall.symm
  | unlock hpc =>
    cases t with
    | consumer => exact ⟨_, _, _, _, h.returned hpc⟩
    | resizer => exact ⟨_, _, _, _, h.drained_one hpc⟩

end

end PtrRing.Race
