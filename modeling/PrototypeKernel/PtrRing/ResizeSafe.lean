import PrototypeKernel.PtrRing.ResizeGuard

/-! # Runs of a resize and a consumer that lose nothing

The steps of `ptr_ring_resize()` keep the invariant. In every run that meets the guard the pointers
leave the ring in order, and none is lost. -/

namespace PtrRing.Race

open TransitionSystem

variable {E : Type*}

section

variable {xs content moved : List E} {s s' : State E} {arr : Arr E} {d n : ℕ} {t : Thread}
  {pc : Pc E}

/-! ## Steps of the resize -/

/-- What is known of the values of a call stays known when the ring and the array it reads stay. -/
theorem CallOk.mono (h : CallOk s n d content t pc) (hconsumer : s'.consumer = s.consumer)
    (hqueue : s'.queue = s.queue) (hstale : ∀ q, s.Stale q → s'.Stale q)
    (hheap : ∀ q, q = s.queue ∨ s.Stale q → s'.heap q = s.heap q)
    (hdrained : s.resize.drained = false → s'.resize.drained = false) :
    CallOk s' n d content t pc := by
  have hharmless : ∀ q i, s.Harmless q i → s'.Harmless q i := by
    rintro q i ⟨hq, a, ha, hslot⟩
    refine ⟨?_, a, (hheap q hq).trans ha, hslot⟩
    rw [hqueue]
    exact hq.imp_right (hstale q)
  cases pc with
  | idle => trivial
  | lock => trivial
  | peekQueue q =>
    obtain ⟨hidx, hq⟩ := h
    refine ⟨hconsumer.trans hidx, ?_⟩
    rw [hqueue, hconsumer]
    exact hq.imp_right fun ⟨ht, hzero, hi, hst⟩ => ⟨ht, hharmless _ _ hzero, hi, hstale _ hst⟩
  | loadSlot q i =>
    obtain ⟨hidx, hq⟩ := h
    refine ⟨hconsumer.trans hidx, ?_⟩
    rw [hqueue, hconsumer]
    exact hq.imp (fun ⟨hq, hi, hr⟩ => ⟨hq, hi, hdrained hr⟩)
      fun ⟨ht, hslot⟩ => ⟨ht, hharmless _ _ hslot⟩
  | unlock ret => cases ret <;> simpa only [CallOk, hconsumer] using h
  | _ => simpa only [CallOk, hconsumer, hqueue] using h

/-- Outside its drain the resize runs no call. -/
theorem Inv.resizer_idle (h : Inv xs s arr d content moved) (hr : ∀ c, s.resize ≠ .drain c) :
    s.call .resizer = .idle := by
  cases hpc : s.call .resizer <;> first | rfl | (
    obtain ⟨c, hc⟩ := h.drain (by rw [hpc]; rfl)
    exact absurd hc (hr c))

/-- The resize has no pointer on its way from the ring. -/
theorem Inv.line_eq (h : Inv xs s arr d content moved) (hr : ∀ c, s.resize ≠ .drain c) :
    s.line moved content =
      s.returned ++ (s.call .consumer).inflight ++ moved ++ s.resize.inHand ++ content := by
  have hnone : (Pc.idle : Pc E).inflight = [] := rfl
  rw [State.line, h.resizer_idle hr, hnone, List.append_nil]

/-- An idle thread is ready. -/
theorem Pc.not_ready_idle (hidle : pc = .idle) : pc.ready ≠ false := by
  rw [hidle]
  exact Bool.true_eq_false.mp

/-- The new size stays stored until the new `queue` is. -/
theorem Inv.size_stored (h : Inv xs s arr d content moved) {c c' : Resize}
    (hr : s.resize.sizeStored) (hctx : s.resize.ctx = some c) (hc : some c = some c') :
    s.size = c'.size := by
  cases hc
  exact h.size_new hr c hctx

/-- What a step of the resize leaves alone, outside of the critical section. -/
structure State.Outside (s s' : State E) : Prop where
  queue : s'.queue = s.queue
  consumerLock : s'.consumerLock = s.consumerLock
  callConsumer : s'.call .consumer = s.call .consumer
  returned : s'.returned = s.returned
  brk_le : s.brk ≤ s'.brk
  resizer : (s'.call .resizer).inSection = false

/-- A step of the resize that does not change the ring keeps the invariant when it keeps what
concerns the resize. -/
theorem Inv.outside (h : Inv xs s arr d content moved) (hout : State.Outside s s')
    {d' : ℕ} {moved' : List E} (hr : ∀ c, s.resize ≠ .drain c) (hcur : s'.heap s.queue = some arr)
    (hring : SlotRing.Holds arr.size arr.slot d' content)
    (hidx : s.consumer = d % arr.size → s'.consumer = d' % arr.size)
    (hsize_eq : s'.resize.sizeStored = false → s'.size = arr.size)
    (hsize_new : s'.resize.sizeStored → ∀ c, s'.resize.ctx = some c → s'.size = c.size)
    (hnew : ∀ c, s'.resize.ctx = some c → NewArr s' c moved')
    (hmoved : s'.resize.ctx = none → moved' = []) (hdrained : s'.resize.drained → content = [])
    (hindex : s'.resize.indexStored → s'.consumer = 0)
    (hold : ∀ c old, s'.resize = .storeQueue c old → old = s'.queue)
    (hstale : ∀ q, s'.Stale q → q ≠ s'.queue)
    (hdrain : (s'.call .resizer).ready = false → ∃ c, s'.resize = .drain c)
    (hcall : CallOk s' arr.size d' content .consumer (s.call .consumer))
    (htaking : (s.call .consumer).taking → s'.resize.untouched)
    (horder : (s'.line moved' content).Sublist (s.line moved content))
    (hperm : (s'.line moved' content ++ s'.destroyed).Perm (s.line moved content ++ s.destroyed)) :
    Inv xs s' arr d' content moved' where
  cur := by rw [hout.queue]; exact hcur
  ring := hring
  queue_lt := by rw [hout.queue]; exact h.queue_lt.trans_le hout.brk_le
  size_eq := hsize_eq
  size_new := hsize_new
  new := hnew
  moved_nil := hmoved
  drained := hdrained
  indexStored := hindex
  old_eq := hold
  stale_ne := hstale
  index hfree := by
    rw [hout.consumerLock] at hfree
    exact hidx (h.index hfree)
  locked t := by
    rw [hout.consumerLock, ← h.locked]
    cases t with
    | consumer => rw [hout.callConsumer]
    | resizer => rw [hout.resizer, h.resizer_idle hr, Pc.inSection]
  drain := hdrain
  call t := by
    cases t with
    | consumer => rw [hout.callConsumer]; exact hcall
    | resizer => exact callOk_of_not_inSection hout.resizer
  pending t ptr hptr := by
    cases t with
    | consumer =>
      rw [hout.callConsumer] at hptr
      exact h.pending .consumer ptr hptr
    | resizer => cases (Pc.pending_of_not_inSection hout.resizer).symm.trans hptr
  taking htaken := by
    rw [hout.callConsumer] at htaken
    exact htaking htaken
  order := horder.trans h.order
  perm := hperm.trans h.perm

/-- The allocation of the new array. -/
theorem Inv.alloc (h : Inv xs s arr d content moved) (cacheBytes : ℕ) {size : ℕ} (hsize : 0 < size)
    (destroy : Bool) (hr : s.resize = .idle) :
    Inv xs (s.alloc cacheBytes size destroy) arr d content moved := by
  have hmoved : moved = [] := h.moved_nil (by rw [hr]; rfl)
  have hne : ∀ c, s.resize ≠ .drain c := fun c hc => by rw [hr] at hc; cases hc
  have hidle := h.resizer_idle hne
  have hheap : ∀ q, q ≠ s.brk → (s.alloc cacheBytes size destroy).heap q = s.heap q := fun q hq =>
    Function.update_of_ne hq ..
  have hline : (s.alloc cacheBytes size destroy).line moved content = s.line moved content := by
    show s.returned ++ _ ++ moved ++ _ ++ [] ++ content =
      s.returned ++ _ ++ moved ++ _ ++ _ ++ content
    rw [hr]
    rfl
  have hout : State.Outside s (s.alloc cacheBytes size destroy) :=
    ⟨rfl, rfl, rfl, rfl, Nat.le_succ _, congrArg Pc.inSection hidle⟩
  refine h.outside hout hne ((hheap _ h.queue_lt.ne).trans h.cur) h.ring id
    (fun _ => h.size_eq (by rw [hr]; rfl)) (fun hs => by cases hs) (fun c hc => ?_)
    (fun hc => by cases hc) (fun hs => by cases hs)
    (fun hs => by cases hs) (fun c old hs => by cases hs)
    (fun q hq => by rcases hq with hq | hq <;> cases hq)
    (fun hready => absurd hready (Pc.not_ready_idle hidle))
    ((h.call .consumer).mono rfl rfl (fun q hq => ?_) (fun q hq => ?_) fun _ => rfl) (fun _ => ?_)
    (hline ▸ List.Sublist.refl _) (by rw [hline]; exact List.Perm.refl _)
  · cases hc
    exact ⟨hsize, ⟨_, Function.update_self .., rfl, fun k => by rw [hmoved]; rfl⟩,
      by rw [hmoved]; rfl, Nat.zero_le _, h.queue_lt.ne', Nat.lt_succ_self _⟩
  · rcases hq with hq | hq <;> (rw [hr] at hq; cases hq)
  · rcases hq with rfl | hq | hq
    · exact hheap _ h.queue_lt.ne
    · rw [hr] at hq
      cases hq
    · rw [hr] at hq
      cases hq
  · rfl

/-- The loop of the resize goes on. -/
theorem Inv.drainAgain (h : Inv xs s arr d content moved) {producerLock : Option Thread}
    {heap : ℕ → Option (Arr E)} {destroyed : List E} {c : Resize} {moved' : List E}
    (hr : ∀ c, s.resize ≠ .drain c) (hstale : ∀ q, ¬s.Stale q) (hsize : s.size = arr.size)
    (hcur : heap s.queue = s.heap s.queue)
    (hnew : NewArr ({ s with
      producerLock := producerLock, heap := heap, destroyed := destroyed }.drainAgain c) c moved')
    (htaking : (s.call .consumer).taking → (ResizePc.drain c : ResizePc E).untouched)
    (horder : (s.returned ++ (s.call .consumer).inflight ++ moved' ++ content).Sublist
      (s.line moved content))
    (hperm : (s.returned ++ (s.call .consumer).inflight ++ moved' ++ content ++ destroyed).Perm
      (s.line moved content ++ s.destroyed)) :
    Inv xs ({ s with
      producerLock := producerLock, heap := heap, destroyed := destroyed }.drainAgain c)
      arr d content moved' := by
  have hconsumer : Function.update s.call .resizer .lock .consumer = s.call .consumer :=
    Function.update_of_ne (by decide) ..
  have hline : State.line ({ s with
      producerLock := producerLock, heap := heap, destroyed := destroyed }.drainAgain c)
      moved' content =
      s.returned ++ (s.call .consumer).inflight ++ moved' ++ content := by
    show s.returned ++ (Function.update s.call .resizer .lock .consumer).inflight ++ moved' ++ [] ++
      [] ++ content = _
    rw [hconsumer, List.append_nil, List.append_nil]
  have hout : State.Outside s ({ s with
      producerLock := producerLock, heap := heap, destroyed := destroyed }.drainAgain c) :=
    ⟨rfl, rfl, hconsumer, rfl, le_rfl, rfl⟩
  refine h.outside hout hr (hcur.trans h.cur) h.ring id (fun _ => hsize) (fun hs => by cases hs)
    (fun c' hc => by cases hc; exact hnew) (fun hs => by cases hs) (fun hs => by cases hs)
    (fun hs => by cases hs) (fun c' old hs => by cases hs)
    (fun q hq => by rcases hq with hq | hq <;> cases hq) (fun _ => ⟨c, rfl⟩)
    ((h.call .consumer).mono rfl rfl (fun q hq => absurd hq (hstale q)) (fun q hq => ?_)
      fun _ => rfl) htaking (by rw [hline]; exact horder) (by rw [hline]; exact hperm)
  rcases hq with rfl | hq
  · exact hcur
  · exact absurd hq (hstale q)

/-- The resize takes the producer's lock. -/
theorem Inv.lockProducer (h : Inv xs s arr d content moved) {c : Resize}
    (hr : s.resize = .lockProducer c) :
    Inv xs ({ s with producerLock := some .resizer }.drainAgain c) arr d content moved := by
  have hne : ∀ c, s.resize ≠ .drain c := fun c hc => by rw [hr] at hc; cases hc
  have hstale : ∀ q, ¬s.Stale q := by
    rintro q (hq | hq) <;> (rw [hr] at hq; cases hq)
  have hline : s.line moved content =
      s.returned ++ (s.call .consumer).inflight ++ moved ++ content := by
    have hhand : (ResizePc.lockProducer c : ResizePc E).inHand = [] := rfl
    rw [h.line_eq hne, hr, hhand, List.append_nil]
  refine h.drainAgain hne hstale (h.size_eq (by rw [hr]; rfl)) rfl
    { h.new c (by rw [hr]; rfl) with } (fun htaken => ?_) ?_ ?_
  · have huntouched := h.taking htaken
    rwa [hr] at huntouched
  · rw [hline]
  · rw [hline]

/-- A pointer is in the hands of the resize, and no array is stale. -/
theorem Inv.moving (h : Inv xs s arr d content moved) {c : Resize} {ptr : E}
    (hr : s.resize = .move c ptr) :
    (∀ c, s.resize ≠ .drain c) ∧ (∀ q, ¬s.Stale q) ∧
      s.line moved content =
        s.returned ++ (s.call .consumer).inflight ++ moved ++ [ptr] ++ content := by
  have hne : ∀ c, s.resize ≠ .drain c := fun c hc => by rw [hr] at hc; cases hc
  refine ⟨hne, ?_, by rw [h.line_eq hne, hr, ResizePc.inHand]⟩
  rintro q (hq | hq) <;> (rw [hr] at hq; cases hq)

/-- A pointer moves to the next new slot. -/
theorem NewArr.push {c : Resize} {ptr : E} {a : Arr E} (hnew : NewArr s c moved)
    (hroom : c.producer < c.size) (ha : s.heap c.arr = some a) :
    NewArr ((s.setSlot c.arr a c.producer (some ptr)).drainAgain
      { c with producer := c.producer + 1 }) { c with producer := c.producer + 1 }
      (moved ++ [ptr]) := by
  obtain ⟨a', ha', hsize, hslots⟩ := hnew.heap
  cases ha.symm.trans ha'
  have hlength : (moved ++ [ptr]).length = c.producer + 1 := by
    rw [List.length_append, hnew.length, List.length_singleton]
  refine ⟨hnew.pos, ⟨_, Function.update_self .., hsize, fun k => ?_⟩, hlength, hroom, hnew.ne,
    hnew.lt⟩
  show Function.update a.slot c.producer (some ptr) k = _
  by_cases hk : k = c.producer
  · rw [hk, Function.update_self, ← hnew.length, List.getElem?_concat_length]
  · rw [Function.update_of_ne hk, hslots]
    rcases Nat.lt_or_ge k moved.length with hlt | hge
    · rw [List.getElem?_append_left hlt]
    · have hlen := hnew.length
      rw [List.getElem?_eq_none hge, List.getElem?_eq_none (by omega)]

/-- The resize stores a pointer in the new array. -/
theorem Inv.moveOne (h : Inv xs s arr d content moved) {c : Resize} {ptr : E} {a : Arr E}
    (hr : s.resize = .move c ptr) (hroom : c.producer < c.size) (ha : s.heap c.arr = some a) :
    Inv xs ((s.setSlot c.arr a c.producer (some ptr)).drainAgain
      { c with producer := c.producer + 1 }) arr d content (moved ++ [ptr]) := by
  obtain ⟨hne, hstale, hline⟩ := h.moving hr
  have hnew := h.new c (by rw [hr]; rfl)
  rw [List.append_assoc _ moved] at hline
  refine h.drainAgain hne hstale (h.size_eq (by rw [hr]; rfl))
    (Function.update_of_ne hnew.ne.symm ..) (hnew.push hroom ha) (fun htaken => ?_) ?_ ?_
  · have huntouched := h.taking htaken
    rw [hr] at huntouched
    cases huntouched
  · rw [hline]
  · rw [hline]

/-- A pointer that does not fit is destroyed. -/
theorem Inv.destroyOne (h : Inv xs s arr d content moved) {c : Resize} {ptr : E}
    (hr : s.resize = .move c ptr) :
    Inv xs ({ s with destroyed := s.destroyed ++ [ptr] }.drainAgain c) arr d content moved := by
  obtain ⟨hne, hstale, hline⟩ := h.moving hr
  refine h.drainAgain hne hstale (h.size_eq (by rw [hr]; rfl)) rfl
    { h.new c (by rw [hr]; rfl) with } (fun htaken => ?_) ?_ ?_
  · have huntouched := h.taking htaken
    rw [hr] at huntouched
    cases huntouched
  · rw [hline]
    exact (List.sublist_append_left _ _).append_right content
  · rw [hline]
    simp only [List.append_assoc]
    -- the pointer goes from the middle to the end
    refine ((List.perm_append_comm_assoc [ptr] content s.destroyed).trans ?_).symm.append_left _
      |>.append_left _ |>.append_left _
    exact List.perm_append_comm.append_left content

/-- **Where the consumer can be while the resize stores its fields**: outside of its critical
section, or on its way to an empty slot of the old array, or behind it. -/
inductive Waits (s : State E) (n d : ℕ) : Pc E → Prop
  | idle : Waits s n d .idle
  | lock : Waits s n d .lock
  | peek (hidx : s.consumer = d % n) : Waits s n d .peek
  | peekQueue (hidx : s.consumer = d % n) : Waits s n d (.peekQueue s.queue)
  | peekIndex (hidx : s.consumer = d % n) (i : ℕ) : Waits s n d (.peekIndex i)
  | loadSlot (hidx : s.consumer = d % n) {i : ℕ} (hi : i < n) : Waits s n d (.loadSlot s.queue i)
  | unlock (hidx : s.consumer = d % n) : Waits s n d (.unlock none)

/-- Once the old array is drained, the consumer finds no pointer in it. -/
theorem Inv.waits (h : Inv xs s arr d content moved) (hr : s.resize.drained) :
    Waits s arr.size d (s.call .consumer) := by
  have hstale : ∀ q, ¬s.Stale q := by
    rintro q (hq | hq) <;> (rw [hq] at hr; cases hr)
  have hnot : (s.call .consumer).taking = false := by
    rw [← Bool.not_eq_true]
    intro htaking
    rw [h.not_drained htaking] at hr
    cases hr
  have hcall := h.call .consumer
  cases hpc : s.call .consumer with
  | idle => exact .idle
  | lock => exact .lock
  | peek =>
    rw [hpc] at hcall
    exact .peek hcall
  | peekQueue q =>
    rw [hpc] at hcall
    obtain ⟨hidx, rfl | ⟨-, -, -, hq⟩⟩ := hcall
    · exact .peekQueue hidx
    · exact absurd hq (hstale _)
  | peekIndex i =>
    rw [hpc] at hcall
    exact .peekIndex hcall.1 i
  | loadSlot q i =>
    rw [hpc] at hcall
    obtain ⟨hidx, ⟨-, -, hq⟩ | ⟨-, hq, a, ha, hi, -⟩⟩ := hcall
    · rw [hr] at hq
      cases hq
    · obtain rfl := hq.resolve_right (hstale _)
      cases ha.symm.trans h.cur
      exact .loadSlot hidx hi
  | unlock ret =>
    rw [hpc] at hcall hnot
    cases ret with
    | none => exact .unlock hcall.1
    | some ptr => cases hnot
  | _ =>
    rw [hpc] at hnot
    cases hnot

/-- A store to a field of the ring, when the loop has found it empty. -/
theorem Inv.storeField (h : Inv xs s arr d content moved) (hr : s.resize.drained)
    {size producer consumer d' : ℕ} {next : ResizePc E} (hnext : next.drained)
    (hctx : next.ctx = s.resize.ctx) (hidx : s.consumer = d % arr.size → consumer = d' % arr.size)
    (hsize_eq : next.sizeStored = false → size = arr.size)
    (hsize_new : next.sizeStored → ∀ c, next.ctx = some c → size = c.size)
    (hindex : next.indexStored → consumer = 0)
    (hold : ∀ c old, next = .storeQueue c old → old = s.queue) :
    Inv xs { s with size := size, producer := producer, consumer := consumer, resize := next }
      arr d' content moved := by
  have hne : ∀ c, s.resize ≠ .drain c := fun c hc => by rw [hc] at hr; cases hr
  have hidle := h.resizer_idle hne
  have hnil := h.drained hr
  have hhand : ∀ pc : ResizePc E, pc.drained → pc.inHand = [] := fun pc hpc => by
    cases pc <;> first | rfl | cases hpc
  have hline : State.line { s with
      size := size, producer := producer, consumer := consumer, resize := next } moved content =
      s.line moved content := by
    rw [State.line, State.line, hhand next hnext, hhand s.resize hr]
  have hout : State.Outside s { s with
      size := size, producer := producer, consumer := consumer, resize := next } :=
    ⟨rfl, rfl, rfl, rfl, le_rfl, congrArg Pc.inSection hidle⟩
  refine h.outside hout hne h.cur ?_ hidx hsize_eq hsize_new
    (fun c hc => { h.new c (hctx ▸ hc) with }) (fun hc => h.moved_nil (hctx ▸ hc)) (fun _ => hnil)
    hindex hold (fun q hq => ?_) (fun hready => absurd hready (Pc.not_ready_idle hidle)) ?_
    (fun htaken => ?_)
    (hline ▸ List.Sublist.refl _) (by rw [hline])
  · -- no slot is occupied, so the next position does not matter
    rw [hnil]
    refine .of_slot_eq_none h.ring.pos (fun i hi => ?_) d'
    exact SlotRing.Holds.slot_eq_none (hnil ▸ h.ring) hi
  · rcases hq with rfl | rfl <;> cases hnext
  · -- the consumer is on its way to an empty slot
    have hwaits := h.waits hr
    generalize s.call .consumer = pc at hwaits
    cases hwaits with
    | idle => trivial
    | lock => trivial
    | peek hi => exact hidx hi
    | peekQueue hi => exact ⟨hidx hi, .inl rfl⟩
    | peekIndex hi i => exact ⟨hidx hi, fun ht => by cases ht⟩
    | loadSlot hi hlt =>
      exact ⟨hidx hi, .inr ⟨rfl, .inl rfl, arr, h.cur, hlt,
        SlotRing.Holds.slot_eq_none (hnil ▸ h.ring) hlt⟩⟩
    | unlock hi => exact ⟨hidx hi, fun ht => by cases ht⟩
  · rw [h.not_drained htaken] at hr
    cases hr

/-- The new array becomes the ring. -/
theorem Inv.storeQueue (h : Inv xs s arr d content moved) {c : Resize} {old : ℕ}
    (hr : s.resize = .storeQueue c old) :
    ∃ a, Inv xs { s with queue := c.arr, resize := .unlockProducer old } a 0 moved [] := by
  have hdrained : s.resize.drained := by rw [hr]; rfl
  have hctx : s.resize.ctx = some c := by rw [hr]; rfl
  have hidle := h.resizer_idle fun c hc => by rw [hr] at hc; cases hc
  have hnil := h.drained hdrained
  have hnew := h.new c hctx
  have hold := h.old_eq c old hr
  have hzero : s.consumer = 0 := h.indexStored (by rw [hr]; rfl)
  obtain ⟨a, ha, hasize, hslots⟩ := hnew.heap
  have hempty : ∀ i, i < arr.size → arr.slot i = none := fun i hi =>
    SlotRing.Holds.slot_eq_none (hnil ▸ h.ring) hi
  -- a place before the store, with the old array, is one after it
  have hharmless : ∀ i, i < arr.size →
      State.Harmless { s with queue := c.arr, resize := .unlockProducer old } s.queue i :=
    fun i hi => ⟨.inr (.inl (by rw [hold])), arr, h.cur, hi, hempty i hi⟩
  have hline : State.line { s with queue := c.arr, resize := .unlockProducer old } [] moved =
      s.line moved content := by
    show s.returned ++ _ ++ [] ++ (s.call .resizer).inflight ++ [] ++ moved = _
    rw [State.line, hr, hidle, hnil]
    simp [ResizePc.inHand, Pc.inflight]
  refine ⟨a, ?_⟩
  exact
    { cur := ha
      ring := by
        refine ⟨hasize ▸ hnew.pos, by rw [hasize, hnew.length]; exact hnew.producer_le,
          fun k hk => ?_⟩
        rw [Nat.zero_add, Nat.mod_eq_of_lt hk, hslots]
      queue_lt := hnew.lt
      size_eq := fun _ => (h.size_new (by rw [hr]; rfl) c hctx).trans hasize.symm
      size_new := fun hs => by cases hs
      new := fun c hc => by cases hc
      moved_nil := fun _ => rfl
      drained := fun hs => by cases hs
      indexStored := fun hs => by cases hs
      old_eq := fun c old hs => by cases hs
      stale_ne := fun q hq => by
        rcases hq with hq | hq
        · cases hq
          exact hold ▸ hnew.ne.symm
        · cases hq
      index := fun _ => hzero.trans (Nat.zero_mod _).symm
      locked := h.locked
      drain := fun hready => absurd hready (Pc.not_ready_idle hidle)
      call := fun t => by
        cases t with
        | resizer => exact callOk_of_not_inSection (congrArg Pc.inSection hidle)
        | consumer =>
          show CallOk _ _ _ _ _ (s.call .consumer)
          have hidx : s.consumer = 0 % a.size := hzero.trans (Nat.zero_mod _).symm
          have hwaits := h.waits hdrained
          generalize s.call .consumer = pc at hwaits
          cases hwaits with
          | idle => trivial
          | lock => trivial
          | peek => exact hidx
          | peekQueue =>
            exact ⟨hidx, .inr ⟨rfl, hharmless 0 h.ring.pos, hzero, .inl (by rw [hold])⟩⟩
          | peekIndex => exact ⟨hidx, fun ht => by cases ht⟩
          | loadSlot _ hlt => exact ⟨hidx, .inr ⟨rfl, hharmless _ hlt⟩⟩
          | unlock => exact ⟨hidx, fun ht => by cases ht⟩
      pending := fun t ptr hptr => by
        have hptr : (s.call t).pending = some ptr := hptr
        cases t with
        | resizer =>
          rw [hidle] at hptr
          cases hptr
        | consumer =>
          rw [h.not_drained (Pc.taking_of_pending hptr)] at hdrained
          cases hdrained
      taking := fun _ => rfl
      order := hline ▸ h.order
      perm := by
        rw [hline]
        exact h.perm }

/-- A step after the new `queue` is stored. -/
theorem Inv.afterStore (h : Inv xs s arr d content moved) (hr : s.resize.drained = false)
    (hctx : s.resize.ctx = none) {producerLock : Option Thread} {heap : ℕ → Option (Arr E)}
    {next : ResizePc E} (hcur : heap s.queue = some arr)
    (hnext : next = .idle ∨ ∃ q, next = .free q)
    (hstale : ∀ q, next = .free q → s.Stale q)
    (hcall : CallOk { s with producerLock := producerLock, heap := heap, resize := next }
      arr.size d content .consumer (s.call .consumer)) :
    Inv xs { s with producerLock := producerLock, heap := heap, resize := next }
      arr d content moved := by
  have hne : ∀ c, s.resize ≠ .drain c := fun c hc => by rw [hc] at hctx; cases hctx
  have hidle := h.resizer_idle hne
  have hmoved := h.moved_nil hctx
  have hhand : s.resize.inHand = [] := by
    cases hres : s.resize <;> first | rfl | (rw [hres] at hctx; cases hctx)
  have hline : State.line { s with producerLock := producerLock, heap := heap, resize := next }
      moved content = s.line moved content := by
    have hnextHand : next.inHand = [] := by rcases hnext with rfl | ⟨q, rfl⟩ <;> rfl
    rw [State.line, State.line, hhand, hnextHand]
  have hout : State.Outside s
      { s with producerLock := producerLock, heap := heap, resize := next } :=
    ⟨rfl, rfl, rfl, rfl, le_rfl, congrArg Pc.inSection hidle⟩
  refine h.outside hout hne hcur h.ring id (fun _ => ?_)
    (fun hs => ?_) (fun c hc => ?_) (fun _ => hmoved) (fun hs => ?_) (fun hs => ?_)
    (fun c old hs => ?_) (fun q hq => ?_)
    (fun hready => absurd hready (Pc.not_ready_idle hidle)) hcall (fun _ => ?_)
    (hline ▸ List.Sublist.refl _) (by rw [hline])
  · refine h.size_eq ?_
    cases hres : s.resize <;> rw [hres] at hr <;> first | rfl | cases hr
  · rcases hnext with rfl | ⟨q, rfl⟩ <;> cases hs
  · rcases hnext with rfl | ⟨q, rfl⟩ <;> cases hc
  · rcases hnext with rfl | ⟨q, rfl⟩ <;> cases hs
  · rcases hnext with rfl | ⟨q, rfl⟩ <;> cases hs
  · rcases hnext with rfl | ⟨q, rfl⟩ <;> cases hs
  · rcases hq with rfl | rfl
    · rcases hnext with heq | ⟨q, heq⟩ <;> cases heq
    · exact h.stale_ne q (hstale q rfl)
  · rcases hnext with rfl | ⟨q, rfl⟩ <;> rfl

/-- The resize releases the producer's lock. -/
theorem Inv.unlockProducer (h : Inv xs s arr d content moved) {old : ℕ}
    (hr : s.resize = .unlockProducer old) :
    Inv xs { s with producerLock := none, resize := .free old } arr d content moved := by
  have hstale : ∀ q, s.Stale q → q = old := by
    rintro q (hq | hq) <;> (rw [hr] at hq; cases hq)
    rfl
  exact h.afterStore (by rw [hr]; rfl) (by rw [hr]; rfl) h.cur (.inr ⟨old, rfl⟩)
    (fun q hq => by cases hq; exact .inl hr)
    ((h.call .consumer).mono rfl rfl (fun q hq => .inr (by rw [hstale q hq])) (fun _ _ => rfl)
      fun _ => rfl)

/-- The old array is freed when the consumer does not hold it. -/
theorem Inv.free (h : Inv xs s arr d content moved) {old : ℕ} (hr : s.resize = .free old)
    (hunread : (s.call .consumer).unread ≠ some old) :
    Inv xs { s with heap := Function.update s.heap old none, resize := .idle } arr d content
      moved := by
  have hne : old ≠ s.queue := h.stale_ne old (.inr hr)
  have hheap : ∀ q, q ≠ old → Function.update s.heap old none q = s.heap q := fun q hq =>
    Function.update_of_ne hq ..
  have hstale : ∀ q, s.Stale q → q = old := by
    rintro q (hq | hq) <;> (rw [hr] at hq; cases hq)
    rfl
  refine h.afterStore (by rw [hr]; rfl) (by rw [hr]; rfl) ((hheap _ hne.symm).trans h.cur)
    (.inl rfl) (fun q hq => by cases hq) ?_
  -- an array that the consumer has loaded is the current one
  have hcall := h.call .consumer
  generalize s.call .consumer = pc at hcall hunread
  cases pc with
  | peekQueue q =>
    obtain ⟨hidx, hq | ⟨-, -, -, hq⟩⟩ := hcall
    · exact ⟨hidx, .inl hq⟩
    · exact absurd (congrArg some (hstale _ hq)) hunread
  | loadSlot q i =>
    obtain ⟨hidx, ⟨hq, hi, -⟩ | ⟨ht, hq, a, ha, hslot⟩⟩ := hcall
    · exact ⟨hidx, .inl ⟨hq, hi, rfl⟩⟩
    · rcases hq with rfl | hq
      · exact ⟨hidx, .inr ⟨ht, .inl rfl, a, (hheap _ hne.symm).trans ha, hslot⟩⟩
      · exact absurd (congrArg some (hstale _ hq)) hunread
  | unlock ret => cases ret <;> exact hcall
  | _ => exact hcall

/-! ## All steps -/

/-- The consumer starts a call. -/
theorem Inv.consume (h : Inv xs s arr d content moved) (hpc : s.call .consumer = .idle) :
    Inv xs (s.goto .consumer .lock) arr d content moved := by
  have hresizer : Function.update s.call .consumer .lock .resizer = s.call .resizer :=
    Function.update_of_ne (by decide) ..
  have hline : (s.goto .consumer .lock).line moved content = s.line moved content := by
    show s.returned ++ [] ++ moved ++ (Function.update s.call .consumer .lock .resizer).inflight ++
      s.resize.inHand ++ content = _
    rw [hresizer, State.line, hpc]
    rfl
  exact
    { h with
      new := fun c hc => { h.new c hc with }
      locked := fun t => by
        show (Function.update s.call .consumer .lock t).inSection ↔ s.consumerLock = some t
        rw [← h.locked]
        cases t with
        | consumer => rw [hpc]; exact Iff.rfl
        | resizer => rw [hresizer]
      drain := fun hready => h.drain (hresizer ▸ hready)
      call := fun t => by
        show CallOk _ _ _ _ t (Function.update s.call .consumer .lock t)
        cases t with
        | consumer => trivial
        | resizer => rw [hresizer]; exact h.call .resizer
      pending := fun t ptr hptr => by
        have hptr : (Function.update s.call .consumer .lock t).pending = some ptr := hptr
        cases t with
        | consumer => cases hptr
        | resizer =>
          rw [hresizer] at hptr
          exact h.pending .resizer ptr hptr
      taking := fun htaken => by cases htaken
      order := hline ▸ h.order
      perm := by
        rw [hline]
        exact h.perm }

/-- **Every step of the resize keeps the invariant.** -/
theorem Inv.resizeStep (h : Inv xs s arr d content moved) {first : Bool}
    (hok : raceOk s (.run .resizer first)) (hs : s.advanceResize first = some s') :
    ∃ arr d content moved, Inv xs s' arr d content moved := by
  unfold State.advanceResize at hs
  cases hr : s.resize with
  | idle =>
    rw [hr] at hs
    cases hs
  | lockProducer c =>
    rw [hr] at hs
    obtain ⟨-, hs⟩ := Option.ite_none_right_eq_some.mp hs
    cases hs
    exact ⟨_, _, _, _, h.lockProducer hr⟩
  | drain c =>
    rw [hr] at hs
    exact h.move (move_of_advance hs) fun ht => by cases ht
  | move c ptr =>
    rw [hr] at hs
    simp only [raceOk, hr] at hok
    dsimp only at hs
    split_ifs at hs with hroom hdestroy
    · obtain ⟨s₁, hstore, rfl⟩ := Option.map_eq_some_iff.mp hs
      obtain ⟨a, ha, rfl⟩ := store_eq_some hstore
      exact ⟨_, _, _, _, h.moveOne hr hroom ha⟩
    · cases hs
      exact ⟨_, _, _, _, h.destroyOne hr⟩
    · -- the guard: what does not fit is destroyed
      simp [hroom, hdestroy] at hok
  | storeSize c =>
    rw [hr] at hs
    cases hs
    exact ⟨_, _, _, _, h.storeField (by rw [hr]; rfl) rfl (by rw [hr]; rfl) id
      (fun hz => by cases hz) (fun _ c' hc => by cases hc; rfl) (fun hz => by cases hz)
      fun c' old hz => by cases hz⟩
  | storeProducer c =>
    rw [hr] at hs
    cases hs
    have hctx : s.resize.ctx = some c := by rw [hr]; rfl
    exact ⟨_, _, _, _, h.storeField (by rw [hr]; rfl) rfl (by rw [hr]; rfl) id
      (fun hz => by cases hz) (fun _ c' hc => h.size_stored (by rw [hr]; rfl) hctx hc)
      (fun hz => by cases hz) fun c' old hz => by cases hz⟩
  | storeConsumer c =>
    rw [hr] at hs
    cases hs
    have hctx : s.resize.ctx = some c := by rw [hr]; rfl
    -- the ring is empty, so it may be taken to start at the new index
    exact ⟨_, 0, _, _, h.storeField (by rw [hr]; rfl) rfl (by rw [hr]; rfl)
      (fun _ => (Nat.zero_mod _).symm) (fun hz => by cases hz)
      (fun _ c' hc => h.size_stored (by rw [hr]; rfl) hctx hc) (fun _ => rfl)
      fun c' old hz => by cases hz⟩
  | loadOld c =>
    rw [hr] at hs
    cases hs
    have hctx : s.resize.ctx = some c := by rw [hr]; rfl
    exact ⟨_, _, _, _, h.storeField (by rw [hr]; rfl) rfl (by rw [hr]; rfl) id
      (fun hz => by cases hz) (fun _ c' hc => h.size_stored (by rw [hr]; rfl) hctx hc)
      (fun _ => h.indexStored (by rw [hr]; rfl)) fun c' old hz => by cases hz; rfl⟩
  | storeQueue c old =>
    rw [hr] at hs
    cases hs
    obtain ⟨a, hinv⟩ := h.storeQueue hr
    exact ⟨_, _, _, _, hinv⟩
  | unlockProducer old =>
    rw [hr] at hs
    cases hs
    exact ⟨_, _, _, _, h.unlockProducer hr⟩
  | free old =>
    rw [hr] at hs
    cases hs
    simp only [raceOk, hr, bne_iff_ne] at hok
    exact ⟨_, _, _, _, h.free hr hok⟩

/-- **Every step that meets the guard keeps the invariant.** -/
theorem Inv.step {cacheBytes : ℕ} {a : Action} (h : Inv xs s arr d content moved)
    (hok : raceOk s a) (hs : raceStep cacheBytes s a = some s') :
    ∃ arr d content moved, Inv xs s' arr d content moved := by
  cases a with
  | resize size kzalloc destroy =>
    obtain ⟨hready, hs⟩ := Option.ite_none_right_eq_some.mp hs
    cases hs
    have hr : s.resize = .idle := by
      cases hres : s.resize <;> rw [hres] at hready <;> first | rfl | cases hready
    cases kzalloc with
    | true => exact ⟨_, _, _, _, h.alloc cacheBytes (of_decide_eq_true hok) destroy hr⟩
    | false => exact ⟨_, _, _, _, h⟩
  | consume =>
    obtain ⟨hready, hs⟩ := Option.ite_none_right_eq_some.mp hs
    cases hs
    have hpc : s.call .consumer = .idle := by
      cases hc : s.call .consumer <;> rw [hc] at hready <;> first | rfl | cases hready
    exact ⟨_, _, _, _, h.consume hpc⟩
  | run t first =>
    cases t with
    | consumer => exact h.move (move_of_advance hs) fun _ => hok
    | resizer => exact h.resizeStep hok hs

/-- The pointers in the new slots, read off the memory. -/
theorem Inv.moved_eq (h : Inv xs s arr d content moved) : s.moved = moved := by
  unfold State.moved
  cases hc : s.resize.ctx with
  | none => exact (h.moved_nil hc).symm
  | some c =>
    have hnew := h.new c hc
    obtain ⟨a, ha, -, hslots⟩ := hnew.heap
    dsimp only
    rw [ha, ← hnew.length]
    simp only [Option.bind_some, hslots]
    exact SlotRing.filterMap_getElem? moved le_rfl

/-- The invariant gives the exact delivery of the pointers. -/
theorem Inv.delivers (h : Inv xs s arr d content moved) : Delivers xs s where
  read_ok q i hpc := by
    have hcall := h.call .consumer
    rw [hpc] at hcall
    obtain ⟨hidx, ⟨rfl, rfl, -⟩ | ⟨-, -, a, ha, hi, -⟩⟩ := hcall
    · exact ⟨arr, h.cur, hidx ▸ Nat.mod_lt d h.ring.pos⟩
    · exact ⟨a, ha, hi⟩
  kept := by
    refine ⟨arr, d, content, h.cur, h.ring, h.index, ?_⟩
    rw [h.moved_eq]
    exact ⟨h.order, h.perm⟩

end

/-- The invariant of a ring that nobody uses yet. -/
theorem inv_start {r : PtrRing E} {xs : List E} (h : Holds r xs) :
    Inv xs (raceStart r) ⟨r.size, r.slots, r.queue⟩ r.consumer xs [] where
  cur := rfl
  ring := h.ring
  queue_lt := Nat.one_pos
  size_eq _ := rfl
  size_new hs := by cases hs
  new c hc := by cases hc
  moved_nil _ := rfl
  drained hs := by cases hs
  indexStored hs := by cases hs
  old_eq c old hs := by cases hs
  stale_ne q hq := by rcases hq with hq | hq <;> cases hq
  index _ := (Nat.mod_eq_of_lt h.consumer_lt).symm
  locked t := iff_of_false Bool.false_ne_true fun heq => by cases heq
  drain hready := by cases hready
  call t := trivial
  pending t ptr hptr := by cases hptr
  taking _ := rfl
  order := List.Sublist.refl _
  perm := by
    show (xs ++ []).Perm xs
    rw [List.append_nil]

/-- **A resize that is kept apart from the consumer loses nothing**: in every run from a reachable
ring whose steps all meet the guard, the pointers leave the ring in order, each is returned,
destroyed or still on its way, and the consumer reads slots of arrays that are not freed. -/
theorem race_delivers {cacheBytes n : ℕ} {r₀ r : PtrRing E} (hn : 0 < n)
    (hinit : ptrRingInit cacheBytes n true = .ok r₀)
    (hring : Reachable (PtrRing.step cacheBytes) (fun _ op => op.sized) r₀ r) {s : State E}
    (hreach : Reachable (raceStep cacheBytes) (fun s a => raceOk s a) (raceStart r) s) :
    Delivers r.contents s := by
  obtain ⟨xs, hholds⟩ := holds_of_reachable hn hinit hring
  rw [hholds.contents]
  have hinv : ∃ arr d content moved, Inv xs s arr d content moved := by
    refine hreach.invariant (P := fun s => ∃ arr d content moved, Inv xs s arr d content moved)
      ⟨_, _, _, _, inv_start hholds⟩ ?_
    rintro s a s' ⟨arr, d, content, moved, hinv⟩ hok hs
    exact hinv.step hok hs
  obtain ⟨arr, d, content, moved, hinv⟩ := hinv
  exact hinv.delivers

/-- `n` steps of a running call. -/
def runs (t : Thread) (n : ℕ) : List Action := List.replicate n (.run t true)

/-- The consumer takes a pointer, and the resize moves the other one. -/
theorem race_delivers_moved :
    ∃ (r : PtrRing ℕ) (s : State ℕ), s.returned = [1] ∧ s.moved = [2] ∧ Delivers r.contents s := by
  obtain ⟨r, hr, hrun⟩ : ∃ r, runOk (PtrRing.step 64) (fun _ op => op.sized) two
      [.call (.produce 1), .call (.produce 2)] = some r ∧
      (runOk (raceStep 64) (fun s a => raceOk s a) (raceStart r)
        (.consume :: runs .consumer 11 ++ .resize 3 true false :: runs .resizer 14)).any
          fun s => s.returned = [1] ∧ s.moved = [2] := ⟨_, rfl, by decide +kernel⟩
  obtain ⟨s, hs, hend⟩ := (Option.any_eq_true _ _).mp hrun
  obtain ⟨hreturned, hmoved⟩ := of_decide_eq_true hend
  exact ⟨r, s, hreturned, hmoved, race_delivers (by decide)
    (show ptrRingInit 64 2 true = .ok two from rfl) (reachable_of_runOk hr) (reachable_of_runOk hs)⟩

/-- **A resize that is not kept apart from the consumer breaks the order and frees what the consumer
reads**: the consumer takes the second of two pointers while the first one is in the new slots, and
it loads the old `queue` before the resize frees it and reads the slot after. -/
theorem race_breaks_two :
    ∃ r, Reachable (PtrRing.step 64) (fun _ op => op.sized) two r ∧ r.contents = [1, 2] ∧
      (∃ s, Reachable (raceStep 64) (fun _ _ => True) (raceStart r) s ∧ s.returned = [2, 1] ∧
        ¬ Delivers r.contents s) ∧
      ∃ s, Reachable (raceStep 64) (fun _ _ => True) (raceStart r) s ∧
        s.call .consumer = .loadSlot 0 0 ∧ (s.heap 0).isNone ∧ ¬ Delivers r.contents s := by
  obtain ⟨r, hr, hcontents, horder, hfreed⟩ : ∃ r,
      runOk (PtrRing.step 64) (fun _ op => op.sized) two
        [.call (.produce 1), .call (.produce 2)] = some r ∧
      r.contents = [1, 2] ∧
      (runOk (raceStep 64) (fun _ _ => True) (raceStart r)
        (.resize 3 true false :: runs .resizer 13 ++ .consume :: runs .consumer 12 ++
          runs .resizer 12 ++ .consume :: runs .consumer 11)).any
            (fun s => s.returned = [2, 1]) ∧
      (runOk (raceStep 64) (fun _ _ => True) (raceStart r)
        (.resize 3 true false :: runs .resizer 31 ++ .consume :: runs .consumer 2 ++
          runs .resizer 7 ++ runs .consumer 1)).any
            (fun s => s.call .consumer = .loadSlot 0 0 ∧ (s.heap 0).isNone) :=
    ⟨_, rfl, by decide, by decide +kernel, by decide +kernel⟩
  refine ⟨r, reachable_of_runOk hr, hcontents, ?_, ?_⟩
  · obtain ⟨s, hs, hend⟩ := (Option.any_eq_true _ _).mp horder
    have hreturned := of_decide_eq_true hend
    refine ⟨s, reachable_of_runOk hs, hreturned, fun h => ?_⟩
    obtain ⟨arr, d, content, -, -, -, hsub, -⟩ := h.kept
    have hsub : [2, 1].Sublist r.contents := by
      rw [← hreturned]
      refine List.Sublist.trans ?_ hsub
      simp only [State.line, List.append_assoc]
      exact List.sublist_append_left ..
    rw [hcontents] at hsub
    revert hsub
    decide
  · obtain ⟨s, hs, hend⟩ := (Option.any_eq_true _ _).mp hfreed
    obtain ⟨hcall, hnone⟩ := of_decide_eq_true hend
    refine ⟨s, reachable_of_runOk hs, hcall, hnone, fun h => ?_⟩
    obtain ⟨a, ha, -⟩ := h.read_ok 0 0 hcall
    rw [ha] at hnone
    cases hnone

end PtrRing.Race
