import Mathlib.Data.Fintype.Option
import PrototypeKernel.AlfQueue.ConcurrencyTest

/-! # No assertion of the concurrency test fires

Until the queue has taken a batch, its producer holds the next serial numbers; what the consumer
has validated is the start of what the queue has taken. -/

namespace AlfQueue.ConcurrencyTest

open ReserveRing TransitionSystem KernelInt

/-! ## Calls of the queue -/

/-- Where producer `p` is in a call, when the queue has taken `n` of its data and its counter is at
`cnt`: until the batch is taken the array holds the next numbers, and the counter is a batch
ahead. -/
def Enqueuing (p : Fin nrProducers) (n : ℕ) (cnt : UInt32) : Pc UInt32 MyData → Prop
  | .loadHead .producer req ptr | .loadTail .producer req ptr .. =>
      req = UInt32.ofNat bulk ∧ cnt = UInt32.ofNat (n + bulk) ∧
        ∀ j, j < bulk → ptr j = numbered p (n + j)
  | .swapHead .producer b _ =>
      b.req = UInt32.ofNat bulk ∧ b.len = UInt32.ofNat bulk ∧ cnt = UInt32.ofNat (n + bulk) ∧
        ∀ j, j < bulk → b.ptr j = numbered p (n + j)
  | .copy .producer b _ | .waitTail .producer b | .storeTail .producer b =>
      b.len = UInt32.ofNat bulk ∧ cnt = UInt32.ofNat n
  | .returned .producer _ code =>
      (code = 0 ∧ cnt = UInt32.ofNat (n + bulk)) ∨ (code = bulk ∧ cnt = UInt32.ofNat n)
  | _ => False

/-- Where the consumer is in a call, when it has validated all data but that of its last batch. -/
def Dequeuing (validated received : List MyData) : Pc UInt32 MyData → Prop
  | .loadHead .consumer req _ | .loadTail .consumer req .. =>
      req = UInt32.ofNat bulk ∧ received = validated
  | .swapHead .consumer b _ | .copy .consumer b _ | .waitTail .consumer b
  | .storeTail .consumer b =>
      b.req = UInt32.ofNat bulk ∧ b.len.toNat ≤ bulk ∧ received = validated
  | .returned .consumer ptr code =>
      ∃ n : ℕ, n ≤ bulk ∧ code = n ∧ received = validated ++ (List.range n).map ptr
  | _ => False

section Calls

variable {q : AlfQueue MyData} {r r' : State Thread UInt32 MyData}

/-- A step inside a queue moves one call. -/
theorem pc_of_run {i : Thread} (hs : step q.discipline (fun _ => none) r (.run i) = some r') :
    ∀ i', i' ≠ i → r'.pc i' = r.pc i' := by
  intro i' hi
  cases move_of_step hs with
  | spin => rfl
  | @transfer i sd b k slot j hpc hget =>
    cases sd <;> exact State.goto_pc_of_ne _ hi _
  | _ => exact State.goto_pc_of_ne _ hi _

/-- A thread that takes a step is inside a call. -/
theorem not_ready_of_run {i : Thread}
    (hs : step q.discipline (fun _ => none) r (.run i) = some r') : (r.pc i).ready = false := by
  cases move_of_step hs with
  | _ => simp only [*, Pc.ready]

/-- The test asks for batches only. -/
theorem call_calls (i : Thread) (sd : Side) (ptr : ℕ → MyData) :
    (Action.call i sd (UInt32.ofNat bulk) ptr).Calls fun n => n ≠ 0 :=
  show UInt32.ofNat bulk ≠ 0 by decide

/-- **A step of a producer inside the queue** takes its batch or leaves the stream alone. -/
theorem Enqueuing.step {p : Fin nrProducers} {n : ℕ} {cnt : UInt32}
    (h : Enqueuing p n cnt (r.pc (some p)))
    (hs : ReserveRing.step q.discipline (fun _ => none) r (.run (some p)) = some r') :
    r'.received = r.received ∧
      ((r'.sent = r.sent ∧ Enqueuing p n cnt (r'.pc (some p))) ∨
        ∃ objs : ℕ → MyData, r'.sent = r.sent ++ (List.range bulk).map objs ∧
          (∀ j, j < bulk → objs j = numbered p (n + j)) ∧
          Enqueuing p (n + bulk) cnt (r'.pc (some p))) := by
  cases move_of_step hs with
  | @loadHead i sd req ptr hpc =>
    rw [hpc] at h
    cases sd with
    | consumer => exact h.elim
    | producer => exact ⟨rfl, .inl ⟨rfl, by rw [State.goto_pc_self]; exact h⟩⟩
  | @refused i sd req ptr head since code hpc hgrant =>
    rw [hpc] at h
    cases sd with
    | consumer => exact h.elim
    | producer =>
      simp only [discipline] at hgrant
      split at hgrant <;> cases hgrant
      exact ⟨rfl, .inl ⟨rfl, by rw [State.goto_pc_self]; exact .inl ⟨rfl, h.2.1⟩⟩⟩
  | @granted i sd req ptr head since len hpc hgrant =>
    rw [hpc] at h
    cases sd with
    | consumer => exact h.elim
    | producer =>
      simp only [discipline] at hgrant
      split at hgrant <;> cases hgrant
      exact ⟨rfl, .inl ⟨rfl, by rw [State.goto_pc_self]; exact ⟨h.1, h.1, h.2⟩⟩⟩
  | @reserve i sd b since hpc hgo =>
    rw [hpc] at h
    cases sd with
    | consumer => exact h.elim
    | producer =>
      obtain ⟨-, hlen, hcnt, hptr⟩ := h
      refine ⟨rfl, .inr ⟨b.ptr, ?_, hptr, ?_⟩⟩
      · rw [State.goto, State.reserve, Batch.ptrs, hlen]
        rfl
      · rw [State.goto_pc_self]
        exact ⟨hlen, hcnt⟩
  | @retry i sd b since hpc hgo =>
    rw [hpc] at h
    cases sd with
    | consumer => exact h.elim
    | producer => exact ⟨rfl, .inl ⟨rfl, by rw [State.goto_pc_self]; exact ⟨h.1, h.2.2⟩⟩⟩
  | @transfer i sd b k slot j hpc hget =>
    rw [hpc] at h
    cases sd with
    | consumer => exact h.elim
    | producer => exact ⟨rfl, .inl ⟨rfl, by rw [State.transfer, State.goto_pc_self]; exact h⟩⟩
  | @copied i sd b k hpc hget =>
    rw [hpc] at h
    cases sd with
    | consumer => exact h.elim
    | producer => exact ⟨rfl, .inl ⟨rfl, by rw [State.goto_pc_self]; exact h⟩⟩
  | @waited i sd b hpc htail =>
    rw [hpc] at h
    cases sd with
    | consumer => exact h.elim
    | producer => exact ⟨rfl, .inl ⟨rfl, by rw [State.goto_pc_self]; exact h⟩⟩
  | @spin i sd b hpc htail => exact ⟨rfl, .inl ⟨rfl, h⟩⟩
  | @publish i sd b hpc =>
    rw [hpc] at h
    cases sd with
    | consumer => exact h.elim
    | producer =>
      obtain ⟨hlen, hcnt⟩ := h
      refine ⟨rfl, .inl ⟨rfl, ?_⟩⟩
      rw [State.goto_pc_self, discipline, hlen]
      exact .inr ⟨rfl, hcnt⟩

/-- **A step of the consumer inside the queue** leaves the stream alone, and returns the data that
it has received. -/
theorem Dequeuing.step {validated : List MyData} (h : Dequeuing validated r.received (r.pc none))
    (hs : ReserveRing.step q.discipline (fun _ => none) r (.run none) = some r') :
    r'.sent = r.sent ∧ Dequeuing validated r'.received (r'.pc none) := by
  cases move_of_step hs with
  | @loadHead i sd req ptr hpc =>
    rw [hpc] at h
    cases sd with
    | producer => exact h.elim
    | consumer => exact ⟨rfl, by rw [State.goto_pc_self]; exact h⟩
  | @refused i sd req ptr head since code hpc hgrant =>
    rw [hpc] at h
    cases sd with
    | producer => exact h.elim
    | consumer =>
      simp only [discipline] at hgrant
      split at hgrant <;> cases hgrant
      refine ⟨rfl, ?_⟩
      rw [State.goto_pc_self]
      refine ⟨0, Nat.zero_le _, rfl, ?_⟩
      rw [List.range_zero, List.map_nil, List.append_nil]
      exact h.2
  | @granted i sd req ptr head since len hpc hgrant =>
    rw [hpc] at h
    cases sd with
    | producer => exact h.elim
    | consumer =>
      simp only [discipline] at hgrant
      split at hgrant <;> cases hgrant
      refine ⟨rfl, ?_⟩
      rw [State.goto_pc_self]
      refine ⟨h.1, ?_, h.2⟩
      rw [toNat_min, h.1]
      exact Nat.min_le_right ..
  | @reserve i sd b since hpc hgo =>
    rw [hpc] at h
    cases sd with
    | producer => exact h.elim
    | consumer => exact ⟨rfl, by rw [State.goto_pc_self]; exact h⟩
  | @retry i sd b since hpc hgo =>
    rw [hpc] at h
    cases sd with
    | producer => exact h.elim
    | consumer => exact ⟨rfl, by rw [State.goto_pc_self]; exact ⟨h.1, h.2.2⟩⟩
  | @transfer i sd b k slot j hpc hget =>
    rw [hpc] at h
    cases sd with
    | producer => exact h.elim
    | consumer => exact ⟨rfl, by rw [State.transfer, State.goto_pc_self]; exact h⟩
  | @copied i sd b k hpc hget =>
    rw [hpc] at h
    cases sd with
    | producer => exact h.elim
    | consumer => exact ⟨rfl, by rw [State.goto_pc_self]; exact h⟩
  | @waited i sd b hpc htail =>
    rw [hpc] at h
    cases sd with
    | producer => exact h.elim
    | consumer => exact ⟨rfl, by rw [State.goto_pc_self]; exact h⟩
  | @spin i sd b hpc htail => exact ⟨rfl, h⟩
  | @publish i sd b hpc =>
    rw [hpc] at h
    cases sd with
    | producer => exact h.elim
    | consumer =>
      obtain ⟨-, hlen, hreceived⟩ := h
      have h8 : bulk = 8 := rfl
      refine ⟨rfl, ?_⟩
      rw [State.goto_pc_self]
      refine ⟨b.len.toNat, hlen, intOfU32_eq (by omega), ?_⟩
      show r.received ++ b.ptrs = _
      rw [hreceived]
      rfl

end Calls

/-! ## The invariant -/

/-- What is known of producer `p`, when the queue has taken `n` of its data. -/
def ProducerOk (p : Fin nrProducers) (n : ℕ) (me : Producer) (pc : Pc UInt32 MyData) : Prop :=
  match me.place with
  | .notStarted => n = 0 ∧ pc.ready
  | .waiting => me.data = numbered p n ∧ pc.ready
  | .enqueue _ retries _ =>
      retries = 0 ∧ me.data.id = UInt32.ofNat p ∧ Enqueuing p n me.data.cnt pc
  | .bug => False

/-- What is known of the consumer, when it has validated all data but that of its last batch. -/
def ConsumerOk (validated received : List MyData) (me : Consumer) (pc : Pc UInt32 MyData) : Prop :=
  match me.place with
  | .notStarted | .resting => received = validated ∧ pc.ready
  | .dequeue _ => Dequeuing validated received pc
  | .bug _ => False

/-- **The invariant of the test.** -/
structure Inv (q : AlfQueue MyData) (s : Test) : Prop where
  /-- The queue is used as the queue is used by any callers. -/
  ring : Reachable (step q.discipline fun _ => none)
    (fun s a => s.Windowed (fun _ => none) ∧ a.Calls fun n => n ≠ 0) q.start s.ring
  numbered : Numbered s.ring.sent
  /-- The producers are started in order. -/
  notStarted : ∀ p : Fin nrProducers, s.init ≤ nrProducers + 1 + p →
    (s.producer p).place = .notStarted
  producer : ∀ p, ProducerOk p (dataOf p s.ring.sent).length (s.producer p) (s.ring.pc (some p))
  unstarted : s.init = 0 → s.consumer.place = .notStarted
  /-- A counter that has been set is one less than the next number. -/
  consumer : ∃ validated, ConsumerOk validated s.ring.received s.consumer (s.ring.pc none) ∧
    ∀ p : Fin nrProducers, p + 1 < s.init →
      s.consumer.prodCnt p + 1 = UInt32.ofNat (dataOf p validated).length

/-- Before the first producer is started, nothing is sent. -/
theorem Inv.sent_eq_nil {q : AlfQueue MyData} {s : Test} (h : Inv q s)
    (hinit : s.init ≤ nrProducers + 1) : s.ring.sent = [] := by
  apply List.eq_nil_iff_forall_not_mem.mpr
  intro data hdata
  have hid := h.numbered.id_lt data hdata
  have hmem : data ∈ dataOf ⟨data.id.toNat, hid⟩ s.ring.sent :=
    List.mem_filter.mpr ⟨hdata, decide_eq_true (UInt32.ofNat_toNat ..).symm⟩
  have hplace := h.notStarted ⟨data.id.toNat, hid⟩ (Nat.le_trans hinit (Nat.le_add_right ..))
  have hproducer := h.producer ⟨data.id.toNat, hid⟩
  rw [ProducerOk, hplace] at hproducer
  rw [List.length_eq_zero_iff.mp hproducer.1] at hmem
  exact List.not_mem_nil hmem

/-- What the consumer receives is what was sent. -/
theorem Inv.received_first {q : AlfQueue MyData} {s : Test} {kzalloc : Bool}
    (halloc : alfQueueAlloc ⟨0, 0⟩ queueSize kzalloc = .ok q) (h : Inv q s) :
    s.ring.received <+: s.ring.sent := by
  have hreach := h.ring
  rw [start_of_alloc halloc] at hreach
  rw [(delivers_of_positive (wellSized_of_alloc halloc).lawful q.positive hreach).2.received_eq]
  exact List.take_prefix ..

/-- The invariant holds before the threads start. -/
theorem Inv.start {q : AlfQueue MyData} : Inv q (start q) where
  ring := .refl
  numbered := Numbered.nil
  notStarted _ _ := rfl
  producer _ := ⟨rfl, rfl⟩
  unstarted _ := rfl
  consumer := ⟨[], ⟨rfl, rfl⟩, fun _ h => absurd h (Nat.not_lt_zero _)⟩

/-! ## Between the calls -/

/-- What a producer goes on with, at a place of which enough is known. -/
def ProducerOk.Resumed (p : Fin nrProducers) (n : ℕ) (pc : Pc UInt32 MyData)
    (r : Producer × Option (ℕ → MyData)) : Prop :=
  match r.2 with
  | none => ProducerOk p n r.1 pc
  | some objs => ProducerOk p n r.1 (.loadHead .producer (UInt32.ofNat bulk) objs)

/-- A producer whose counter is at its next number starts a round. -/
theorem ProducerOk.Resumed.round {p : Fin nrProducers} {n : ℕ} {pc : Pc UInt32 MyData}
    {me : Producer} (hdata : me.data = numbered p n) (hready : pc.ready) (j : ℕ) :
    ProducerOk.Resumed p n pc (me.round j) := by
  rw [Producer.round]
  split
  · refine ⟨rfl, congrArg MyData.id hdata, rfl, ?_, fun k _ => ?_⟩
    · show me.data.cnt + UInt32.ofNat bulk = UInt32.ofNat (n + bulk)
      rw [hdata, UInt32.ofNat_add]
      rfl
    · show (⟨me.data.id, me.data.cnt + UInt32.ofNat k⟩ : MyData) = numbered p (n + k)
      rw [hdata, numbered, numbered, UInt32.ofNat_add]
  · exact ⟨hdata, hready⟩

/-- **A call that has returned nothing is scrolled back**: there is no retry, as `retries_max` is
negative. -/
theorem ProducerOk.Resumed.returned {p : Fin nrProducers} {n : ℕ} {me : Producer} {j : ℕ}
    {objs ptr : ℕ → MyData} {code : ℤ} {sd : Side} (hid : me.data.id = UInt32.ofNat p)
    (h : Enqueuing p n me.data.cnt (.returned sd ptr code)) :
    ProducerOk.Resumed p n (.returned sd ptr code) (me.returned j 0 objs code) := by
  cases sd with
  | consumer => exact h.elim
  | producer =>
    obtain ⟨rfl, hcnt⟩ | ⟨rfl, hcnt⟩ := h
    · have hretry : ¬ (0 : ℤ) + 1 < retriesMax := by decide
      rw [Producer.returned, if_pos rfl, if_neg hretry]
      refine .round ?_ rfl _
      show (⟨me.data.id, me.data.cnt - UInt32.ofNat bulk⟩ : MyData) = numbered p n
      rw [hid, hcnt, UInt32.ofNat_add, UInt32.add_sub_cancel]
      rfl
    · have hbulk : (bulk : ℤ) ≠ 0 := by decide
      rw [Producer.returned, if_neg hbulk, if_neg (not_not_intro rfl)]
      exact .round (congrArg₂ MyData.mk hid hcnt) rfl _

/-- What the consumer goes on with. -/
def ConsumerOk.Resumed (validated received : List MyData) (pc : Pc UInt32 MyData)
    (deqObjs : ℕ → MyData) (r : Consumer × Bool) : Prop :=
  ConsumerOk validated received r.1
    (if r.2 then .loadHead .consumer (UInt32.ofNat bulk) deqObjs else pc)

/-- A new round of the consumer starts with what it has received so far. -/
theorem ConsumerOk.Resumed.round {received : List MyData} {pc : Pc UInt32 MyData}
    (hready : pc.ready) (me : Consumer) (deqObjs : ℕ → MyData) (j : ℕ) :
    ConsumerOk.Resumed received received pc deqObjs (me.round j) := by
  rw [Consumer.round]
  split
  · exact ⟨rfl, rfl⟩
  · exact ⟨rfl, hready⟩

/-- What has been validated was received first. -/
theorem ConsumerOk.validated_first {validated received : List MyData} {me : Consumer}
    {pc : Pc UInt32 MyData} (h : ConsumerOk validated received me pc) : validated <+: received := by
  rw [ConsumerOk] at h
  split at h
  · rw [h.1]
  · rw [h.1]
  · rw [Dequeuing.eq_def] at h
    split at h
    · rw [h.2]
    · rw [h.2]
    · rw [h.2.2]
    · rw [h.2.2]
    · rw [h.2.2]
    · rw [h.2.2]
    · obtain ⟨n, -, -, h⟩ := h
      exact ⟨_, h.symm⟩
    · exact h.elim
  · exact h.elim

section Steps

variable {q : AlfQueue MyData} {s s' : Test}

/-- A producer that has been started goes on. -/
theorem Inv.producerStep (h : Inv q s) (hwin : s.ring.Windowed fun _ => none)
    {p : Fin nrProducers} {r : Producer × Option (ℕ → MyData)}
    (hinit : nrProducers + 1 + p < s.init) (hready : (s.ring.pc (some p)).ready)
    (hr : ProducerOk.Resumed p (dataOf p s.ring.sent).length (s.ring.pc (some p)) r)
    (hs : s.producerStep q p r = some s') : Inv q s' := by
  have hnot : ∀ p' : Fin nrProducers, s.init ≤ nrProducers + 1 + p' →
      (Function.update s.producer p r.1 p').place = .notStarted := by
    intro p' hp'
    have hne : p' ≠ p := by
      rintro rfl
      omega
    rw [Function.update_of_ne hne]
    exact h.notStarted p' hp'
  obtain ⟨me, ptr?⟩ := r
  cases ptr? with
  | none =>
    cases hs
    refine ⟨h.ring, h.numbered, hnot, fun p' => ?_, h.unstarted, h.consumer⟩
    show ProducerOk p' _ (Function.update s.producer p me p') (s.ring.pc (some p'))
    by_cases hp : p' = p
    · subst hp
      rw [Function.update_self]
      exact hr
    · rw [Function.update_of_ne hp]
      exact h.producer p'
  | some objs =>
    have hcall : ReserveRing.step q.discipline (fun _ => none) s.ring
        (.call (some p) .producer (UInt32.ofNat bulk) objs)
          = some (s.ring.goto (some p) (.loadHead .producer (UInt32.ofNat bulk) objs)) :=
      if_pos ⟨hready, .inl rfl⟩
    simp only [Test.producerStep, Test.call, hcall, Option.map_some, Option.some.injEq] at hs
    subst hs
    refine ⟨h.ring.tail ⟨hwin, call_calls _ _ _⟩ hcall, h.numbered, hnot, fun p' => ?_,
      h.unstarted, ?_⟩
    · show ProducerOk p' _ (Function.update s.producer p me p')
        ((s.ring.goto (some p) (.loadHead .producer (UInt32.ofNat bulk) objs)).pc (some p'))
      by_cases hp : p' = p
      · subst hp
        rw [Function.update_self, State.goto_pc_self]
        exact hr
      · rw [Function.update_of_ne hp, State.goto_pc_of_ne _ (by simpa using hp)]
        exact h.producer p'
    · show ∃ validated, ConsumerOk validated _ s.consumer
        ((s.ring.goto (some p) (.loadHead .producer (UInt32.ofNat bulk) objs)).pc none) ∧ _
      rw [State.goto_pc_of_ne _ (by simp)]
      exact h.consumer

/-- The consumer goes on, once it has been started. -/
theorem Inv.consumerStep (h : Inv q s) (hwin : s.ring.Windowed fun _ => none)
    {deqObjs : ℕ → MyData} {r : Consumer × Bool} {validated : List MyData} (hinit : s.init ≠ 0)
    (hready : (s.ring.pc none).ready)
    (hr : ConsumerOk.Resumed validated s.ring.received (s.ring.pc none) deqObjs r)
    (hcnt : ∀ p : Fin nrProducers, p + 1 < s.init →
      r.1.prodCnt p + 1 = UInt32.ofNat (dataOf p validated).length)
    (hs : s.consumerStep q deqObjs r = some s') : Inv q s' := by
  obtain ⟨me, goesOn⟩ := r
  cases goesOn with
  | false =>
    cases hs
    exact ⟨h.ring, h.numbered, h.notStarted, h.producer, fun h0 => absurd h0 hinit,
      validated, hr, hcnt⟩
  | true =>
    have hcall : ReserveRing.step q.discipline (fun _ => none) s.ring
        (.call none .consumer (UInt32.ofNat bulk) deqObjs)
          = some (s.ring.goto none (.loadHead .consumer (UInt32.ofNat bulk) deqObjs)) :=
      if_pos ⟨hready, .inl rfl⟩
    simp only [Test.consumerStep, Test.call, hcall, Option.map_some, Option.some.injEq,
      if_true] at hs
    subst hs
    refine ⟨h.ring.tail ⟨hwin, call_calls _ _ _⟩ hcall, h.numbered, h.notStarted, fun p => ?_,
      fun h0 => absurd h0 hinit, validated, ?_, hcnt⟩
    · show ProducerOk p _ (s.producer p)
        ((s.ring.goto none (.loadHead .consumer (UInt32.ofNat bulk) deqObjs)).pc (some p))
      rw [State.goto_pc_of_ne _ (by simp)]
      exact h.producer p
    · show ConsumerOk validated _ me
        ((s.ring.goto none (.loadHead .consumer (UInt32.ofNat bulk) deqObjs)).pc none)
      rw [State.goto_pc_self]
      exact hr

/-- **The consumer validates a batch.** Before the first producer is started the batch is empty;
from then on all counters are set. -/
theorem Inv.returned {kzalloc : Bool} (halloc : alfQueueAlloc ⟨0, 0⟩ queueSize kzalloc = .ok q)
    (h : Inv q s) (hwin : s.ring.Windowed fun _ => none) {j : ℕ} {sd : Side} {ptr : ℕ → MyData}
    {code : ℤ} (hplace : s.consumer.place = .dequeue j)
    (hpc : s.ring.pc none = .returned sd ptr code)
    (hs : s.consumerStep q ptr (s.consumer.returned j ptr code) = some s') : Inv q s' := by
  have hinit : s.init ≠ 0 := fun h0 => by
    have hnot := h.unstarted h0
    rw [hplace] at hnot
    cases hnot
  have hready : (s.ring.pc none).ready := by
    rw [hpc]
    rfl
  obtain ⟨validated, hok, hcnt⟩ := h.consumer
  rw [ConsumerOk, hplace, hpc] at hok
  cases sd with
  | producer => exact hok.elim
  | consumer =>
    obtain ⟨n, -, rfl, hreceived⟩ := hok
    rw [Consumer.returned, Int.toNat_natCast] at hs
    by_cases hn : (n : ℤ) = 0
    · obtain rfl : n = 0 := Int.ofNat_eq_zero.mp hn
      rw [if_pos hn] at hs
      rw [List.range_zero, List.map_nil, List.append_nil] at hreceived
      have hrest : ConsumerOk.Resumed validated s.ring.received (s.ring.pc none) ptr
          ({ s.consumer with place := .resting }, false) := ⟨hreceived, hready⟩
      exact h.consumerStep hwin hinit hready hrest hcnt hs
    · rw [if_neg hn] at hs
      have hfirst := h.received_first halloc
      have hset : nrProducers + 1 < s.init := by
        by_contra hle
        rw [h.sent_eq_nil (by omega), List.prefix_nil, hreceived, List.append_eq_nil_iff] at hfirst
        apply hn
        simpa using hfirst.2
      have hall : ∀ p : Fin nrProducers,
          s.consumer.prodCnt p + 1 = UInt32.ofNat (dataOf p validated).length := by
        intro p
        have := p.isLt
        exact hcnt p (by omega)
      rw [hreceived] at hfirst
      obtain ⟨prodCnt, hvalid, hall⟩ := validate_ok h.numbered hfirst hall
      rw [hvalid] at hs
      rw [← hreceived] at hall
      refine h.consumerStep hwin hinit hready (ConsumerOk.Resumed.round hready _ _ _) ?_ hs
      intro p _
      rw [Consumer.round]
      split <;> exact hall p

/-- **The init function** starts the consumer, sets its counters and starts the producers. -/
theorem Inv.initStep {kzalloc : Bool} (halloc : alfQueueAlloc ⟨0, 0⟩ queueSize kzalloc = .ok q)
    (h : Inv q s) (hs : s.initStep = some s') : Inv q s' := by
  have h3 : nrProducers = 3 := rfl
  rw [Test.initStep] at hs
  split at hs
  · rename_i h0
    cases hs
    obtain ⟨validated, hok, -⟩ := h.consumer
    rw [ConsumerOk, h.unstarted h0] at hok
    exact ⟨h.ring, h.numbered, fun p _ => h.notStarted p (by omega), h.producer,
      fun h1 => absurd h1 one_ne_zero, validated, hok, fun p hp => absurd hp (by simp)⟩
  · rename_i h0
    split at hs
    · rename_i hk
      cases hs
      refine ⟨h.ring, h.numbered, fun p hp => h.notStarted p (Nat.le_of_succ_le hp), h.producer,
        fun h1 => absurd h1 (Nat.succ_ne_zero _), ?_⟩
      obtain ⟨validated, hok, hcnt⟩ := h.consumer
      refine ⟨validated, hok, fun p hp => ?_⟩
      show Function.update s.consumer.prodCnt ⟨s.init - 1, hk⟩ u32Max p + 1 = _
      by_cases hp' : p = ⟨s.init - 1, hk⟩
      · -- nothing has been received yet, and the counter wraps around to 0
        have hfirst := hok.validated_first.trans (h.received_first halloc)
        rw [h.sent_eq_nil (by omega), List.prefix_nil] at hfirst
        have hwrap : u32Max + 1 = UInt32.ofNat 0 := by decide
        rw [hp', Function.update_self, hfirst]
        exact hwrap
      · rw [Function.update_of_ne hp']
        have hne : (p : ℕ) ≠ s.init - 1 := fun heq => hp' (Fin.ext heq)
        have hlt : (p : ℕ) + 1 < s.init + 1 := hp
        exact hcnt p (by omega)
    · rename_i hk
      split at hs
      · rename_i hk'
        cases hs
        have hplace := h.notStarted ⟨s.init - 1 - nrProducers, hk'⟩ (by
          show s.init ≤ nrProducers + 1 + (s.init - 1 - nrProducers)
          omega)
        refine ⟨h.ring, h.numbered, fun p hp => ?_, fun p => ?_,
          fun h1 => absurd h1 (Nat.succ_ne_zero _), ?_⟩
        · have hle : s.init + 1 ≤ nrProducers + 1 + p := hp
          have hne : p ≠ ⟨s.init - 1 - nrProducers, hk'⟩ := by
            rintro rfl
            simp only at hle
            omega
          show (Function.update s.producer _ _ p).place = _
          rw [Function.update_of_ne hne]
          exact h.notStarted p (by omega)
        · show ProducerOk p _ (Function.update s.producer ⟨s.init - 1 - nrProducers, hk'⟩ _ p) _
          have hproducer := h.producer p
          by_cases hp : p = ⟨s.init - 1 - nrProducers, hk'⟩
          · rw [← hp] at hplace
            rw [ProducerOk, hplace] at hproducer
            rw [← hp, Function.update_self, hproducer.1, ProducerOk, hp]
            exact ⟨rfl, hp ▸ hproducer.2⟩
          · rw [Function.update_of_ne hp]
            exact hproducer
        · obtain ⟨validated, hok, hcnt⟩ := h.consumer
          refine ⟨validated, hok, fun p _ => hcnt p ?_⟩
          have := p.isLt
          omega
      · cases hs

/-- **A step inside the queue** is one of a producer in its round, or of the consumer. -/
theorem Inv.queueStep (h : Inv q s) (hwin : s.ring.Windowed fun _ => none) {i : Thread}
    {r' : State Thread UInt32 MyData}
    (hs : ReserveRing.step q.discipline (fun _ => none) s.ring (.run i) = some r') :
    Inv q { s with ring := r' } := by
  have hcalls : (Action.run i : Action Thread UInt32 MyData).Calls fun n => n ≠ 0 := trivial
  have hring := h.ring.tail ⟨hwin, hcalls⟩ hs
  have hbusy := not_ready_of_run hs
  have hpc := pc_of_run hs
  cases i with
  | none =>
    obtain ⟨validated, hok, hcnt⟩ := h.consumer
    rw [ConsumerOk] at hok
    split at hok
    · rw [hok.2] at hbusy
      cases hbusy
    · rw [hok.2] at hbusy
      cases hbusy
    · rename_i hplace
      obtain ⟨hsent, hok⟩ := Dequeuing.step hok hs
      refine ⟨hring, ?_, h.notStarted, fun p => ?_, h.unstarted, validated, ?_, hcnt⟩
      · show Numbered r'.sent
        rw [hsent]
        exact h.numbered
      · show ProducerOk p (dataOf p r'.sent).length (s.producer p) (r'.pc (some p))
        rw [hsent, hpc (some p) (by simp)]
        exact h.producer p
      · show ConsumerOk validated r'.received s.consumer (r'.pc none)
        rw [ConsumerOk, hplace]
        exact hok
    · exact hok.elim
  | some p =>
    have hok := h.producer p
    rw [ProducerOk] at hok
    split at hok
    · rw [hok.2] at hbusy
      cases hbusy
    · rw [hok.2] at hbusy
      cases hbusy
    · rename_i hplace
      obtain ⟨hretries, hid, hok⟩ := hok
      obtain ⟨hreceived, hstep⟩ := Enqueuing.step hok hs
      have hconsumer : ∃ validated, ConsumerOk validated r'.received s.consumer (r'.pc none) ∧
          ∀ p : Fin nrProducers, p + 1 < s.init →
            s.consumer.prodCnt p + 1 = UInt32.ofNat (dataOf p validated).length := by
        rw [hreceived, hpc none (by simp)]
        exact h.consumer
      obtain ⟨hsent, hok⟩ | ⟨objs, hsent, hobjs, hok⟩ := hstep
      · refine ⟨hring, ?_, h.notStarted, fun p' => ?_, h.unstarted, hconsumer⟩
        · show Numbered r'.sent
          rw [hsent]
          exact h.numbered
        · show ProducerOk p' (dataOf p' r'.sent).length (s.producer p') (r'.pc (some p'))
          rw [hsent]
          by_cases hp : p' = p
          · subst hp
            rw [ProducerOk, hplace]
            exact ⟨hretries, hid, hok⟩
          · rw [hpc (some p') (by simpa using hp)]
            exact h.producer p'
      · obtain ⟨hnumbered, hlength⟩ := h.numbered.append hobjs
        refine ⟨hring, ?_, h.notStarted, fun p' => ?_, h.unstarted, hconsumer⟩
        · show Numbered r'.sent
          rw [hsent]
          exact hnumbered
        · show ProducerOk p' (dataOf p' r'.sent).length (s.producer p') (r'.pc (some p'))
          rw [hsent, hlength]
          by_cases hp : p' = p
          · subst hp
            rw [if_pos rfl, ProducerOk, hplace]
            exact ⟨hretries, hid, hok⟩
          · rw [if_neg hp, hpc (some p') (by simpa using hp)]
            exact h.producer p'
    · exact hok.elim

/-- **Every step keeps the invariant.** -/
theorem Inv.step {kzalloc : Bool} (halloc : alfQueueAlloc ⟨0, 0⟩ queueSize kzalloc = .ok q)
    (h : Inv q s) (hwin : s.ring.Windowed fun _ => none) {a : Act} (hs : s.step q a = some s') :
    Inv q s' := by
  cases a with
  | init => exact h.initStep halloc hs
  | queue i =>
    rw [Test.step, Option.map_eq_some_iff] at hs
    obtain ⟨r', hr, rfl⟩ := hs
    exact h.queueStep hwin hr
  | producer p =>
    have hok := h.producer p
    -- a producer that has a place has been started
    have hinit : (s.producer p).place ≠ .notStarted → nrProducers + 1 + p < s.init := fun hne => by
      by_contra hle
      exact hne (h.notStarted p (Nat.le_of_not_lt hle))
    rw [ProducerOk] at hok
    rw [Test.step] at hs
    split at hs
    · cases hs
    · cases hs
    · rename_i hplace
      rw [hplace] at hok hinit
      split at hs
      · exact h.producerStep hwin (hinit nofun) hok.2 (.round hok.1 hok.2 0) hs
      · cases hs
    · rename_i j retries objs hplace
      rw [hplace] at hok hinit
      split at hs
      · rename_i sd ptr n hpc
        obtain ⟨rfl, hid, hok⟩ := hok
        rw [hpc] at hok
        refine h.producerStep hwin (hinit nofun) (by rw [hpc]; rfl) ?_ hs
        rw [hpc]
        exact .returned hid hok
      · cases hs
  | consumer deqObjs =>
    rw [Test.step] at hs
    split at hs
    · cases hs
    · cases hs
    · rename_i hplace
      have h' : Inv q { s with dequeueStart := true } :=
        ⟨h.ring, h.numbered, h.notStarted, h.producer, h.unstarted, h.consumer⟩
      have hinit : s.init ≠ 0 := fun h0 => by
        have hnot := h.unstarted h0
        rw [hplace] at hnot
        cases hnot
      obtain ⟨validated, hok, hcnt⟩ := h.consumer
      rw [ConsumerOk, hplace] at hok
      obtain ⟨rfl, hready⟩ := hok
      refine h'.consumerStep hwin hinit hready (.round hready _ _ _) ?_ hs
      intro p hp
      rw [Consumer.round]
      split <;> exact hcnt p hp
    · rename_i j hplace
      split at hs
      · rename_i sd ptr n hpc
        exact h.returned halloc hwin hplace hpc hs
      · cases hs

end Steps

/-- **No assertion of the test fires.** In every order of the accesses, no producer and no consumer
reaches a `BUG`: the data of each producer goes into the queue with the numbers 0, 1, 2, and so on,
without a gap for the batches that found no room, and what comes out is the start of it. The threads
never stop, so the run is `Windowed`: no reserve loop is open while an index advances by
`2 ^ 31`. -/
theorem no_assertion_fires {kzalloc : Bool} {q : AlfQueue MyData}
    (halloc : alfQueueAlloc ⟨0, 0⟩ queueSize kzalloc = .ok q) {s : Test}
    (hreach : Reachable (Test.step q) (fun s _ => s.ring.Windowed fun _ => none) (start q) s) :
    (∀ p, (s.producer p).place ≠ .bug) ∧ (∀ fault, s.consumer.place ≠ .bug fault) ∧
      Numbered s.ring.sent ∧ s.ring.received <+: s.ring.sent := by
  have hinv : Inv q s :=
    hreach.invariant Inv.start fun s a s' h hwin hs => Inv.step halloc h hwin hs
  refine ⟨fun p hbug => ?_, fun fault hbug => ?_, hinv.numbered, hinv.received_first halloc⟩
  · have hok := hinv.producer p
    rw [ProducerOk, hbug] at hok
    exact hok
  · obtain ⟨validated, hok, -⟩ := hinv.consumer
    rw [ConsumerOk, hbug] at hok
    exact hok

/-- The queue of the test. -/
def mpmc : AlfQueue MyData :=
  ⟨queueSize, queueSize - 1, 0, ⟨0, 0⟩, ⟨0, 0⟩, fun _ => ⟨0, 0⟩⟩

instance : NeZero nrProducers := ⟨by decide⟩

/-- The consumer finds the queue empty once. Then producers `p` and `p'` race for the first slots;
`p'` is late with its swap of the head, and waits for the tail of `p`. The consumer validates both
batches, and `p` is in its second round. -/
def race (p p' : Fin nrProducers) : List Act :=
  let deq := Act.consumer fun _ => ⟨0, 0⟩
  List.replicate 7 .init ++ deq :: List.replicate 2 (.queue none) ++
  [deq, .producer p, .producer p', .queue (some p'), .queue (some p'), .queue (some p),
    .queue (some p), .queue (some p)] ++
  List.replicate 14 (.queue (some p')) ++ List.replicate 11 (.queue (some p)) ++
  List.replicate 2 (.queue (some p')) ++
  [.producer p, deq] ++ List.replicate 14 (.queue none) ++
  deq :: List.replicate 14 (.queue none) ++ [deq]

/-- A run in which two producers race and the consumer validates both batches. -/
theorem no_assertion_fires_race :
    ∃ s, runOk (Test.step mpmc) (fun s _ => s.ring.Windowed fun _ => none) (start mpmc)
        (race 1 0) = some s ∧
      (∀ p, s.consumer.prodCnt p = if p = 2 then u32Max else 7) ∧ s.ring.received.length = 16 ∧
      (∀ p, (s.producer p).place ≠ .bug) ∧ (∀ fault, s.consumer.place ≠ .bug fault) ∧
      Numbered s.ring.sent ∧ s.ring.received <+: s.ring.sent := by
  have hrun : (runOk (Test.step mpmc) (fun s _ => s.ring.Windowed fun _ => none) (start mpmc)
      (race 1 0)).any (fun s => (∀ p, s.consumer.prodCnt p = if p = 2 then u32Max else 7) ∧
        s.ring.received.length = 16) := by decide +kernel
  obtain ⟨s, hs, hcnt⟩ := (Option.any_eq_true _ _).mp hrun
  obtain ⟨hcnt, hreceived⟩ := of_decide_eq_true hcnt
  exact ⟨s, hs, hcnt, hreceived, no_assertion_fires
    (show alfQueueAlloc ⟨0, 0⟩ queueSize true = .ok mpmc from rfl) (reachable_of_runOk hs)⟩

end AlfQueue.ConcurrencyTest
