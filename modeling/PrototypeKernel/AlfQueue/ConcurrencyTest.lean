import PrototypeKernel.AlfQueue.Concurrent

/-! # The concurrency test

`alf_queue_concurrency_test.c`: producers enqueue their id with a serial number that increases by
one, and a single consumer stops the machine when a serial number is not the next one of its
producer. The three threads of the producers, the one of the consumer and the init function that
starts them interleave at every access to the queue.

What is only printed or measured is left out. -/

namespace AlfQueue.ConcurrencyTest

open ReserveRing TransitionSystem KernelInt

/-! ## Constants -/

/-- `NR_PRODUCERS`. -/
def nrProducers : ℕ := 3

/-- `QUEUE_SIZE`. -/
def queueSize : UInt32 := 2048

/-- `PRODUCER_BULK` and `CONSUMER_BULK`. -/
def bulk : ℕ := 8

/-- `PRODUCER_ELEMS_ENQ / PRODUCER_BULK`, the rounds of `alf_run_producer()`. -/
def producerLoops : ℕ := 1000 / bulk

/-- The rounds of `alf_run_consumer()`. -/
def consumerLoops : ℕ := 100000 / bulk

/-- `U32_MAX`. -/
def u32Max : UInt32 := 4294967295

/-- `retries_max` of `alf_run_producer()`, an `int`. -/
def retriesMax : ℤ := intOfU32 u32Max

/-! ## Threads -/

/-- `struct my_data`, which is passed as the pointer itself. -/
structure MyData where
  id : UInt32
  cnt : UInt32
  deriving DecidableEq, Repr

/-- The threads: the producers, and the consumer as `none`. -/
abbrev Thread := Option (Fin nrProducers)

/-- The place of a producer thread outside the queue. -/
inductive ProducerPlace where
  | notStarted
  /-- In `wait_for_completion()`. -/
  | waiting
  /-- In `alf_mp_enqueue()` of round `j`. -/
  | enqueue (j : ℕ) (retries : ℤ) (objs : ℕ → MyData)
  /-- `BUG_ON(n != PRODUCER_BULK)`. -/
  | bug

/-- `struct my_producer` and its thread. -/
structure Producer where
  data : MyData
  place : ProducerPlace

/-- The assertion of the consumer, and an index past the end of `prod_cnt`. -/
inductive Fault where
  | notNext
  | overrun
  deriving DecidableEq, Repr

/-- The place of the consumer thread outside the queue. -/
inductive ConsumerPlace where
  | notStarted
  /-- About to run `alf_run_consumer()`. -/
  | resting
  /-- In `alf_mc_dequeue()` of round `j`. -/
  | dequeue (j : ℕ)
  | bug (fault : Fault)

/-- `struct my_consumer` and its thread. -/
structure Consumer where
  prodCnt : Fin nrProducers → UInt32
  place : ConsumerPlace

/-- The state of the test: the queue with its callers, the number of steps that the init function
has made, whether `dequeue_start` is completed, and the threads. -/
structure Test where
  ring : State Thread UInt32 MyData
  init : ℕ
  dequeueStart : Bool
  producer : Fin nrProducers → Producer
  consumer : Consumer

/-! ## The producers -/

/-- Round `j` of `alf_run_producer()` up to its call, with the array for it, or the end of the
rounds. -/
def Producer.round (me : Producer) (j : ℕ) : Producer × Option (ℕ → MyData) :=
  if j < producerLoops then
    -- the data is stored with its counter increased in each iteration
    let objs := fun i => { me.data with cnt := me.data.cnt + UInt32.ofNat i }
    (⟨{ me.data with cnt := me.data.cnt + UInt32.ofNat bulk }, .enqueue j 0 objs⟩, some objs)
  else ({ me with place := .waiting }, none)

/-- `alf_run_producer()` from the return of `alf_mp_enqueue()` in round `j` on, up to the next
call. -/
def Producer.returned (me : Producer) (j : ℕ) (retries : ℤ) (objs : ℕ → MyData) (n : ℤ) :
    Producer × Option (ℕ → MyData) :=
  if n = 0 then
    if retries + 1 < retriesMax then ({ me with place := .enqueue j (retries + 1) objs }, some objs)
    -- scroll back the counter
    else { me with data.cnt := me.data.cnt - UInt32.ofNat bulk }.round (j + 1)
  else if n ≠ bulk then ({ me with place := .bug }, none)
  else me.round (j + 1)

/-! ## The consumer -/

/-- The validation of dequeued data. -/
def validate (prodCnt : Fin nrProducers → UInt32) :
    List MyData → Except Fault (Fin nrProducers → UInt32)
  | [] => .ok prodCnt
  | data :: rest =>
      if h : data.id.toNat < nrProducers then
        let predict := prodCnt ⟨data.id.toNat, h⟩ + 1
        if predict ≠ data.cnt then .error .notNext
        else validate (Function.update prodCnt ⟨data.id.toNat, h⟩ data.cnt) rest
      else .error .overrun

/-- Round `j` of `alf_run_consumer()` up to its call, or the end of the rounds. -/
def Consumer.round (me : Consumer) (j : ℕ) : Consumer × Bool :=
  if j < consumerLoops then ({ me with place := .dequeue j }, true)
  else ({ me with place := .resting }, false)

/-- `alf_run_consumer()` from the return of `alf_mc_dequeue()` in round `j` on, up to the next
call. -/
def Consumer.returned (me : Consumer) (j : ℕ) (deqObjs : ℕ → MyData) (n : ℤ) : Consumer × Bool :=
  if n = 0 then ({ me with place := .resting }, false)
  else
    match validate me.prodCnt ((List.range n.toNat).map deqObjs) with
    | .error fault => ({ me with place := .bug fault }, false)
    | .ok prodCnt => { me with prodCnt := prodCnt }.round (j + 1)

/-! ## Steps -/

/-- What happens next: a step of the init function, a step of a thread inside the queue, or one
outside. The array of a dequeue starts with some content. -/
inductive Act where
  | init
  | queue (i : Thread)
  | producer (p : Fin nrProducers)
  | consumer (deqObjs : ℕ → MyData)

/-- `alf_queue_concurrent_module_init()` behind the allocation, one store or thread at a time: the
consumer is started, then its counters are set, then the producers are started. -/
def Test.initStep (s : Test) : Option Test :=
  if s.init = 0 then
    some { s with init := 1, consumer.place := .resting }
  else if h : s.init - 1 < nrProducers then
    some { s with
      init := s.init + 1
      consumer.prodCnt := Function.update s.consumer.prodCnt ⟨s.init - 1, h⟩ u32Max }
  else if h : s.init - 1 - nrProducers < nrProducers then
    some { s with
      init := s.init + 1
      producer := Function.update s.producer ⟨s.init - 1 - nrProducers, h⟩
        ⟨⟨UInt32.ofNat (s.init - 1 - nrProducers), 0⟩, .waiting⟩ }
  else none

/-- Thread `i` calls the queue. -/
def Test.call (s : Test) (q : AlfQueue MyData) (i : Thread) (sd : Side) (ptr : ℕ → MyData) :
    Option Test :=
  (step q.discipline (fun _ => none) s.ring (.call i sd (UInt32.ofNat bulk) ptr)).map fun ring =>
    { s with ring := ring }

/-- Producer `p` goes on with `r.1`, and calls the queue if there is an array for it. -/
def Test.producerStep (s : Test) (q : AlfQueue MyData) (p : Fin nrProducers)
    (r : Producer × Option (ℕ → MyData)) : Option Test :=
  let s := { s with producer := Function.update s.producer p r.1 }
  match r.2 with
  | none => some s
  | some objs => s.call q (some p) .producer objs

/-- The consumer goes on with `r.1`, and calls the queue with its array if it is to. -/
def Test.consumerStep (s : Test) (q : AlfQueue MyData) (deqObjs : ℕ → MyData)
    (r : Consumer × Bool) : Option Test :=
  let s := { s with consumer := r.1 }
  if r.2 then s.call q none .consumer deqObjs else some s

/-- The step function of the test. -/
def Test.step (q : AlfQueue MyData) (s : Test) : Act → Option Test
  | .init => s.initStep
  | .queue i =>
      (ReserveRing.step q.discipline (fun _ => none) s.ring (.run i)).map fun ring =>
        { s with ring := ring }
  | .producer p =>
      match (s.producer p).place with
      | .notStarted | .bug => none
      | .waiting =>
          if s.dequeueStart then s.producerStep q p ((s.producer p).round 0) else none
      | .enqueue j retries objs =>
          match s.ring.pc (some p) with
          | .returned _ _ n =>
              s.producerStep q p ((s.producer p).returned j retries objs n)
          | _ => none
  | .consumer deqObjs =>
      match s.consumer.place with
      | .notStarted | .bug _ => none
      | .resting =>
          { s with dequeueStart := true }.consumerStep q deqObjs (s.consumer.round 0)
      | .dequeue j =>
          match s.ring.pc none with
          | .returned _ ptr n => s.consumerStep q ptr (s.consumer.returned j ptr n)
          | _ => none

/-- The test before its init function, with an allocated queue. -/
def start (q : AlfQueue MyData) : Test where
  ring := q.start
  init := 0
  dequeueStart := false
  producer _ := ⟨⟨0, 0⟩, .notStarted⟩
  consumer := ⟨fun _ => 0, .notStarted⟩

/-! ## Serial numbers -/

/-- Number `n` of producer `p`. -/
def numbered (p : Fin nrProducers) (n : ℕ) : MyData := ⟨UInt32.ofNat p, UInt32.ofNat n⟩

/-- The data of producer `p`. -/
def dataOf (p : Fin nrProducers) (xs : List MyData) : List MyData :=
  xs.filter fun data => data.id = UInt32.ofNat p

/-- **Each producer's data has the numbers 0, 1, 2, and so on.** -/
structure Numbered (xs : List MyData) : Prop where
  id_lt : ∀ data ∈ xs, data.id.toNat < nrProducers
  eq : ∀ p, dataOf p xs = (List.range (dataOf p xs).length).map (numbered p)

/-- The number of a producer fits in its `u32`. -/
theorem toNat_ofNat (p : Fin nrProducers) : (UInt32.ofNat p).toNat = p := by
  have hp := p.isLt
  have h3 : nrProducers = 3 := rfl
  rw [UInt32.toNat_ofNat', Nat.mod_eq_of_lt (by omega)]

/-- Producers with different numbers are told apart by their `u32`. -/
theorem ofNat_inj {p p' : Fin nrProducers} : UInt32.ofNat p = UInt32.ofNat p' ↔ p = p' := by
  rw [← UInt32.toNat_inj, toNat_ofNat, toNat_ofNat, Fin.ext_iff]

/-- The data of a producer in two parts of a queue. -/
theorem dataOf_append (p : Fin nrProducers) (xs ys : List MyData) :
    dataOf p (xs ++ ys) = dataOf p xs ++ dataOf p ys := List.filter_append ..

/-- One datum is one of the producer that it is numbered for. -/
theorem length_dataOf_numbered (p p' : Fin nrProducers) (n : ℕ) :
    (dataOf p' [numbered p n]).length = if p' = p then 1 else 0 := by
  rw [dataOf, List.filter_singleton]
  by_cases hp : p' = p
  · simp [hp, numbered]
  · simp [hp, numbered, ofNat_inj, Ne.symm hp]

/-- No data are numbered. -/
theorem Numbered.nil : Numbered [] := ⟨fun _ h => absurd h List.not_mem_nil, fun _ => rfl⟩

/-- The data of a batch is that of one producer. -/
theorem dataOf_batch {p : Fin nrProducers} {n : ℕ} {objs : ℕ → MyData}
    (hobjs : ∀ j, j < bulk → objs j = numbered p (n + j)) (p' : Fin nrProducers) :
    dataOf p' ((List.range bulk).map objs)
      = if p' = p then (List.range bulk).map fun j => numbered p (n + j) else [] := by
  have hmap : (List.range bulk).map objs = (List.range bulk).map fun j => numbered p (n + j) :=
    List.map_congr_left fun j hj => hobjs j (List.mem_range.mp hj)
  rw [hmap, dataOf]
  by_cases hp : p' = p
  · subst hp
    rw [if_pos rfl, List.filter_eq_self]
    intro data hdata
    obtain ⟨j, -, rfl⟩ := List.mem_map.mp hdata
    exact decide_eq_true rfl
  · rw [if_neg hp, List.filter_eq_nil_iff]
    intro data hdata
    obtain ⟨j, -, rfl⟩ := List.mem_map.mp hdata
    simpa [numbered, ofNat_inj] using Ne.symm hp

/-- A batch with the next numbers of a producer. -/
theorem Numbered.append {xs : List MyData} (h : Numbered xs) {p : Fin nrProducers}
    {objs : ℕ → MyData}
    (hobjs : ∀ j, j < bulk → objs j = numbered p ((dataOf p xs).length + j)) :
    Numbered (xs ++ (List.range bulk).map objs) ∧
      ∀ p', (dataOf p' (xs ++ (List.range bulk).map objs)).length
        = (dataOf p' xs).length + if p' = p then bulk else 0 := by
  refine ⟨⟨fun data hdata => ?_, fun p' => ?_⟩, fun p' => ?_⟩
  · rcases List.mem_append.mp hdata with hdata | hdata
    · exact h.id_lt data hdata
    · obtain ⟨j, hj, rfl⟩ := List.mem_map.mp hdata
      rw [hobjs j (List.mem_range.mp hj), numbered, toNat_ofNat]
      exact p.isLt
  · rw [dataOf_append, dataOf_batch hobjs, List.length_append]
    by_cases hp : p' = p
    · subst hp
      rw [if_pos rfl, List.length_map, List.length_range, List.range_add, List.map_append,
        ← h.eq p', List.map_map]
      rfl
    · rw [if_neg hp, List.append_nil, List.length_nil, Nat.add_zero]
      exact h.eq p'
  · rw [dataOf_append, dataOf_batch hobjs, List.length_append]
    by_cases hp : p' = p
    · rw [if_pos hp, if_pos hp, List.length_map, List.length_range]
    · rw [if_neg hp, if_neg hp, List.length_nil]

/-- The data behind a prefix has the next number of its producer. -/
theorem Numbered.next {xs rest : List MyData} {data : MyData}
    (h : Numbered (xs ++ data :: rest)) :
    ∃ p, data = numbered p (dataOf p xs).length := by
  have hid : data.id.toNat < nrProducers := h.id_lt data (by simp)
  have hof : data.id = UInt32.ofNat (⟨data.id.toNat, hid⟩ : Fin nrProducers) :=
    (UInt32.ofNat_toNat ..).symm
  refine ⟨⟨data.id.toNat, hid⟩, ?_⟩
  have heq := h.eq ⟨data.id.toNat, hid⟩
  have hcons : dataOf ⟨data.id.toNat, hid⟩ (data :: rest)
      = data :: dataOf ⟨data.id.toNat, hid⟩ rest :=
    List.filter_cons_of_pos (decide_eq_true hof)
  rw [dataOf_append, hcons] at heq
  -- the entry behind those of the prefix
  have hget := congrArg (·[(dataOf ⟨data.id.toNat, hid⟩ xs).length]?) heq
  simpa using hget

/-- **The validation passes** on data that continues the numbers validated before. -/
theorem validate_ok {xs ds ys : List MyData} (hys : Numbered ys) (hfirst : xs ++ ds <+: ys)
    {prodCnt : Fin nrProducers → UInt32}
    (hcnt : ∀ p, prodCnt p + 1 = UInt32.ofNat (dataOf p xs).length) :
    ∃ prodCnt', validate prodCnt ds = .ok prodCnt' ∧
      ∀ p, prodCnt' p + 1 = UInt32.ofNat (dataOf p (xs ++ ds)).length := by
  induction ds generalizing xs prodCnt with
  | nil => exact ⟨prodCnt, rfl, by simpa using hcnt⟩
  | cons data ds ih =>
    obtain ⟨rest, hrest⟩ := hfirst
    have hwhole : Numbered (xs ++ data :: (ds ++ rest)) := by
      rw [← hrest, List.append_assoc] at hys
      exact hys
    obtain ⟨p, hdata⟩ := hwhole.next
    subst hdata
    have hid : (numbered p (dataOf p xs).length).id.toNat = p := toNat_ofNat p
    have hp : (⟨(numbered p (dataOf p xs).length).id.toNat, hid ▸ p.isLt⟩ : Fin nrProducers) = p :=
      Fin.ext hid
    have hnext : prodCnt p + 1 = (numbered p (dataOf p xs).length).cnt := hcnt p
    have hcnt' : ∀ p', Function.update prodCnt p (numbered p (dataOf p xs).length).cnt p' + 1
        = UInt32.ofNat (dataOf p' (xs ++ [numbered p (dataOf p xs).length])).length := by
      intro p'
      rw [dataOf_append, List.length_append, length_dataOf_numbered]
      by_cases hp' : p' = p
      · rw [hp', Function.update_self, if_pos rfl, UInt32.ofNat_add]
        rfl
      · rw [Function.update_of_ne hp', if_neg hp']
        exact hcnt p'
    obtain ⟨prodCnt', hvalid, hlast⟩ := ih ⟨rest, by simpa using hrest⟩ hcnt'
    refine ⟨prodCnt', ?_, by simpa using hlast⟩
    rw [validate, dif_pos (hid ▸ p.isLt)]
    simp only [hp, hnext, ne_eq, not_true_eq_false, if_false]
    exact hvalid

end AlfQueue.ConcurrencyTest
