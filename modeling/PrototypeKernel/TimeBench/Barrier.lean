import PrototypeKernel.TimeBench.Concurrent

/-! # The barriers of a concurrent benchmark

`nr_tests_running` counts the kthreads between their registration and their sign-off: `Inv.counter`.
Until `start_event` is completed none of them gets past `wait_for_completion()`, so the counter
reaches the number of tasks only when all of them wait there, and afterwards it reaches 0 only when
all of them have signed off. -/

namespace TimeBench

open TransitionSystem Tally

variable {N : ℕ} {M : Type*}

/-! ## Phases -/

/-- The thread is counted in `nr_tests_running`. -/
def Thread.counted : Thread → Bool
  | .await | .bench | .mark | .signOff => true
  | _ => false

/-- The thread has incremented `nr_tests_running`. -/
def Thread.registered : Thread → Bool
  | .await | .bench | .mark | .signOff | .asleep | .exited => true
  | _ => false

/-- The benchmark function has started. -/
def Thread.started : Thread → Bool
  | .bench | .mark | .signOff | .asleep | .exited => true
  | _ => false

/-- The benchmark function has returned and the thread has set `did_bench_run`. -/
def Thread.finished : Thread → Bool
  | .signOff | .asleep | .exited => true
  | _ => false

/-- The caller has reached the loop that stops the kthreads. -/
def Main.stopping : Main → Bool
  | .stop _ | .join _ | .done => true
  | _ => false

/-- `start_event` is initialised and not completed. -/
def Main.holding : Main → Bool
  | .setup .. | .create .. | .awaitStart _ | .kick => true
  | _ => false

/-- The phases in which CPU number `i` of the mask can be. -/
def Main.Allows (i : ℕ) (t : Thread) : Main → Prop
  | .reset | .initEvent => t = .absent
  | .setup k _ | .create k _ => if i < k then t.started = false ∧ t ≠ .absent else t = .absent
  | .awaitStart _ => t.started = false ∧ t ≠ .absent
  | .kick => t = .await
  | .awaitEnd => t.registered
  | .stop _ | .join _ | .done => t = .asleep ∨ t = .exited
  | .aborted => False

/-- What the loop variables of the caller are. -/
def Main.Ok (N : ℕ) : Main → Prop
  | .setup k running => k ≤ N ∧ running = k
  | .create k running => k < N ∧ running = k + 1
  | .awaitStart running => running = N
  | _ => True

/-! ## What a step can do -/

/-- From one phase to the next. -/
inductive Thread.Moves (event : Bool) : Thread → Thread → Prop
  | restrict : Moves event .restrict .register
  | register : Moves event .register .await
  | start : event = true → Moves event .await .bench
  | store : Moves event .bench .bench
  | benchReturn : Moves event .bench .mark
  | mark : Moves event .mark .signOff
  | signOff : Moves event .signOff .asleep
  | exit : Moves event .asleep .exited

/-- **What a step of the kthread on CPU `c` does.** -/
structure ThreadMove (c : Fin N) (s s' : State N M) : Prop where
  main : s'.main = s.main
  event : s'.startEvent = s.startEvent
  others : ∀ j, j ≠ c → s'.tasks j = s.tasks j
  moves : (s.tasks c).thread.Moves s.startEvent (s'.tasks c).thread
  counter : s'.nrTestsRunning + (s.tasks c).thread.counted.toNat
    = s.nrTestsRunning + (s'.tasks c).thread.counted.toNat
  marked : ((s.tasks c).thread.finished → (s.tasks c).didBenchRun) →
    (s'.tasks c).thread.finished → (s'.tasks c).didBenchRun
  record : (s.tasks c).thread ≠ .bench → (s'.tasks c).record = (s.tasks c).record

/-- The task of the CPU is the one that was set. -/
@[simp] theorem State.setTask_self (s : State N M) (c : Fin N) (t : CpuTask M) :
    (s.setTask c t).tasks c = t := Function.update_self ..

/-- The other tasks are left. -/
@[simp] theorem State.setTask_of_ne (s : State N M) {c j : Fin N} (t : CpuTask M) (h : j ≠ c) :
    (s.setTask c t).tasks j = s.tasks j := Function.update_of_ne h ..

/-- Setting a task leaves the main thread. -/
@[simp] theorem State.setTask_main (s : State N M) (c : Fin N) (t : CpuTask M) :
    (s.setTask c t).main = s.main := rfl

/-- Setting a task leaves the event. -/
@[simp] theorem State.setTask_startEvent (s : State N M) (c : Fin N) (t : CpuTask M) :
    (s.setTask c t).startEvent = s.startEvent := rfl

/-- Setting a task leaves the counter. -/
@[simp] theorem State.setTask_nrTestsRunning (s : State N M) (c : Fin N) (t : CpuTask M) :
    (s.setTask c t).nrTestsRunning = s.nrTestsRunning := rfl

/-- A step that gives CPU `c` the task `t` and the counter the value `nr`. -/
theorem threadMove_of {s : State N M} {c : Fin N} {t : CpuTask M} {nr : ℤ}
    (hmoves : (s.tasks c).thread.Moves s.startEvent t.thread)
    (hcounter : nr + (s.tasks c).thread.counted.toNat = s.nrTestsRunning + t.thread.counted.toNat)
    (hmarked : ((s.tasks c).thread.finished → (s.tasks c).didBenchRun) →
      t.thread.finished → t.didBenchRun)
    (hrecord : (s.tasks c).thread ≠ .bench → t.record = (s.tasks c).record) :
    ThreadMove c s { s.setTask c t with nrTestsRunning := nr } where
  main := rfl
  event := rfl
  others := fun j hj => State.setTask_of_ne s t hj
  moves := by simpa [State.setTask] using hmoves
  counter := by simpa [State.setTask] using hcounter
  marked := by simpa [State.setTask] using hmarked
  record := by simpa [State.setTask] using hrecord

/-- A step of a thread is one of its moves. -/
theorem threadMove_of_threadStep {s s' : State N M} {c : Fin N} (hs : s.threadStep c = some s') :
    ThreadMove c s s' := by
  unfold State.threadStep at hs
  cases hthread : (s.tasks c).thread with
  | restrict =>
    simp only [hthread] at hs
    cases hs
    exact threadMove_of (by rw [hthread]; exact .restrict) (by simp [hthread, Thread.counted])
      (by simp [Thread.finished]) fun _ => rfl
  | register =>
    simp only [hthread] at hs
    cases hs
    exact threadMove_of (by rw [hthread]; exact .register) (by simp [hthread, Thread.counted])
      (by simp [Thread.finished]) fun _ => rfl
  | await =>
    simp only [hthread] at hs
    split at hs
    · rename_i hevent
      cases hs
      exact threadMove_of (by rw [hthread]; exact .start hevent)
        (by simp [hthread, Thread.counted]) (by simp [Thread.finished]) fun _ => rfl
    · cases hs
  | mark =>
    simp only [hthread] at hs
    cases hs
    exact threadMove_of (by rw [hthread]; exact .mark) (by simp [hthread, Thread.counted])
      (by simp) fun _ => rfl
  | signOff =>
    simp only [hthread] at hs
    cases hs
    exact threadMove_of (by rw [hthread]; exact .signOff) (by simp [hthread, Thread.counted])
      (by simp [hthread, Thread.finished]) fun _ => rfl
  | asleep =>
    simp only [hthread] at hs
    split at hs
    · cases hs
      exact threadMove_of (by rw [hthread]; exact .exit) (by simp [hthread, Thread.counted])
        (by simp [hthread, Thread.finished]) fun _ => rfl
    · cases hs
  | absent | bench | exited =>
    simp only [hthread] at hs
    cases hs

/-- An action of a kthread. -/
theorem threadMove_of_step [Inhabited M] {cfg : Config N} {s s' : State N M} {a : Action N M}
    (hs : step cfg s a = some s') :
    (∃ c, ThreadMove c s s') ∨ ∃ b, a = .main b ∧ s.mainStep cfg b = some s' := by
  cases a with
  | main b => exact .inr ⟨b, rfl, hs⟩
  | thread c => exact .inl ⟨c, threadMove_of_threadStep hs⟩
  | benchStore c record =>
    simp only [step] at hs
    split at hs
    · rename_i hbench
      cases hs
      exact .inl ⟨c, threadMove_of (by rw [hbench]; exact .store) rfl (by simp)
        fun h => absurd hbench h⟩
    · cases hs
  | benchReturn c =>
    simp only [step] at hs
    split at hs
    · rename_i hbench
      cases hs
      exact .inl ⟨c, threadMove_of (by rw [hbench]; exact .benchReturn)
        (by simp [hbench, Thread.counted]) (by simp [Thread.finished]) fun _ => rfl⟩
    · cases hs

/-! ## The invariant -/

/-- **The counter, the event and the phases of the kthreads at each place of the caller.** -/
structure Inv (s : State N M) : Prop where
  main : s.main.Ok N
  allowed : ∀ c : Fin N, s.main.Allows c (s.tasks c).thread
  event : s.main.holding → s.startEvent = false
  counter : s.main ≠ .reset → s.nrTestsRunning = tally Thread.counted fun c => (s.tasks c).thread
  marked : ∀ c, (s.tasks c).thread.finished → (s.tasks c).didBenchRun

/-- A run starts with no kthread, and any counter, event and records. -/
def State.Entry (s : State N M) : Prop := s.main = .reset ∧ ∀ c, (s.tasks c).thread = .absent

/-- The invariant at the entry. -/
theorem State.Entry.inv {s : State N M} (h : s.Entry) : Inv s where
  main := by rw [h.1]; trivial
  allowed := fun c => by rw [h.1]; exact h.2 c
  event := fun hhold => by rw [h.1] at hhold; cases hhold
  counter := fun hne => absurd h.1 hne
  marked := fun c hfin => by rw [h.2 c] at hfin; cases hfin

/-- Each place of the caller allows the moves of the kthreads, as long as the event is not completed
too early. -/
theorem Main.Allows.moves {m : Main} {i : ℕ} {t t' : Thread} {event : Bool} (h : m.Allows i t)
    (hmoves : t.Moves event t') (hevent : m.holding → event = false) : m.Allows i t' := by
  cases m <;> cases hmoves <;>
    simp_all [Main.Allows, Main.holding, Thread.started, Thread.registered]

/-- A step of a kthread keeps the invariant. -/
theorem Inv.threadMove {c : Fin N} {s s' : State N M} (h : Inv s) (hm : ThreadMove c s s') :
    Inv s' where
  main := by rw [hm.main]; exact h.main
  allowed := by
    intro j
    rw [hm.main]
    by_cases hj : j = c
    · rw [hj]
      exact (h.allowed c).moves hm.moves h.event
    · rw [hm.others j hj]
      exact h.allowed j
  event := by rw [hm.main, hm.event]; exact h.event
  counter := by
    intro hne
    rw [hm.main] at hne
    have hold := h.counter hne
    have hcount := hm.counter
    -- the tally changes as the counter does
    have htally := tally_change (p := Thread.counted) (f := fun j => (s.tasks j).thread)
      (g := fun j => (s'.tasks j).thread) (i := c) fun j hj => by rw [hm.others j hj]
    omega
  marked := by
    intro j
    by_cases hj : j = c
    · rw [hj]
      exact hm.marked (h.marked c)
    · rw [hm.others j hj]
      exact h.marked j

/-- A step of the caller that leaves the kthreads and the counter alone. -/
theorem Inv.advance {s : State N M} (h : Inv s) {m : Main} {event : Bool}
    (hcounter : s.nrTestsRunning = tally Thread.counted fun c => (s.tasks c).thread)
    (hok : m.Ok N) (hallowed : ∀ c : Fin N, m.Allows c (s.tasks c).thread)
    (hevent : m.holding → event = false) : Inv { s with main := m, startEvent := event } where
  main := hok
  allowed := hallowed
  event := hevent
  counter := fun _ => hcounter
  marked := h.marked

/-- A step of the caller that sets a member of the task of CPU `c`, or starts its thread. -/
theorem Inv.setTask {s : State N M} (h : Inv s) {m : Main} {c : Fin N} {t : CpuTask M}
    (hcounter : s.nrTestsRunning = tally Thread.counted fun c => (s.tasks c).thread)
    (hok : m.Ok N) (hself : m.Allows c t.thread)
    (hothers : ∀ j : Fin N, j ≠ c → m.Allows j (s.tasks j).thread)
    (hevent : m.holding → s.startEvent = false)
    (hcounted : t.thread.counted = (s.tasks c).thread.counted)
    (hmarked : t.thread.finished → t.didBenchRun) : Inv { s.setTask c t with main := m } where
  main := hok
  allowed := by
    intro j
    by_cases hj : j = c
    · simpa [hj] using hself
    · simpa [hj] using hothers j hj
  event := hevent
  counter := by
    intro _
    have htally := tally_change (p := Thread.counted) (f := fun j => (s.tasks j).thread)
      (g := fun j => ((s.setTask c t).tasks j).thread) (i := c) fun j hj => by simp [hj]
    rw [State.setTask_self, hcounted, Nat.add_right_cancel_iff] at htally
    exact hcounter.trans (congrArg Nat.cast htally.symm)
  marked := by
    intro j
    by_cases hj : j = c
    · simpa [hj] using hmarked
    · simpa [hj] using h.marked j

/-- A thread that is counted and has not started waits for the event. -/
theorem Thread.eq_await {t : Thread} (hcounted : t.counted) (hstarted : t.started = false) :
    t = .await := by
  cases t <;> simp_all [Thread.counted, Thread.started]

/-- A thread that has registered and is not counted has signed off. -/
theorem Thread.eq_asleep {t : Thread} (hregistered : t.registered) (hcounted : t.counted = false) :
    t = .asleep ∨ t = .exited := by
  cases t <;> simp_all [Thread.registered, Thread.counted]

/-- Without a failed `kthread_run()` the invariant survives a step of the caller. -/
theorem Inv.mainStep [Inhabited M] {cfg : Config N} {s s' : State N M} (h : Inv s)
    (hs : s.mainStep cfg true = some s') : Inv s' := by
  have hok := h.main
  have hallowed := h.allowed
  have hevent := h.event
  have hcounter := h.counter
  unfold State.mainStep at hs
  generalize s.main = place at hs hok hallowed hevent hcounter
  cases place with
  | reset =>
    -- nobody is counted
    cases hs
    refine ⟨trivial, hallowed, (fun hhold => by cases hhold), fun _ => ?_, h.marked⟩
    exact (congrArg Nat.cast (tally_eq_zero_iff.mpr fun c => by rw [hallowed c]; rfl)).symm
  | initEvent =>
    cases hs
    exact h.advance (hcounter Main.noConfusion) ⟨Nat.zero_le N, rfl⟩
      (fun c => by simpa [Main.Allows] using hallowed c) fun _ => rfl
  | setup k running =>
    obtain ⟨hle, hrunning⟩ := hok
    have hcounter := hcounter Main.noConfusion
    by_cases hk : k < N
    · simp only [hk, dite_true] at hs
      cases hs
      exact h.setTask hcounter ⟨hk, by rw [hrunning]⟩ (hallowed ⟨k, hk⟩)
        (fun j _ => hallowed j) hevent rfl (h.marked ⟨k, hk⟩)
    · -- the loop has gone through the mask
      simp only [hk, dite_false] at hs
      cases hs
      refine h.advance hcounter ?_ (fun c => ?_) hevent
      · exact hrunning.trans (congrArg Nat.cast (by omega))
      · exact (if_pos (by omega)).mp (hallowed c)
  | create k running =>
    obtain ⟨hk, hrunning⟩ := hok
    have habsent : (s.tasks ⟨k, hk⟩).thread = .absent :=
      (if_neg (lt_irrefl k)).mp (hallowed ⟨k, hk⟩)
    simp only [hk, dite_true, if_true] at hs
    cases hs
    refine h.setTask (hcounter Main.noConfusion) ⟨hk, by rw [hrunning]; rfl⟩ ?_ (fun j hj => ?_)
      hevent (by rw [habsent]; rfl) fun hfin => by cases hfin
    · simp [Main.Allows, Thread.started]
    · have hne : (j : ℕ) ≠ k := fun hjk => hj (Fin.ext hjk)
      simpa [Main.Allows, show (j : ℕ) < k + 1 ↔ (j : ℕ) < k by omega] using hallowed j
  | awaitStart running =>
    have hcounter := hcounter Main.noConfusion
    by_cases hread : s.nrTestsRunning < running
    · simp only [hread, if_true] at hs
      cases hs
      exact h
    · simp only [hread, if_false] at hs
      cases hs
      rw [hok, hcounter] at hread
      -- all of them are counted, as none of them has started
      have hall : tally Thread.counted (fun c => (s.tasks c).thread) = Fintype.card (Fin N) := by
        have hle := tally_le_card (p := Thread.counted) (f := fun c => (s.tasks c).thread)
        rw [Fintype.card_fin] at hle ⊢
        omega
      refine h.advance hcounter trivial (fun c => ?_) hevent
      exact Thread.eq_await (tally_eq_card_iff.mp hall c) (hallowed c).1
  | kick =>
    cases hs
    refine h.advance (hcounter Main.noConfusion) trivial (fun c => ?_) fun hh => by cases hh
    rw [show (s.tasks c).thread = .await from hallowed c]
    rfl
  | awaitEnd =>
    have hcounter := hcounter Main.noConfusion
    by_cases hread : s.nrTestsRunning = 0
    · dsimp only at hs
      rw [if_neg (not_not_intro hread)] at hs
      cases hs
      rw [hcounter] at hread
      -- none of them is counted, though all of them have registered
      have hnone := tally_eq_zero_iff.mp (Int.natCast_eq_zero.mp hread)
      refine h.advance hcounter trivial (fun c => ?_) fun hh => by cases hh
      exact Thread.eq_asleep (hallowed c) (hnone c)
    · dsimp only at hs
      rw [if_pos hread] at hs
      cases hs
      exact h
  | stop k =>
    have hcounter := hcounter Main.noConfusion
    by_cases hk : k < N
    · simp only [hk, dite_true] at hs
      cases hs
      exact h.setTask hcounter trivial (hallowed ⟨k, hk⟩) (fun j _ => hallowed j)
        (fun hh => by cases hh) rfl (h.marked ⟨k, hk⟩)
    · simp only [hk, dite_false] at hs
      cases hs
      exact h.advance hcounter trivial hallowed fun hh => by cases hh
  | join k =>
    dsimp only at hs
    split at hs
    · split at hs
      · cases hs
        exact h.advance (hcounter Main.noConfusion) trivial hallowed fun hh => by cases hh
      · cases hs
    · cases hs
  | done => cases hs
  | aborted => cases hs

/-! ## Runs -/

/-- No `kthread_run()` fails. -/
def State.kthreadRunSucceeds (s : State N M) (a : Action N M) : Bool :=
  match s.main, a with
  | .create .., .main kthreadRun => kthreadRun
  | _, _ => true

/-- The main thread does not depend on an answer that must be the successful one. -/
theorem mainStep_eq [Inhabited M] {cfg : Config N} {s : State N M} {b : Bool}
    (hok : s.kthreadRunSucceeds (.main b)) : s.mainStep cfg b = s.mainStep cfg true := by
  unfold State.mainStep
  cases hmain : s.main <;> simp_all [State.kthreadRunSucceeds]

/-- Every step keeps the invariant. -/
theorem Inv.step [Inhabited M] {cfg : Config N} {s s' : State N M} {a : Action N M} (h : Inv s)
    (hok : s.kthreadRunSucceeds a) (hs : step cfg s a = some s') : Inv s' := by
  rcases threadMove_of_step hs with ⟨c, hm⟩ | ⟨b, rfl, hmain⟩
  · exact h.threadMove hm
  · rw [mainStep_eq hok] at hmain
    exact h.mainStep hmain

/-- The invariant of every run. -/
theorem Inv.reachable [Inhabited M] {cfg : Config N} {s₀ s : State N M} (hentry : s₀.Entry)
    (hreach : Reachable (TimeBench.step cfg) (fun s a => s.kthreadRunSucceeds a) s₀ s) : Inv s :=
  hreach.invariant hentry.inv fun _ _ _ h hok hs => h.step hok hs

/-- While the kthreads are being stopped, no step touches a record or leaves the loop. -/
theorem Inv.record_step [Inhabited M] {cfg : Config N} {s s' : State N M} {a : Action N M}
    (h : Inv s) (hstop : s.main.stopping) (hs : TimeBench.step cfg s a = some s') :
    s'.main.stopping ∧ ∀ c, (s'.tasks c).record = (s.tasks c).record := by
  have hallowed := h.allowed
  rcases threadMove_of_step hs with ⟨c, hm⟩ | ⟨b, rfl, hmain⟩
  · refine ⟨by rw [hm.main]; exact hstop, fun j => ?_⟩
    by_cases hj : j = c
    · -- no benchmark function runs any more
      rw [hj]
      refine hm.record fun hbench => ?_
      have hdone := hallowed c
      rw [hbench] at hdone
      cases hplace : s.main <;> simp_all [Main.stopping, Main.Allows]
    · rw [hm.others j hj]
  · unfold State.mainStep at hmain
    generalize s.main = place at hstop hmain
    cases place with
    | stop k =>
      by_cases hk : k < N
      · simp only [hk, dite_true] at hmain
        cases hmain
        refine ⟨rfl, fun j => ?_⟩
        by_cases hj : j = ⟨k, hk⟩ <;> simp [hj]
      · simp only [hk, dite_false] at hmain
        cases hmain
        exact ⟨rfl, fun _ => rfl⟩
    | join k =>
      dsimp only at hmain
      split at hmain
      · split at hmain
        · cases hmain
          exact ⟨rfl, fun _ => rfl⟩
        · cases hmain
      · cases hmain
    | done => cases hmain
    | reset | initEvent | setup | create | awaitStart | kick | awaitEnd | aborted => cases hstop

/-- Where one benchmark function may have started, all kthreads have registered. -/
theorem Main.Allows.registered {m : Main} {i j : ℕ} {t t' : Thread} (h : m.Allows i t)
    (h' : m.Allows j t') (hstarted : t.started) : t'.registered := by
  cases m with
  | setup k running | create k running =>
    by_cases hi : i < k <;> simp_all [Main.Allows, Thread.started]
  | awaitEnd => exact h'
  | stop | join | done => rcases h' with rfl | rfl <;> rfl
  | _ => simp_all [Main.Allows, Thread.started]

/-- **The barriers of `time_bench_run_concurrent()`.** In every run in which the kthreads can be
started: no benchmark function has started before all kthreads have registered, and when the caller
has reached the loop that stops the kthreads, each function has returned and `did_bench_run` is set,
and the records are not written any more. -/
theorem concurrent_barriers [Inhabited M] {cfg : Config N} {s₀ s : State N M} (hentry : s₀.Entry)
    (hreach : Reachable (step cfg) (fun s a => s.kthreadRunSucceeds a) s₀ s) :
    (∀ c, (s.tasks c).thread.started → ∀ c', (s.tasks c').thread.registered) ∧
      (s.main.stopping → ∀ c, (s.tasks c).thread.finished ∧ (s.tasks c).didBenchRun) ∧
      (s.main.stopping → ∀ s', Reachable (step cfg) (fun s a => s.kthreadRunSucceeds a) s s' →
        ∀ c, (s'.tasks c).record = (s.tasks c).record) := by
  have hinv := Inv.reachable hentry hreach
  refine ⟨fun c hstarted c' => (hinv.allowed c).registered (hinv.allowed c') hstarted,
    fun hstop c => ?_, fun hstop s' hreach' => ?_⟩
  · have hasleep : (s.tasks c).thread = .asleep ∨ (s.tasks c).thread = .exited := by
      have hallowed := hinv.allowed c
      cases hmain : s.main <;> simp_all [Main.stopping, Main.Allows]
    have hfinished : (s.tasks c).thread.finished := by rcases hasleep with h | h <;> rw [h] <;> rfl
    exact ⟨hfinished, hinv.marked c hfinished⟩
  · -- the records stay as they are by induction on the rest of the run
    refine (hreach'.invariant' (P := fun s' => s'.main.stopping ∧
      ∀ c, (s'.tasks c).record = (s.tasks c).record) ⟨hstop, fun _ => rfl⟩ ?_).2
    intro s₁ a s₂ hreach₁ ⟨hstop₁, hrecord₁⟩ _ hs
    have hinv₁ := Inv.reachable hentry (hreach.trans hreach₁)
    obtain ⟨hstop₂, hrecord₂⟩ := hinv₁.record_step hstop₁ hs
    exact ⟨hstop₂, fun c => (hrecord₂ c).trans (hrecord₁ c)⟩

/-- A mask of the CPUs 0 and 2. -/
def evenCpus : Config 2 := ⟨fun c => UInt32.ofNat (2 * c), 5, 0⟩

/-- Two tasks, with a counter and an event left over from an earlier run. -/
def twoCpus : State 2 ℕ where
  nrTestsRunning := 7
  startEvent := true
  tasks := fun _ => ⟨⟨0, 0, 0, 0, 0, 9⟩, false, .absent, none, false⟩
  main := .reset

/-- Both kthreads register, and `i` runs and signs off before `j` starts to run. -/
def oneAfterTheOther (i j : Fin 2) : List (Action 2 ℕ) :=
  List.replicate 7 (.main true) ++ [.thread i, .thread i, .main true, .thread j, .thread j] ++
    List.replicate 2 (.main true) ++
    [.thread i, .benchStore i ⟨1, 5, 0, 7, 0, 42⟩, .benchReturn i, .thread i, .thread i, .main true,
      .thread j, .benchReturn j, .thread j, .thread j, .main true, .main true, .thread i,
        .main true]

/-- Two CPUs of which one is used. -/
theorem concurrent_barriers_two :
    ∃ s, Reachable (step evenCpus) (fun s a => s.kthreadRunSucceeds a) twoCpus s ∧
      s.main = .stop 1 ∧
      (∀ c, (s.tasks c).thread.started → ∀ c', (s.tasks c').thread.registered) ∧
      (s.main.stopping → ∀ c, (s.tasks c).thread.finished ∧ (s.tasks c).didBenchRun) ∧
      (s.main.stopping → ∀ s', Reachable (step evenCpus) (fun s a => s.kthreadRunSucceeds a) s s' →
        ∀ c, (s'.tasks c).record = (s.tasks c).record) := by
  have hrun : (runOk (step evenCpus) (fun s a => s.kthreadRunSucceeds a) twoCpus
      (oneAfterTheOther 0 1)).any (fun s => s.main = .stop 1) := by decide +kernel
  obtain ⟨s, hs, hstop⟩ := (Option.any_eq_true _ _).mp hrun
  have hreach := reachable_of_runOk hs
  exact ⟨s, hreach, of_decide_eq_true hstop,
    concurrent_barriers ⟨rfl, fun _ => rfl⟩ hreach⟩

end TimeBench
