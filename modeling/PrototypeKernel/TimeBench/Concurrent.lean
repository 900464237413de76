import PrototypeKernel.Foundation.TransitionSystem
import PrototypeKernel.Foundation.Tally

/-! # A benchmark on several CPUs at once

`time_bench_run_concurrent()` starts a kthread on each of the `N` CPUs of its mask, waits until all
of them have registered in `nr_tests_running`, lets them go with `complete_all()`, and waits until
all of them have signed off again. One counter serves for both waits. A step is an operation on the
counter or on the completion, a store to a member of `struct time_bench_cpu`, or an entry to or a
return from the benchmark function. -/

namespace TimeBench

variable {N : ℕ} {M : Type*}

/-! ## Data -/

/-- `struct time_bench_record`: what is asked for, and the measurements, which are `default` when
they are zeroed. -/
structure Record (M : Type*) where
  versionAbi : UInt32
  loops : UInt32
  step : UInt32
  flags : UInt32
  cpu : UInt32
  measured : M
  deriving DecidableEq

/-- `TIME_BENCH_LOOP | TIME_BENCH_TSC | TIME_BENCH_WALLCLOCK`. -/
def benchFlags : UInt32 := (1 : UInt32) <<< 0 ||| (1 : UInt32) <<< 1 ||| (1 : UInt32) <<< 2

/-- Where a kthread stands in `invoke_test_on_cpu_func()`. -/
inductive Thread where
  /-- Not started. -/
  | absent
  /-- About to restrict itself to its CPU. -/
  | restrict
  /-- About to increment `nr_tests_running`. -/
  | register
  /-- In `wait_for_completion()`. -/
  | await
  /-- In the benchmark function. -/
  | bench
  /-- The function has returned; about to set `did_bench_run`. -/
  | mark
  /-- About to decrement `nr_tests_running`. -/
  | signOff
  /-- In `schedule()`, in state `TASK_UNINTERRUPTIBLE`. -/
  | asleep
  | exited
  deriving DecidableEq, Repr

/-- `struct time_bench_cpu` with the state of its task: the CPUs it may run on (all of them when
`none`), and whether `kthread_stop()` has woken it. -/
structure CpuTask (M : Type*) where
  record : Record M
  didBenchRun : Bool
  thread : Thread
  cpusAllowed : Option UInt32
  shouldStop : Bool

/-- Where `time_bench_run_concurrent()` stands. -/
inductive Main where
  /-- About to reset `nr_tests_running`. -/
  | reset
  /-- About to initialise `start_event`. -/
  | initEvent
  /-- About to set up the task of CPU `k` of the mask. -/
  | setup (k : ℕ) (running : ℤ)
  /-- In `kthread_run()` for CPU `k` of the mask. -/
  | create (k : ℕ) (running : ℤ)
  /-- Waiting for `running` tasks to register. -/
  | awaitStart (running : ℤ)
  /-- In `complete_all()`. -/
  | kick
  /-- Waiting for the counter to become 0. -/
  | awaitEnd
  /-- In `kthread_stop()` for CPU `k` of the mask, about to wake the task. -/
  | stop (k : ℕ)
  /-- In `kthread_stop()`, waiting for the task to exit. -/
  | join (k : ℕ)
  | done
  /-- Returned after a failed `kthread_run()`. -/
  | aborted
  deriving DecidableEq, Repr

/-- The arguments of a run: the numbers of the CPUs in the mask, and what is asked of each. -/
structure Config (N : ℕ) where
  cpus : Fin N → UInt32
  loops : UInt32
  step : UInt32

/-- `struct time_bench_sync`, the tasks, and the calling thread. `nr_tests_running` stays between 0
and the number of tasks, so it does not wrap. `startEvent` tells whether the event is completed. -/
structure State (N : ℕ) (M : Type*) where
  nrTestsRunning : ℤ
  startEvent : Bool
  tasks : Fin N → CpuTask M
  main : Main

/-- What may happen next. A step of the caller carries the answer to a `kthread_run()`. The
benchmark function may store to its record until it returns. -/
inductive Action (N : ℕ) (M : Type*) where
  | main (kthreadRun : Bool)
  | thread (c : Fin N)
  | benchStore (c : Fin N) (record : Record M)
  | benchReturn (c : Fin N)

/-! ## Steps -/

/-- Give CPU `c` of the mask the task `t`. -/
def State.setTask (s : State N M) (c : Fin N) (t : CpuTask M) : State N M :=
  { s with tasks := Function.update s.tasks c t }

/-- The record that a run sets up for a CPU. -/
def Config.record [Inhabited M] (cfg : Config N) (c : Fin N) : Record M where
  versionAbi := 1
  loops := cfg.loops
  step := cfg.step
  flags := benchFlags
  cpu := cfg.cpus c
  measured := default

/-- The next step of `time_bench_run_concurrent()`. -/
def State.mainStep [Inhabited M] (cfg : Config N) (s : State N M) (kthreadRun : Bool) :
    Option (State N M) :=
  match s.main with
  | .reset => some { s with nrTestsRunning := 0, main := .initEvent }
  | .initEvent => some { s with startEvent := false, main := .setup 0 0 }
  | .setup k running =>
      -- the loop over the CPUs of the mask
      if h : k < N then
        let t := s.tasks ⟨k, h⟩
        some { s.setTask ⟨k, h⟩ { t with record := cfg.record ⟨k, h⟩ } with
          main := .create k (running + 1) }
      else some { s with main := .awaitStart running }
  | .create k running =>
      if h : k < N then
        if kthreadRun then
          let t := s.tasks ⟨k, h⟩
          some { s.setTask ⟨k, h⟩ { t with
              thread := .restrict, cpusAllowed := none, shouldStop := false } with
            main := .setup (k + 1) running }
        else some { s with main := .aborted }
      else none
  | .awaitStart running =>
      if s.nrTestsRunning < running then some s else some { s with main := .kick }
  | .kick => some { s with startEvent := true, main := .awaitEnd }
  | .awaitEnd => if s.nrTestsRunning ≠ 0 then some s else some { s with main := .stop 0 }
  | .stop k =>
      if h : k < N then
        let t := s.tasks ⟨k, h⟩
        some { s.setTask ⟨k, h⟩ { t with shouldStop := true } with main := .join k }
      else some { s with main := .done }
  | .join k =>
      if h : k < N then
        if (s.tasks ⟨k, h⟩).thread = .exited then some { s with main := .stop (k + 1) } else none
      else none
  | .done | .aborted => none

/-- The next step of the kthread on CPU `c` of the mask, outside of the benchmark function. -/
def State.threadStep (s : State N M) (c : Fin N) : Option (State N M) :=
  let t := s.tasks c
  match t.thread with
  | .restrict => some (s.setTask c { t with cpusAllowed := t.record.cpu, thread := .register })
  | .register =>
      some { s.setTask c { t with thread := .await } with nrTestsRunning := s.nrTestsRunning + 1 }
  | .await => if s.startEvent then some (s.setTask c { t with thread := .bench }) else none
  | .mark => some (s.setTask c { t with didBenchRun := true, thread := .signOff })
  | .signOff =>
      some { s.setTask c { t with thread := .asleep } with nrTestsRunning := s.nrTestsRunning - 1 }
  | .asleep => if t.shouldStop then some (s.setTask c { t with thread := .exited }) else none
  | .absent | .bench | .exited => none

/-- The step function of a run. -/
def step [Inhabited M] (cfg : Config N) (s : State N M) : Action N M → Option (State N M)
  | .main kthreadRun => s.mainStep cfg kthreadRun
  | .thread c => s.threadStep c
  | .benchStore c record =>
      let t := s.tasks c
      if t.thread = .bench then some (s.setTask c { t with record := record }) else none
  | .benchReturn c =>
      let t := s.tasks c
      if t.thread = .bench then some (s.setTask c { t with thread := .mark }) else none

end TimeBench
