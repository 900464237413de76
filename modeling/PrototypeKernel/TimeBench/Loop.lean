import PrototypeKernel.TimeBench.CalcStats

/-! # The report of a timed function

`time_bench_loop()` gives a benchmark function a new record, computes the statistics of what the
function leaves there, and prints them. A benchmark function returns a positive count, and 0 or -1
when it has failed; `time_bench_calc_stats()` refuses a record by returning `false`. -/

namespace TimeBench.Loop

open Logged

/-- A line that is printed. -/
inductive Line where
  /-- `ERR: need more(>1000) loops(%llu) for timing` -/
  | needMoreLoops (invokedCnt : UInt64)
  /-- `ERR: Invoke cnt(%llu) too big overflow 32bit` -/
  | invokeCntTooBig (invokedCnt : UInt64)
  /-- `ABORT: timing took ZERO TSC time` -/
  | zeroTscTime
  /-- `ABORT: timing took ZERO wallclock time` -/
  | zeroWallclockTime
  /-- `ABORT: function being timed failed` -/
  | timedFailed
  /-- `WARNING: Invoke count(%llu) smaller than loops(%d)` -/
  | smallInvokeCount (invokedCnt : UInt64) (loops : UInt32)
  /-- `Type:%s Per elem: %llu cycles(tsc) %llu.%03llu ns (step:%d) - (measurement period
  time:%llu.%09u sec time_interval:%llu) - (invoke count:%llu tsc_interval:%llu)` -/
  | perElem (txt : String) (tscCycles nsPerCallQuotient nsPerCallDecimal : UInt64) (step : UInt32)
      (timeSec : UInt64) (timeSecRemainder : UInt32) (timeInterval invokedCnt tscInterval : UInt64)
  /-- `Type:%s PMU inst/clock%llu/%llu = %llu.%03llu IPC (inst per cycle)` -/
  | pmuPerClock (txt : String) (pmcInst pmcClk pmcIpcQuotient pmcIpcDecimal : UInt64)
  deriving DecidableEq

/-- The lines that report a measurement. -/
def Line.IsMeasurement : Line → Prop
  | perElem .. | pmuPerClock .. => True
  | _ => False

/-- What `time_bench_calc_stats()` prints before it returns `false`. -/
def calcStatsError (rec : Record Measured) : Option Line :=
  if rec.flags &&& timeBenchLoop ≠ 0 ∧ rec.measured.invokedCnt < 1000 then
    some (.needMoreLoops rec.measured.invokedCnt)
  else if rec.flags &&& timeBenchLoop ≠ 0 ∧ rec.measured.invokedCnt > ((1 : UInt64) <<< 32) - 1 then
    some (.invokeCntTooBig rec.measured.invokedCnt)
  else if rec.flags &&& timeBenchTsc ≠ 0 ∧ rec.measured.tscStop - rec.measured.tscStart = 0 then
    some .zeroTscTime
  else if rec.flags &&& timeBenchWallclock ≠ 0 ∧ rec.measured.elapsed = 0 then
    some .zeroWallclockTime
  else none

/-- A call of `time_bench_calc_stats()`, with its lines. -/
def calcStats (rec : Record Measured) : Logged Fault Line (Bool × Record Measured) :=
  ⟨(calcStatsError rec).toList, (timeBenchCalcStats rec).result⟩

/-! ## The records that are accepted -/

variable {rec : Record Measured}

/-- `time_bench_calc_stats()` returns `true`. -/
def Accepted (rec : Record Measured) : Prop :=
  ∃ rec', (timeBenchCalcStats rec).result = .ok (true, rec')

/-- The section of the PMU stops at a counter whose lower 32 bits have not moved. -/
theorem exists_pmuStats_eq_ok_iff (flags : UInt32) (m : Measured) :
    (∃ m', (pmuStats flags m).result = .ok m') ↔
      (flags &&& timeBenchPmu ≠ 0 → m.clk.toUInt32 ≠ 0) := by
  unfold pmuStats
  split
  · rename_i hpmu
    rw [imp_iff_right hpmu]
    dsimp only
    rw [narrow, Logged.bind_assoc]
    show (∃ m', (divU64Rem _ m.clk.toUInt32 >>= _).result = .ok m') ↔ _
    by_cases hzero : m.clk.toUInt32 = 0
    · rw [hzero]
      refine iff_of_false ?_ fun h => h rfl
      rintro ⟨m', h⟩
      cases h
    · rw [divU64Rem_of_ne_zero _ hzero, pure_bind]
      refine iff_of_true ?_ hzero
      show ∃ m', (if (m.clk / 1000).toUInt32 > 0 then _ else _ : Stats Measured).result = .ok m'
      split
      · rename_i hdiv
        have hne : ((m.pmcClkStop - m.pmcClkStart) / 1000).toUInt32 ≠ 0 :=
          (UInt32.ne_of_lt hdiv).symm
        rw [divU64Rem_of_ne_zero _ hne]
        exact ⟨_, rfl⟩
      · exact ⟨_, rfl⟩
  · rename_i hpmu
    exact iff_of_true ⟨m, rfl⟩ fun h => absurd h hpmu

/-- **When a record is accepted**: no section refuses it, and the PMU, if it is asked for, has a
counter that can be divided by. -/
theorem accepted_iff :
    Accepted rec ↔ ReachesPmu rec ∧
      (rec.flags &&& timeBenchPmu ≠ 0 → rec.measured.clk.toUInt32 ≠ 0) := by
  by_cases h : ReachesPmu rec
  · obtain ⟨log, invokedCnt, interval, cycles, -, -, heq⟩ := timeBenchCalcStats_of_reachesPmu h
    have hpmu := exists_pmuStats_eq_ok_iff rec.flags
      ((rec.measured.withTsc interval cycles).wallclocked rec.flags invokedCnt)
    rw [clk_wallclocked, clk_withTsc] at hpmu
    rw [and_iff_right h, ← hpmu, Accepted, heq, ok_bind]
    constructor
    · rintro ⟨rec', hrec⟩
      obtain ⟨m', hm, -⟩ := result_bind_eq_ok.mp hrec
      exact ⟨m', hm⟩
    · rintro ⟨m', hm⟩
      exact ⟨_, result_bind_eq_ok.mpr ⟨m', hm, rfl⟩⟩
  · refine iff_of_false ?_ fun hboth => h hboth.1
    rintro ⟨rec', hrec⟩
    exact (timeBenchCalcStats_of_not_reachesPmu h).2 rec' hrec

/-- A line says why a record is refused before the section of the PMU. -/
theorem calcStatsError_eq_none_iff : calcStatsError rec = none ↔ ReachesPmu rec := by
  have hfew : rec.measured.invokedCnt < 1000 ↔ rec.measured.invokedCnt.toNat < 1000 :=
    UInt64.lt_iff_toNat_lt
  have hmany : rec.measured.invokedCnt > ((1 : UInt64) <<< 32) - 1 ↔
      2 ^ 32 - 1 < rec.measured.invokedCnt.toNat := UInt64.lt_iff_toNat_lt
  unfold calcStatsError
  constructor
  · intro h
    split at h
    · cases h
    rename_i hnotfew
    split at h
    · cases h
    rename_i hnotmany
    split at h
    · cases h
    rename_i htsc
    split at h
    · cases h
    rename_i hwall
    rw [hfew, not_and, Nat.not_lt] at hnotfew
    rw [hmany, not_and] at hnotmany
    refine ⟨fun hflag => ⟨hnotfew hflag, ?_⟩, not_and.mp htsc, not_and.mp hwall⟩
    have := hnotmany hflag
    unfold Fits32
    omega
  · rintro ⟨hloop, htsc, hwall⟩
    have hnotfew : ¬(rec.flags &&& timeBenchLoop ≠ 0 ∧ rec.measured.invokedCnt < 1000) :=
      fun ⟨hflag, hlt⟩ => Nat.not_lt.mpr (hloop hflag).1 (hfew.mp hlt)
    have hnotmany : ¬(rec.flags &&& timeBenchLoop ≠ 0 ∧
        rec.measured.invokedCnt > ((1 : UInt64) <<< 32) - 1) := by
      rintro ⟨hflag, hgt⟩
      have hgt := hmany.mp hgt
      have hfits : rec.measured.invokedCnt.toNat < 2 ^ 32 := (hloop hflag).2
      omega
    rw [if_neg hnotfew, if_neg hnotmany, if_neg (not_and.mpr htsc), if_neg (not_and.mpr hwall)]

/-! ## `time_bench_loop()` -/

/-- The record that a benchmark function is given. -/
def setup (loops : UInt32) (step : Int32) : Record Measured where
  versionAbi := 1
  loops := loops
  step := step.toUInt32
  flags := benchFlags
  cpu := 0
  measured := default

/-- The last lines, for a record with its statistics. -/
def report (txt : String) (rec : Record Measured) : Logged Fault Line Bool := do
  let m := rec.measured
  write (.perElem txt m.tscCycles m.nsPerCallQuotient m.nsPerCallDecimal rec.step m.timeSec
    m.timeSecRemainder m.timeInterval m.invokedCnt m.tscInterval)
  if rec.flags &&& timeBenchPmu ≠ 0 then
    write (.pmuPerClock txt m.pmcInst m.pmcClk m.pmcIpcQuotient m.pmcIpcDecimal)
  pure true

/-- `time_bench_loop()`; the flag of this name is `TimeBench.timeBenchLoop`. The function that is
timed returns an `int` and leaves a record. -/
def timeBenchLoop (loops : UInt32) (step : Int32) (txt : String)
    (func : Record Measured → Int32 × Record Measured) : Logged Fault Line Bool := do
  let (ret, rec) := func (setup loops step)
  if ret = 0 then
    write .timedFailed
    pure false
  else
    if rec.measured.invokedCnt < loops.toUInt64 then
      write (.smallInvokeCount rec.measured.invokedCnt loops)
    -- the result of the call is not looked at
    let (_, rec) ← calcStats rec
    report txt rec

variable {loops : UInt32} {step : Int32} {txt : String}
  {func : Record Measured → Int32 × Record Measured}

/-- The function has succeeded, and its record is accepted. -/
def Succeeds (ret : Int32) (rec : Record Measured) : Prop := 0 < ret ∧ Accepted rec

/-- **What a report promises**: `true` for a success only, and else `false` without a line of a
measurement. -/
structure Honest (ret : Int32) (rec : Record Measured) (out : Logged Fault Line Bool) : Prop where
  succeeds : out.result = .ok true → Succeeds ret rec
  otherwise : ¬ Succeeds ret rec →
    out.result = .ok false ∧ ∀ line ∈ out.log, ¬ line.IsMeasurement

/-- The report of a function that returns 0. -/
theorem timeBenchLoop_of_eq_zero (h : (func (setup loops step)).1 = 0) :
    timeBenchLoop loops step txt func = ⟨[.timedFailed], .ok false⟩ := by
  unfold timeBenchLoop
  dsimp only
  rw [if_pos h]
  rfl

/-- Every other value is taken for a success. -/
theorem timeBenchLoop_of_ne_zero (txt : String) (h : (func (setup loops step)).1 ≠ 0) :
    ∃ log, timeBenchLoop loops step txt func =
      (⟨log, .ok ⟨⟩⟩ : Logged Fault Line PUnit) >>= fun _ =>
      calcStats (func (setup loops step)).2 >>= fun stats => report txt stats.2 := by
  unfold timeBenchLoop
  dsimp only
  rw [if_neg h]
  split
  · exact ⟨_, rfl⟩
  · exact ⟨[], rfl⟩

/-- The last lines always come with `true`. -/
theorem report_result (txt : String) (rec : Record Measured) :
    (report txt rec).result = .ok true := by
  unfold report
  dsimp only
  split <;> rfl

/-- A report is not `false` after a value other than 0. -/
theorem result_ne_false (h : (func (setup loops step)).1 ≠ 0) :
    (timeBenchLoop loops step txt func).result ≠ .ok false := by
  obtain ⟨log, heq⟩ := timeBenchLoop_of_ne_zero txt h
  rw [heq, ok_bind]
  intro hfalse
  obtain ⟨stats, -, hreport⟩ := result_bind_eq_ok.mp hfalse
  rw [report_result] at hreport
  cases hreport

/-- **When a report is honest**: the function returns 0, or it has succeeded and its record passes
the checks of `time_bench_calc_stats()`. -/
theorem timeBenchLoop_honest_iff (loops : UInt32) (step : Int32) (txt : String)
    (func : Record Measured → Int32 × Record Measured) :
    Honest (func (setup loops step)).1 (func (setup loops step)).2
        (timeBenchLoop loops step txt func) ↔
      (func (setup loops step)).1 = 0 ∨ 0 < (func (setup loops step)).1 ∧
        ReachesPmu (func (setup loops step)).2 ∧
        ((func (setup loops step)).2.flags &&& timeBenchPmu ≠ 0 →
          (func (setup loops step)).2.measured.clk.toUInt32 ≠ 0) := by
  rw [← accepted_iff]
  by_cases hzero : (func (setup loops step)).1 = 0
  · rw [timeBenchLoop_of_eq_zero hzero]
    refine iff_of_true ⟨fun h => (by cases h), fun _ => ⟨rfl, fun line hline => ?_⟩⟩ (.inl hzero)
    cases List.mem_singleton.mp hline
    exact id
  · rw [or_iff_right hzero]
    constructor
    · intro honest
      by_contra hnot
      exact result_ne_false hzero (honest.otherwise hnot).1
    · exact fun hsucceeds => ⟨fun _ => hsucceeds, fun hnot => absurd hsucceeds hnot⟩

/-- A benchmark that refuses its input: an error, and the record left as it was given. -/
def refusing (rec : Record Measured) : Int32 × Record Measured := (-1, rec)

/-- **A function that has failed with -1 is reported as a success**, with its line. -/
theorem not_honest_refusing :
    (timeBenchLoop 1000000 1 "bulk" refusing).result = .ok true ∧
      ¬ Honest (refusing (setup 1000000 1)).1 (refusing (setup 1000000 1)).2
        (timeBenchLoop 1000000 1 "bulk" refusing) := by
  have htrue : (timeBenchLoop 1000000 1 "bulk" refusing).result = .ok true := by decide
  exact ⟨htrue, fun honest => absurd (honest.succeeds htrue).1 (by decide)⟩

end TimeBench.Loop
