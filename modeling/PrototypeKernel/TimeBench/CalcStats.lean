import PrototypeKernel.TimeBench.Concurrent
import PrototypeKernel.Foundation.Logged

/-! # The statistics of a record

`time_bench_calc_stats()` divides what a benchmark has measured by the number of its invocations.
`div_u64_rem()` takes a divisor of 32 bits, so a counter of 64 bits is narrowed before it divides.
The program below logs each value that is narrowed, and stops at a division by zero. -/

namespace TimeBench

open Logged

/-! ## The record -/

/-- `struct timespec`, with a `long` of 64 bits. -/
structure Timespec where
  tvSec : Int64
  tvNsec : Int64
  deriving DecidableEq, Inhabited

/-- The measurements of `struct time_bench_record`, and the results. -/
structure Measured where
  invokedCnt : UInt64
  tscStart : UInt64
  tscStop : UInt64
  tsStart : Timespec
  tsStop : Timespec
  pmcInstStart : UInt64
  pmcInstStop : UInt64
  pmcClkStart : UInt64
  pmcClkStop : UInt64
  tscInterval : UInt64
  timeStart : UInt64
  timeStop : UInt64
  /-- In nanoseconds. -/
  timeInterval : UInt64
  pmcInst : UInt64
  pmcClk : UInt64
  tscCycles : UInt64
  nsPerCallQuotient : UInt64
  nsPerCallDecimal : UInt64
  timeSec : UInt64
  timeSecRemainder : UInt32
  pmcIpcQuotient : UInt64
  pmcIpcDecimal : UInt64
  deriving DecidableEq, Inhabited

/-- `TIME_BENCH_LOOP`. -/
def timeBenchLoop : UInt32 := (1 : UInt32) <<< 0

/-- `TIME_BENCH_TSC`. -/
def timeBenchTsc : UInt32 := (1 : UInt32) <<< 1

/-- `TIME_BENCH_WALLCLOCK`. -/
def timeBenchWallclock : UInt32 := (1 : UInt32) <<< 2

/-- `TIME_BENCH_PMU`. -/
def timeBenchPmu : UInt32 := (1 : UInt32) <<< 3

/-- 10^9. -/
def nanosecPerSec : UInt32 := 1000000000

/-- A time in nanoseconds. -/
def Timespec.ns (ts : Timespec) : UInt64 :=
  ts.tvNsec.toUInt64 + nanosecPerSec.toUInt64 * ts.tvSec.toUInt64

/-! ## Divisions -/

/-- What stops the program. -/
inductive Fault where
  | divideByZero
  deriving DecidableEq, Repr

/-- A program that logs the values it narrows to 32 bits. -/
abbrev Stats (α : Type) := Logged Fault UInt64 α

/-- The conversion of a divisor to `uint32_t`. -/
def narrow (v : UInt64) : Stats UInt32 := do
  write v
  pure v.toUInt32

/-- The division of two `uint64_t`. -/
def divU64 (dividend divisor : UInt64) : Stats UInt64 :=
  if divisor = 0 then stop .divideByZero else pure (dividend / divisor)

/-- `div_u64_rem()`, for the quotient and the remainder. -/
def divU64Rem (dividend : UInt64) (divisor : UInt32) : Stats (UInt64 × UInt32) :=
  if divisor = 0 then stop .divideByZero
  else pure (dividend / divisor.toUInt64, (dividend % divisor.toUInt64).toUInt32)

/-! ## `time_bench_calc_stats()` -/

/-- The first section: `invoked_cnt`, unless the function returns `false` here. -/
def loopStats (flags : UInt32) (m : Measured) : Stats (Option UInt32) :=
  if flags &&& timeBenchLoop ≠ 0 then
    if m.invokedCnt < 1000 then pure none
    else if m.invokedCnt > ((1 : UInt64) <<< 32) - 1 then pure none
    else some <$> narrow m.invokedCnt
  else pure (some 0)

/-- The section of the TSC. The function returns here after a `false`. -/
def tscStats (flags invokedCnt : UInt32) (m : Measured) : Stats (Bool × Measured) :=
  if flags &&& timeBenchTsc ≠ 0 then
    let m := { m with tscInterval := m.tscStop - m.tscStart }
    if m.tscInterval = 0 then pure (false, m)
    else if flags &&& timeBenchLoop ≠ 0 then do
      let cycles ← divU64 m.tscInterval invokedCnt.toUInt64
      pure (true, { m with tscCycles := cycles })
    else pure (true, { m with tscCycles := m.tscInterval })
  else pure (true, m)

/-- The time for each invocation, with its decimals. -/
def perCallStats (invokedCnt : UInt32) (m : Measured) : Stats Measured := do
  let (quotient, remainder) ← divU64Rem m.timeInterval invokedCnt
  let m := { m with nsPerCallQuotient := quotient }
  let invokedCntPrecision := invokedCnt / 1000
  if invokedCntPrecision > 0 then
    let (decimal, _) ← divU64Rem remainder.toUInt64 invokedCntPrecision
    pure { m with nsPerCallDecimal := decimal }
  else pure m

/-- The section of the wall clock. The function returns here after a `false`. -/
def wallclockStats (flags invokedCnt : UInt32) (m : Measured) : Stats (Bool × Measured) :=
  if flags &&& timeBenchWallclock ≠ 0 then
    let m := { m with timeStart := m.tsStart.ns, timeStop := m.tsStop.ns }
    let m := { m with timeInterval := m.timeStop - m.timeStart }
    if m.timeInterval = 0 then pure (false, m)
    else do
      let (sec, remainder) ← divU64Rem m.timeInterval nanosecPerSec
      let m := { m with timeSec := sec, timeSecRemainder := remainder }
      if flags &&& timeBenchLoop ≠ 0 then
        let m ← perCallStats invokedCnt m
        pure (true, m)
      else pure (true, m)
  else pure (true, m)

/-- The section of the PMU. -/
def pmuStats (flags : UInt32) (m : Measured) : Stats Measured :=
  if flags &&& timeBenchPmu ≠ 0 then do
    let m := { m with
      pmcInst := m.pmcInstStop - m.pmcInstStart
      pmcClk := m.pmcClkStop - m.pmcClkStart }
    let divisor ← narrow m.pmcClk
    let (quotient, remainder) ← divU64Rem m.pmcInst divisor
    let m := { m with pmcIpcQuotient := quotient }
    let pmcIpcDiv ← narrow (m.pmcClk / 1000)
    if pmcIpcDiv > 0 then
      let (decimal, _) ← divU64Rem remainder.toUInt64 pmcIpcDiv
      pure { m with pmcIpcDecimal := decimal }
    else pure m
  else pure m

/-- `time_bench_calc_stats()`, for the value it returns and the record it leaves. -/
def timeBenchCalcStats (rec : Record Measured) : Stats (Bool × Record Measured) := do
  match ← loopStats rec.flags rec.measured with
  | none => pure (false, rec)
  | some invokedCnt =>
    let (ok, m) ← tscStats rec.flags invokedCnt rec.measured
    if ok then
      let (ok, m) ← wallclockStats rec.flags invokedCnt m
      if ok then
        let m ← pmuStats rec.flags m
        pure (true, { rec with measured := m })
      else pure (false, { rec with measured := m })
    else pure (false, { rec with measured := m })

/-! ## What each section does -/

variable {flags invokedCnt divisor : UInt32} {m m' : Measured}

/-- A value is represented exactly in 32 bits. -/
def Fits32 (v : UInt64) : Prop := v.toNat < 2 ^ 32

/-- A value that fits in a `u32` is not truncated. -/
theorem Fits32.toNat_toUInt32 {v : UInt64} (h : Fits32 v) : v.toUInt32.toNat = v.toNat :=
  Nat.mod_eq_of_lt h

/-- A division by a number other than 0. -/
theorem divU64_of_ne_zero (dividend : UInt64) {divisor : UInt64} (h : divisor ≠ 0) :
    divU64 dividend divisor = pure (dividend / divisor) := if_neg h

/-- A division with remainder by a number other than 0. -/
theorem divU64Rem_of_ne_zero (dividend : UInt64) (h : divisor ≠ 0) :
    divU64Rem dividend divisor =
      pure (dividend / divisor.toUInt64, (dividend % divisor.toUInt64).toUInt32) := if_neg h

/-- The rule of a conversion. -/
theorem narrow_bind_completes_iff {α : Type} {v : UInt64} {f : UInt32 → Stats α} :
    (narrow v >>= f).Completes Fits32 ↔ Fits32 v ∧ (f v.toUInt32).Completes Fits32 := by
  rw [narrow, bind_assoc, completes_bind_iff, completes_write]
  exact and_congr_right fun _ => ⟨fun h => h ⟨⟩ rfl, fun h _ _ => h⟩

/-- The rule of a division. -/
theorem divU64Rem_bind_completes_iff {α : Type} {dividend : UInt64} {f : UInt64 × UInt32 → Stats α}
    {P : UInt64 → Prop} :
    (divU64Rem dividend divisor >>= f).Completes P ↔ divisor ≠ 0 ∧
      (f (dividend / divisor.toUInt64, (dividend % divisor.toUInt64).toUInt32)).Completes P := by
  by_cases h : divisor = 0
  · rw [divU64Rem, if_pos h, completes_bind_iff]
    exact iff_of_false (fun hboth => not_completes_stop _ hboth.1) fun hboth => hboth.1 h
  · rw [divU64Rem_of_ne_zero _ h, pure_bind, and_iff_right h]

/-- The number of invocations can be a divisor. -/
def LoopFits (flags : UInt32) (m : Measured) : Prop :=
  flags &&& timeBenchLoop ≠ 0 → 1000 ≤ m.invokedCnt.toNat ∧ Fits32 m.invokedCnt

/-- The first section returns `false` unless the number of invocations fits. -/
theorem loopStats_cases (flags : UInt32) (m : Measured) :
    ¬ LoopFits flags m ∧ loopStats flags m = pure none ∨
      LoopFits flags m ∧ ∃ log invokedCnt, loopStats flags m = ⟨log, .ok (some invokedCnt)⟩ ∧
        (∀ v ∈ log, Fits32 v) ∧
        (flags &&& timeBenchLoop ≠ 0 → invokedCnt.toNat = m.invokedCnt.toNat) := by
  unfold loopStats LoopFits
  by_cases hloop : flags &&& timeBenchLoop = 0
  · rw [if_neg (not_not.mpr hloop)]
    exact .inr ⟨fun h => absurd hloop h, [], 0, rfl, nofun, fun h => absurd hloop h⟩
  · rw [if_pos hloop, imp_iff_right hloop, Fits32]
    simp only [UInt64.lt_iff_toNat_lt, gt_iff_lt]
    have hfew : (1000 : UInt64).toNat = 1000 := rfl
    have hmany : (((1 : UInt64) <<< 32) - 1).toNat = 2 ^ 32 - 1 := rfl
    rw [hfew, hmany]
    split
    · exact .inl ⟨by omega, rfl⟩
    · split
      · exact .inl ⟨by omega, rfl⟩
      · have hfits : Fits32 m.invokedCnt := by
          unfold Fits32
          omega
        refine .inr ⟨⟨by omega, hfits⟩, [m.invokedCnt], _, rfl, ?_, fun _ => hfits.toNat_toUInt32⟩
        rintro v hv
        cases List.mem_singleton.mp hv
        exact hfits

/-- A record with results of the TSC. -/
def Measured.withTsc (m : Measured) (interval cycles : UInt64) : Measured :=
  { m with tscInterval := interval, tscCycles := cycles }

/-- The section of the TSC returns `false` for an empty interval. -/
theorem tscStats_eq (h : flags &&& timeBenchLoop ≠ 0 → 1000 ≤ invokedCnt.toNat) (m : Measured) :
    ∃ interval cycles, tscStats flags invokedCnt m =
      pure (decide (flags &&& timeBenchTsc ≠ 0 → m.tscStop - m.tscStart ≠ 0),
        m.withTsc interval cycles) := by
  unfold tscStats Measured.withTsc
  by_cases htsc : flags &&& timeBenchTsc = 0
  · exact ⟨m.tscInterval, m.tscCycles, by simp [htsc]⟩
  · rw [if_pos htsc]
    dsimp only
    by_cases hzero : m.tscStop - m.tscStart = 0
    · exact ⟨0, m.tscCycles, by simp [htsc, hzero]⟩
    · rw [if_neg hzero]
      by_cases hloop : flags &&& timeBenchLoop = 0
      · exact ⟨m.tscStop - m.tscStart, m.tscStop - m.tscStart, by simp [htsc, hzero, hloop]⟩
      · have hne : invokedCnt.toUInt64 ≠ 0 := by
          intro hcnt
          have := congrArg UInt64.toNat hcnt
          rw [UInt32.toNat_toUInt64, UInt64.toNat_zero] at this
          have := h hloop
          omega
        exact ⟨m.tscStop - m.tscStart, (m.tscStop - m.tscStart) / invokedCnt.toUInt64,
          by simp [htsc, hzero, hloop, divU64_of_ne_zero _ hne]⟩

/-- The time between the two readings of the wall clock. -/
def Measured.elapsed (m : Measured) : UInt64 := m.tsStop.ns - m.tsStart.ns

/-- The cycles leave the elapsed time. -/
theorem elapsed_withTsc (m : Measured) (interval cycles : UInt64) :
    (m.withTsc interval cycles).elapsed = m.elapsed := rfl

/-- A record with its wall clock times. -/
def Measured.timed (m : Measured) : Measured :=
  { m with timeStart := m.tsStart.ns, timeStop := m.tsStop.ns, timeInterval := m.elapsed }

/-- A record with its wall clock times, and these in seconds. -/
def Measured.inSeconds (m : Measured) : Measured :=
  { m.timed with
    timeSec := m.elapsed / nanosecPerSec.toUInt64
    timeSecRemainder := (m.elapsed % nanosecPerSec.toUInt64).toUInt32 }

/-- The time for each of `c` invocations. -/
def Measured.perCall (m : Measured) (c : UInt32) : Measured :=
  { m with
    nsPerCallQuotient := m.timeInterval / c.toUInt64
    nsPerCallDecimal :=
      (m.timeInterval % c.toUInt64).toUInt32.toUInt64 / (c / 1000).toUInt64 }

/-- The cost per call with 1000 calls or more. -/
theorem perCallStats_eq (h : 1000 ≤ invokedCnt.toNat) (m : Measured) :
    perCallStats invokedCnt m = pure (m.perCall invokedCnt) := by
  have hprecision : (invokedCnt / 1000).toNat ≠ 0 := by
    rw [UInt32.toNat_div]
    show invokedCnt.toNat / 1000 ≠ 0
    omega
  have hne : invokedCnt ≠ 0 := by
    rintro rfl
    exact absurd h (by decide)
  have hne' : invokedCnt / 1000 ≠ 0 := fun hzero => hprecision (by rw [hzero]; rfl)
  have hpos : invokedCnt / 1000 > 0 := UInt32.lt_iff_toNat_lt.mpr (Nat.pos_of_ne_zero hprecision)
  simp only [perCallStats, divU64Rem_of_ne_zero _ hne, pure_bind, if_pos hpos,
    divU64Rem_of_ne_zero _ hne', Measured.perCall]

/-- The section of the wall clock, when it is not asked for. -/
theorem wallclockStats_of_eq_zero (h : flags &&& timeBenchWallclock = 0) :
    wallclockStats flags invokedCnt m = pure (true, m) := if_neg (not_not.mpr h)

/-- The section of the wall clock returns `false` for an empty interval. -/
theorem wallclockStats_of_elapsed_eq_zero (h : flags &&& timeBenchWallclock ≠ 0)
    (hzero : m.elapsed = 0) : wallclockStats flags invokedCnt m = pure (false, m.timed) := by
  unfold wallclockStats
  rw [if_pos h]
  exact if_pos hzero

/-- The section of the wall clock, for the time of a whole run. -/
theorem wallclockStats_of_total (h : flags &&& timeBenchWallclock ≠ 0) (hne : m.elapsed ≠ 0)
    (hloop : flags &&& timeBenchLoop = 0) :
    wallclockStats flags invokedCnt m = pure (true, m.inSeconds) := by
  unfold wallclockStats
  rw [if_pos h]
  refine (if_neg hne).trans ?_
  rw [divU64Rem_of_ne_zero _ (by decide), pure_bind]
  exact if_neg (not_not.mpr hloop)

/-- The section of the wall clock, for the time of a call. -/
theorem wallclockStats_of_loop (h : flags &&& timeBenchWallclock ≠ 0) (hne : m.elapsed ≠ 0)
    (hloop : flags &&& timeBenchLoop ≠ 0) (hcnt : 1000 ≤ invokedCnt.toNat) :
    wallclockStats flags invokedCnt m = pure (true, m.inSeconds.perCall invokedCnt) := by
  unfold wallclockStats
  rw [if_pos h]
  refine (if_neg hne).trans ?_
  rw [divU64Rem_of_ne_zero _ (by decide), pure_bind]
  refine (if_pos hloop).trans ?_
  rw [perCallStats_eq hcnt, pure_bind]
  rfl

/-- A record after the section of the wall clock. -/
def Measured.wallclocked (m : Measured) (flags invokedCnt : UInt32) : Measured :=
  if flags &&& timeBenchWallclock = 0 then m
  else if flags &&& timeBenchLoop = 0 then m.inSeconds
  else m.inSeconds.perCall invokedCnt

/-- The wall clock part, when it divides by no 0. -/
theorem wallclockStats_of_ne_zero (h : flags &&& timeBenchLoop ≠ 0 → 1000 ≤ invokedCnt.toNat)
    (hne : flags &&& timeBenchWallclock ≠ 0 → m.elapsed ≠ 0) :
    wallclockStats flags invokedCnt m = pure (true, m.wallclocked flags invokedCnt) := by
  unfold Measured.wallclocked
  by_cases hwall : flags &&& timeBenchWallclock = 0
  · rw [if_pos hwall, wallclockStats_of_eq_zero hwall]
  · rw [if_neg hwall]
    by_cases hloop : flags &&& timeBenchLoop = 0
    · rw [if_pos hloop, wallclockStats_of_total hwall (hne hwall) hloop]
    · rw [if_neg hloop, wallclockStats_of_loop hwall (hne hwall) hloop (h hloop)]

/-- The clock cycles between the two readings of the counter. -/
def Measured.clk (m : Measured) : UInt64 := m.pmcClkStop - m.pmcClkStart

/-- The cycles leave the clock counts. -/
theorem clk_withTsc (m : Measured) (interval cycles : UInt64) :
    (m.withTsc interval cycles).clk = m.clk := rfl

/-- The wall clock part leaves the clock counts. -/
theorem clk_wallclocked (m : Measured) (flags invokedCnt : UInt32) :
    (m.wallclocked flags invokedCnt).clk = m.clk := by
  unfold Measured.wallclocked
  split
  · rfl
  · split <;> rfl

/-- The section of the PMU changes the results of the PMU only. -/
theorem pmuStats_frame (h : (pmuStats flags m).result = .ok m') :
    ∃ inst clk quotient decimal, m' = { m with
      pmcInst := inst, pmcClk := clk, pmcIpcQuotient := quotient, pmcIpcDecimal := decimal } := by
  unfold pmuStats at h
  split at h
  · simp only [result_bind_eq_ok] at h
    obtain ⟨divisor, -, ⟨quotient, remainder⟩, -, pmcIpcDiv, -, h⟩ := h
    by_cases hdiv : pmcIpcDiv > 0
    · rw [if_pos hdiv] at h
      obtain ⟨⟨decimal, rest⟩, -, h⟩ := result_bind_eq_ok.mp h
      cases h
      exact ⟨_, _, quotient, decimal, rfl⟩
    · rw [if_neg hdiv] at h
      cases h
      exact ⟨_, _, quotient, _, rfl⟩
  · cases h
    exact ⟨_, _, _, _, rfl⟩

/-- **When the section of the PMU divides**: the counter has moved by less than 2^32 cycles. -/
theorem pmuStats_completes_iff :
    (pmuStats flags m).Completes Fits32 ↔
      (flags &&& timeBenchPmu ≠ 0 → m.clk ≠ 0 ∧ Fits32 m.clk) := by
  unfold pmuStats
  split
  · rename_i hpmu
    rw [imp_iff_right hpmu]
    dsimp only
    rw [narrow_bind_completes_iff, divU64Rem_bind_completes_iff, narrow_bind_completes_iff]
    show Fits32 m.clk ∧ m.clk.toUInt32 ≠ 0 ∧ Fits32 (m.clk / 1000) ∧ _ ↔ m.clk ≠ 0 ∧ Fits32 m.clk
    constructor
    · rintro ⟨hfits, hne, -⟩
      exact ⟨fun hzero => hne (by rw [hzero]; rfl), hfits⟩
    · rintro ⟨hne, hfits⟩
      refine ⟨hfits, fun hzero => hne ?_, ?_, ?_⟩
      · rw [← UInt64.toNat_inj, ← hfits.toNat_toUInt32, hzero]
        rfl
      · exact lt_of_le_of_lt (Nat.div_le_self m.clk.toNat 1000) hfits
      · split
        · rename_i hdiv
          rw [divU64Rem_bind_completes_iff]
          exact ⟨(UInt32.ne_of_lt hdiv).symm, completes_pure _⟩
        · exact completes_pure _
  · rename_i hpmu
    exact iff_of_true (completes_pure m) fun h => absurd h hpmu

/-! ## The whole function -/

variable {rec rec' : Record Measured}

/-- The section of the PMU is reached: none of the sections before it returns `false`. -/
structure ReachesPmu (rec : Record Measured) : Prop where
  loop : LoopFits rec.flags rec.measured
  tsc : rec.flags &&& timeBenchTsc ≠ 0 → rec.measured.tscStop - rec.measured.tscStart ≠ 0
  wallclock : rec.flags &&& timeBenchWallclock ≠ 0 → rec.measured.elapsed ≠ 0

/-- The sections of the wall clock and of the PMU. -/
def lastStats (rec : Record Measured) (invokedCnt : UInt32) (m : Measured) :
    Stats (Bool × Record Measured) := do
  let (ok, m) ← wallclockStats rec.flags invokedCnt m
  if ok then
    let m ← pmuStats rec.flags m
    pure (true, { rec with measured := m })
  else pure (false, { rec with measured := m })

/-- A record with a number of invocations that fits goes on to the section of the TSC. -/
theorem timeBenchCalcStats_of_loopFits (h : LoopFits rec.flags rec.measured) :
    ∃ log invokedCnt interval cycles, (∀ v ∈ log, Fits32 v) ∧
      (rec.flags &&& timeBenchLoop ≠ 0 → invokedCnt.toNat = rec.measured.invokedCnt.toNat) ∧
      timeBenchCalcStats rec = (⟨log, .ok ⟨⟩⟩ : Stats PUnit) >>= fun _ =>
        if rec.flags &&& timeBenchTsc ≠ 0 → rec.measured.tscStop - rec.measured.tscStart ≠ 0 then
          lastStats rec invokedCnt (rec.measured.withTsc interval cycles)
        else pure (false, { rec with measured := rec.measured.withTsc interval cycles }) := by
  obtain ⟨hnot, -⟩ | ⟨-, log, invokedCnt, hloop, hlog, hcnt⟩ :=
    loopStats_cases rec.flags rec.measured
  · exact absurd h hnot
  · have hcnt' : rec.flags &&& timeBenchLoop ≠ 0 → 1000 ≤ invokedCnt.toNat := fun hflag =>
      le_of_le_of_eq (h hflag).1 (hcnt hflag).symm
    obtain ⟨interval, cycles, htsc⟩ := tscStats_eq hcnt' rec.measured
    refine ⟨log, invokedCnt, interval, cycles, hlog, hcnt, ?_⟩
    unfold timeBenchCalcStats
    rw [hloop, ok_bind]
    dsimp only
    rw [htsc, pure_bind]
    simp only [decide_eq_true_eq]
    rfl

/-- A record whose early sections return `false` is left without an error. -/
theorem timeBenchCalcStats_of_not_reachesPmu (h : ¬ ReachesPmu rec) :
    (timeBenchCalcStats rec).Completes Fits32 ∧
      ∀ rec', (timeBenchCalcStats rec).result ≠ .ok (true, rec') := by
  by_cases hfits : LoopFits rec.flags rec.measured
  · obtain ⟨log, invokedCnt, interval, cycles, hlog, -, heq⟩ :=
      timeBenchCalcStats_of_loopFits hfits
    rw [heq, ok_bind]
    by_cases htsc : rec.flags &&& timeBenchTsc ≠ 0 →
        rec.measured.tscStop - rec.measured.tscStart ≠ 0
    · -- the interval of the wall clock is empty
      have hempty : ¬ (rec.flags &&& timeBenchWallclock ≠ 0 → rec.measured.elapsed ≠ 0) :=
        fun hwall => h ⟨hfits, htsc, hwall⟩
      obtain ⟨hflag, helapsed⟩ := Classical.not_imp.mp hempty
      rw [not_not, ← elapsed_withTsc _ interval cycles] at helapsed
      rw [if_pos htsc, lastStats, wallclockStats_of_elapsed_eq_zero hflag helapsed, pure_bind]
      exact ⟨⟨by simpa [Always] using hlog, _, rfl⟩, fun _ hrec => by cases hrec⟩
    · rw [if_neg htsc]
      exact ⟨⟨by simpa [Always] using hlog, _, rfl⟩, fun _ hrec => by cases hrec⟩
  · obtain ⟨-, hloop⟩ | ⟨hloop, -⟩ := loopStats_cases rec.flags rec.measured
    · unfold timeBenchCalcStats
      rw [hloop]
      exact ⟨completes_pure _, fun _ hrec => by cases hrec⟩
    · exact absurd hloop hfits

/-- A record that reaches the section of the PMU. -/
theorem timeBenchCalcStats_of_reachesPmu (h : ReachesPmu rec) :
    ∃ log invokedCnt interval cycles, (∀ v ∈ log, Fits32 v) ∧
      (rec.flags &&& timeBenchLoop ≠ 0 → invokedCnt.toNat = rec.measured.invokedCnt.toNat) ∧
      timeBenchCalcStats rec = (⟨log, .ok ⟨⟩⟩ : Stats PUnit) >>= fun _ =>
        pmuStats rec.flags
            ((rec.measured.withTsc interval cycles).wallclocked rec.flags invokedCnt) >>=
          fun m => pure (true, { rec with measured := m }) := by
  obtain ⟨log, invokedCnt, interval, cycles, hlog, hcnt, heq⟩ :=
    timeBenchCalcStats_of_loopFits h.loop
  refine ⟨log, invokedCnt, interval, cycles, hlog, hcnt, ?_⟩
  have hcnt' : rec.flags &&& timeBenchLoop ≠ 0 → 1000 ≤ invokedCnt.toNat := fun hflag =>
    le_of_le_of_eq (h.loop hflag).1 (hcnt hflag).symm
  have hwall := h.wallclock
  rw [← elapsed_withTsc _ interval cycles] at hwall
  rw [heq, if_pos h.tsc, lastStats, wallclockStats_of_ne_zero hcnt' hwall, pure_bind]
  rfl

/-- **When every division and every conversion is right**: the section of the PMU is not reached, or
its counter has moved by less than 2^32 cycles. -/
theorem timeBenchCalcStats_completes_iff (rec : Record Measured) :
    (timeBenchCalcStats rec).Completes Fits32 ↔
      (rec.flags &&& timeBenchPmu ≠ 0 → ReachesPmu rec →
        rec.measured.clk ≠ 0 ∧ Fits32 rec.measured.clk) := by
  by_cases h : ReachesPmu rec
  · obtain ⟨log, invokedCnt, interval, cycles, hlog, -, heq⟩ := timeBenchCalcStats_of_reachesPmu h
    rw [heq, imp_iff_right h, completes_bind_iff, completes_bind_iff, pmuStats_completes_iff,
      clk_wallclocked, clk_withTsc]
    constructor
    · exact fun hall => (hall.2 ⟨⟩ rfl).1
    · exact fun hpmu => ⟨⟨hlog, _, rfl⟩, fun _ _ => ⟨hpmu, fun _ _ => completes_pure _⟩⟩
  · exact iff_of_true (timeBenchCalcStats_of_not_reachesPmu h).1 fun _ hreach => absurd hreach h

/-- A record that asks for the PMU only, with a counter at `clk`. -/
def pmuRecord (clk : UInt64) : Record Measured where
  versionAbi := 1
  loops := 0
  step := 0
  flags := timeBenchPmu
  cpu := 0
  measured := { (default : Measured) with pmcInstStop := 7, pmcClkStop := clk }

/-- **A counter that has moved by 2^32 cycles is narrowed to 0, and divided by.** -/
theorem not_completes_pmuRecord :
    (timeBenchCalcStats (pmuRecord 0x100000000)).result = .error .divideByZero ∧
      ¬ (timeBenchCalcStats (pmuRecord 0x100000000)).Completes Fits32 := by
  have hfault : (timeBenchCalcStats (pmuRecord 0x100000000)).result = .error .divideByZero := rfl
  refine ⟨hfault, fun ⟨_, out, hout⟩ => ?_⟩
  rw [hfault] at hout
  cases hout

end TimeBench
