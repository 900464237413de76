import PrototypeKernel.TimeBench.CalcStats
import PrototypeKernel.Foundation.QuotientDecimals
import Mathlib.Data.Nat.Digits.Lemmas

/-! # The decimals of a time

`time_bench_loop()` prints the time for each call with `%llu.%03llu`. The three decimals are the
remainder divided by `invoked_cnt/1000`, and both of these divisions round. -/

namespace TimeBench

open Logged QuotientDecimals

variable {rec rec' : Record Measured} {c : UInt32}

/-- The number that `%llu.%03llu` prints. -/
def printed (quotient decimal : UInt64) : ℚ :=
  quotient.toNat + decimal.toNat / 10 ^ max 3 (Nat.digits 10 decimal.toNat).length

/-- Three digits are thousandths. -/
theorem printed_of_le (quotient : UInt64) {decimal : UInt64} (h : decimal.toNat ≤ 999) :
    printed quotient decimal = quotient.toNat + decimal.toNat / 1000 := by
  have hdigits : (Nat.digits 10 decimal.toNat).length ≤ 3 :=
    (Nat.digits_length_le_iff (by decide) _).mpr (Nat.lt_of_le_of_lt h (by decide))
  rw [printed, max_eq_left hdigits]
  norm_num

/-- **The time for each call is right to three decimals**, for `t` nanoseconds and `c` calls. -/
structure PerCallExact (t c : ℕ) (m : Measured) : Prop where
  quotient : m.nsPerCallQuotient.toNat = t / c
  decimal : m.nsPerCallDecimal.toNat ≤ 999
  printed : |printed m.nsPerCallQuotient m.nsPerCallDecimal - t / c| < 2 / 1000

/-- The two roundings for `t` nanoseconds and `c` calls stay together: the remainder is below the
multiple of 1000 that the count is truncated to, and what the truncation adds to it is small. -/
def RoundingsAgree (t c : ℕ) : Prop :=
  t % c < c - c % 1000 ∧ t % c * (c % 1000) < (2 * (c / 1000) + t % c % (c / 1000)) * c

/-- A multiple of 1000 is divided without a rounding. -/
theorem roundingsAgree_of_dvd {t c : ℕ} (hc : 1000 ≤ c) (h : 1000 ∣ c) : RoundingsAgree t c := by
  have hpos : 0 < c := lt_of_lt_of_le (by decide) hc
  rw [RoundingsAgree, Nat.mod_eq_zero_of_dvd h]
  exact ⟨Nat.mod_lt t hpos, Nat.mul_pos (by omega) hpos⟩

/-- The results for each of `c` calls, as numbers. -/
theorem perCall_toNat (m : Measured) (hc : 1000 ≤ c.toNat) :
    (m.perCall c).nsPerCallQuotient.toNat = m.timeInterval.toNat / c.toNat ∧
      (m.perCall c).nsPerCallDecimal.toNat = decimals 1000 m.timeInterval.toNat c.toNat := by
  have hrem : m.timeInterval.toNat % c.toNat < 2 ^ 32 :=
    lt_trans (Nat.mod_lt _ (by omega)) c.toNat_lt
  refine ⟨rfl, ?_⟩
  show m.timeInterval.toNat % c.toNat % 2 ^ 32 / (c.toNat / 1000) = _
  rw [Nat.mod_eq_of_lt hrem, decimals]

/-- When the time for each call is right. -/
theorem perCallExact_perCall_iff (m : Measured) (hc : 1000 ≤ c.toNat) :
    PerCallExact m.timeInterval.toNat c.toNat (m.perCall c) ↔
      RoundingsAgree m.timeInterval.toNat c.toNat := by
  obtain ⟨hquotient, hdecimal⟩ := perCall_toNat m hc
  rw [RoundingsAgree, ← decimals_lt_iff (by decide) hc, ← abs_error_lt_iff (by decide) hc]
  constructor
  · intro h
    have hle := h.decimal
    have hprinted := h.printed
    rw [printed_of_le _ hle, hquotient, hdecimal] at hprinted
    rw [hdecimal] at hle
    exact ⟨Nat.lt_succ_of_le hle, mod_cast hprinted⟩
  · rintro ⟨hlt, herror⟩
    have hle : (m.perCall c).nsPerCallDecimal.toNat ≤ 999 := by
      rw [hdecimal]
      exact Nat.le_of_lt_succ hlt
    refine ⟨hquotient, hle, ?_⟩
    rw [printed_of_le _ hle, hquotient, hdecimal]
    exact_mod_cast herror

/-- The time for each call, after the function has returned `true`. -/
theorem nsPerCall_of_timeBenchCalcStats (hloop : rec.flags &&& timeBenchLoop ≠ 0)
    (hwall : rec.flags &&& timeBenchWallclock ≠ 0)
    (h : (timeBenchCalcStats rec).result = .ok (true, rec')) :
    ∃ (c : UInt32) (m : Measured), c.toNat = rec.measured.invokedCnt.toNat ∧ 1000 ≤ c.toNat ∧
      m.timeInterval = rec.measured.elapsed ∧ rec'.measured.timeInterval = m.timeInterval ∧
      rec'.measured.nsPerCallQuotient = (m.perCall c).nsPerCallQuotient ∧
      rec'.measured.nsPerCallDecimal = (m.perCall c).nsPerCallDecimal := by
  by_cases hreach : ReachesPmu rec
  · obtain ⟨log, c, interval, cycles, -, hcnt, heq⟩ := timeBenchCalcStats_of_reachesPmu hreach
    rw [heq] at h
    obtain ⟨-, -, h⟩ := result_bind_eq_ok.mp h
    obtain ⟨m', hpmu, h⟩ := result_bind_eq_ok.mp h
    cases h
    obtain ⟨inst, clk, quotient, decimal, rfl⟩ := pmuStats_frame hpmu
    have hwallclocked : (rec.measured.withTsc interval cycles).wallclocked rec.flags c =
        (rec.measured.withTsc interval cycles).inSeconds.perCall c := by
      rw [Measured.wallclocked, if_neg hwall, if_neg hloop]
    refine ⟨c, (rec.measured.withTsc interval cycles).inSeconds, hcnt hloop,
      le_of_le_of_eq (hreach.loop hloop).1 (hcnt hloop).symm, rfl, ?_⟩
    rw [hwallclocked]
    exact ⟨rfl, rfl, rfl⟩
  · exact absurd h ((timeBenchCalcStats_of_not_reachesPmu hreach).2 rec')

/-- **When the time for each call is right**, in a record for which `time_bench_calc_stats()`
returns `true`. -/
theorem perCallExact_iff (hloop : rec.flags &&& timeBenchLoop ≠ 0)
    (hwall : rec.flags &&& timeBenchWallclock ≠ 0)
    (h : (timeBenchCalcStats rec).result = .ok (true, rec')) :
    rec'.measured.timeInterval = rec.measured.elapsed ∧
      (PerCallExact rec.measured.elapsed.toNat rec.measured.invokedCnt.toNat rec'.measured ↔
        RoundingsAgree rec.measured.elapsed.toNat rec.measured.invokedCnt.toNat) := by
  obtain ⟨cnt, m, hcnt, hle, hm, htime, hquotient, hdecimal⟩ :=
    nsPerCall_of_timeBenchCalcStats hloop hwall h
  refine ⟨htime.trans hm, ?_⟩
  rw [← hm, ← hcnt, ← perCallExact_perCall_iff m hle]
  constructor
  · rintro ⟨h₁, h₂, h₃⟩
    rw [hquotient] at h₁ h₃
    rw [hdecimal] at h₂ h₃
    exact ⟨h₁, h₂, h₃⟩
  · rintro ⟨h₁, h₂, h₃⟩
    rw [← hquotient] at h₁ h₃
    rw [← hdecimal] at h₂ h₃
    exact ⟨h₁, h₂, h₃⟩

/-- A record of `cnt` calls that took `t` nanoseconds. -/
def wallclockRecord (cnt : UInt64) (t : Int64) : Record Measured where
  versionAbi := 1
  loops := cnt.toUInt32
  step := 0
  flags := timeBenchLoop ||| timeBenchWallclock
  cpu := 0
  measured := { (default : Measured) with invokedCnt := cnt, tsStop := ⟨0, t⟩ }

/-- The record after it. -/
def wallclockRecordStats (cnt : UInt64) (t : Int64) : Record Measured :=
  { wallclockRecord cnt t with
    measured := (wallclockRecord cnt t).measured.inSeconds.perCall cnt.toUInt32 }

/-- A record of 1000 calls in 2500 ns. -/
theorem perCallExact_iff_thousand :
    (wallclockRecordStats 1000 2500).measured.timeInterval = 2500 ∧
      (PerCallExact 2500 1000 (wallclockRecordStats 1000 2500).measured ↔
        RoundingsAgree 2500 1000) :=
  have hstats : (timeBenchCalcStats (wallclockRecord 1000 2500)).result =
      .ok (true, wallclockRecordStats 1000 2500) := rfl
  perCallExact_iff (by decide) (by decide) hstats

/-- **1999 calls that took 1998 nanoseconds are printed as 0.1998 nanoseconds each.** -/
theorem not_perCallExact_1999 :
    (timeBenchCalcStats (wallclockRecord 1999 1998)).result =
        .ok (true, wallclockRecordStats 1999 1998) ∧
      (wallclockRecordStats 1999 1998).measured.nsPerCallDecimal = 1998 ∧
      ¬ PerCallExact 1998 1999 (wallclockRecordStats 1999 1998).measured := by
  refine ⟨rfl, rfl, fun h => ?_⟩
  exact absurd h.decimal (by decide)

end TimeBench
