import PrototypeKernel.DdosBlacklist.Program
import Mathlib.Data.List.Induction

/-! # The XDP program of the drop-pattern benchmark

`xdp_prog()` of `xdp_bench02_drop_pattern_kern.c` on a packet and the maps, on one of `C` CPUs.
Packets, and the functions and constants that are the same in `xdp_ddos01_blacklist_kern.c`, are
those of that program. The pattern counts its calls on each CPU in the map `count`, whose value it
resets one call ahead. -/

namespace XdpBench02

open DdosBlacklist

variable {C : ℕ}

/-! ## Maps -/

/-- `struct pattern`. -/
structure Pattern where
  type : UInt32
  arg : UInt32
  deriving DecidableEq, Repr

/-- The maps of the program. `blacklist` is a hash map, the others are arrays, of one element except
`verdict_cnt`. The values of `touch_memory` and `xdp_action` have 8 bytes. -/
structure Maps (C : ℕ) where
  rxCnt : PercpuArray 1 C
  xdpPattern : Fin 1 → Pattern
  touchMemory : Fin 1 → UInt64
  verdictCnt : PercpuArray xdpActionMax.toNat C
  count : PercpuArray 1 C
  blacklist : UInt32 → Option (Fin C → UInt64)
  xdpAction : Fin 1 → UInt64

/-- The element of an array under a key. -/
def lookupElem {α : Type} {n : ℕ} (a : Fin n → α) (key : UInt32) : Option α :=
  (PercpuArray.index n key).map a

/-- Add one to the value of the CPU under key 0, if there is one. -/
def addOne (cpu : Fin C) (a : PercpuArray 1 C) : PercpuArray 1 C :=
  match PercpuArray.index 1 0 with
  | none => a
  | some i => a.modify i cpu (· + 1)

/-! ## The program -/

/-- `stats_action_verdict()`. -/
def statsActionVerdict (cpu : Fin C) (action : UInt32) (m : Maps C) : Maps C :=
  if action ≥ xdpActionMax then m
  else
    match PercpuArray.index _ action with
    | none => m
    | some i => { m with verdictCnt := m.verdictCnt.modify i cpu (· + 1) }

/-- What `N_drop_N_accept()` leaves in a counter. -/
def nextCount (N val : UInt64) : UInt64 := if val + 1 ≥ N * 2 then 0 else val + 1

/-- What `N_drop_N_accept()` returns for a counter. -/
def patternVerdict (N val : UInt64) : UInt32 :=
  if N = 0 then xdpPass
  else if val < N then xdpDrop
  else if val ≥ N ∧ val < N * 2 then xdpPass
  else xdpTx

/-- `N_drop_N_accept()` on the map `count`. -/
def nDropNAccept (N : UInt64) (cpu : Fin C) (count : PercpuArray 1 C) :
    UInt32 × PercpuArray 1 C :=
  match PercpuArray.index 1 0 with
  | none => (patternVerdict N 0, count)
  | some i => (patternVerdict N (count i cpu), count.modify i cpu (nextCount N))

/-- Count a drop for a blacklisted address. -/
def Maps.countAddr (m : Maps C) (src : UInt32) (values : Fin C → UInt64) (cpu : Fin C) : Maps C :=
  { m with
    blacklist := Function.update m.blacklist src
      (some (Function.update values cpu (values cpu + 1))) }

/-- `parse_ipv4()`. -/
def parseIpv4 (cpu : Fin C) (p : Packet) (l3Offset : ℕ) (m : Maps C) :
    Option (UInt32 × Maps C) :=
  let iph := l3Offset
  if iph + ipHlen > p.length then some (xdpAborted, m)
  else do
    let ipSrc ← p.u32 (iph + 12)
    match m.blacklist ipSrc with
    | some values => return (xdpDrop, m.countAddr ipSrc values cpu)
    | none => return (xdpPass, m)

/-- `handle_eth_protocol()`. -/
def handleEthProtocol (cpu : Fin C) (p : Packet) (ethProto : UInt16) (l3Offset : ℕ) (m : Maps C) :
    Option (UInt32 × Maps C) :=
  if ethProto = ethPIp then parseIpv4 cpu p l3Offset m else some (xdpPass, m)

/-- The action that overrides another one. The program reads the value as a `u32`, its low half. -/
def overrideAction (m : Maps C) (action : UInt32) : UInt32 :=
  match lookupElem m.xdpAction 0 with
  | none => action
  | some value =>
      let a3 := value.toUInt32
      if a3 > 0 ∧ a3 < xdpActionMax then a3 else action

/-- `xdp_prog()` from the counter `rx_cnt` on. -/
def applyPattern (cpu : Fin C) (pattern : Pattern) (m : Maps C) : UInt32 × Maps C :=
  let m := { m with rxCnt := addOne cpu m.rxCnt }
  let (action, m) :=
    if pattern.type = 1 then
      let (action, count) := nDropNAccept pattern.arg.toUInt64 cpu m.count
      (action, { m with count := count })
    else (xdpDrop, m)
  let action := overrideAction m action
  (action, statsActionVerdict cpu action m)

/-- `xdp_prog()` on CPU `cpu`. -/
def xdpProg (cpu : Fin C) (p : Packet) (m : Maps C) : Option (UInt32 × Maps C) :=
  if ethHlen > p.length then some (xdpDrop, m)
  else
    match lookupElem m.xdpPattern 0 with
    | none => some (xdpAborted, m)
    | some pattern =>
        if lookupElem m.touchMemory 0 = some 1 then do
          match ← parseEth p with
          | none => return (xdpPass, m)
          | some (ethProto, l3Offset) =>
              let (a2, m) ← handleEthProtocol cpu p ethProto l3Offset m
              -- the jump to `out`
              if a2 = xdpDrop then return (a2, statsActionVerdict cpu a2 m)
              else return applyPattern cpu pattern m
        else some (applyPattern cpu pattern m)

/-! ## One call of the pattern -/

/-- The element 0 of an array with one element. -/
def first : Fin 1 := ⟨0, Nat.one_pos⟩

/-- Every counter is 0. -/
def zeroCount : PercpuArray 1 C := fun _ _ => 0

/-- A call gives the verdict of its counter and counts. -/
theorem nDropNAccept_eq (N : UInt64) (cpu : Fin C) (count : PercpuArray 1 C) :
    nDropNAccept N cpu count =
      (patternVerdict N (count first cpu), count.modify first cpu (nextCount N)) := rfl

/-- The period does not overflow. -/
theorem toNat_mul_two (n : UInt32) : (n.toUInt64 * 2).toNat = 2 * n.toNat := by
  have hlt : n.toNat < 2 ^ 32 := n.toNat_lt
  simp
  omega

/-- **The reset keeps the counter below twice the argument**, as a counter that wraps there. -/
theorem toNat_nextCount {n : UInt32} {val : UInt64} (h : val.toNat < 2 * n.toNat) :
    (nextCount n.toUInt64 val).toNat = (val.toNat + 1) % (2 * n.toNat) := by
  have hlt : n.toNat < 2 ^ 32 := n.toNat_lt
  have hsucc : (val + 1).toNat = val.toNat + 1 := by
    simp
    omega
  have hreset : val + 1 ≥ n.toUInt64 * 2 ↔ 2 * n.toNat ≤ val.toNat + 1 := by
    rw [ge_iff_le, UInt64.le_iff_toNat_le, toNat_mul_two, hsucc]
  unfold nextCount
  by_cases hlast : 2 * n.toNat ≤ val.toNat + 1
  · have heq : val.toNat + 1 = 2 * n.toNat := by omega
    rw [if_pos (hreset.mpr hlast), heq, Nat.mod_self]
    rfl
  · rw [if_neg fun hge => hlast (hreset.mp hge), hsucc, Nat.mod_eq_of_lt (by omega)]

/-- A counter below the argument drops, another one below twice the argument accepts. -/
theorem patternVerdict_of_lt {n : UInt32} {val : UInt64} (h : val.toNat < 2 * n.toNat) :
    patternVerdict n.toUInt64 val = if val.toNat < n.toNat then xdpDrop else xdpPass := by
  have hne : n.toUInt64 ≠ 0 := fun heq => by
    have hzero : n.toNat = 0 := by simpa using congrArg UInt64.toNat heq
    omega
  have hdrop : val < n.toUInt64 ↔ val.toNat < n.toNat := by simp [UInt64.lt_iff_toNat_lt]
  rw [patternVerdict, if_neg hne]
  by_cases hval : val.toNat < n.toNat
  · rw [if_pos (hdrop.mpr hval), if_pos hval]
  · have haccept : val ≥ n.toUInt64 ∧ val < n.toUInt64 * 2 := by
      constructor
      · exact UInt64.not_lt.mp fun hlt => hval (hdrop.mp hlt)
      · rw [UInt64.lt_iff_toNat_lt, toNat_mul_two]
        exact h
    rw [if_neg fun hlt => hval (hdrop.mp hlt), if_pos haccept, if_neg hval]

/-! ## Runs of the pattern -/

/-- The map `count` after calls of `N_drop_N_accept()` on the CPUs of a list. -/
def afterCalls (N : UInt64) (cpus : List (Fin C)) (count : PercpuArray 1 C) : PercpuArray 1 C :=
  cpus.foldl (fun count cpu => (nDropNAccept N cpu count).2) count

/-- The calls of two parts, one after the other. -/
theorem afterCalls_append (N : UInt64) (cpus cpus' : List (Fin C)) (count : PercpuArray 1 C) :
    afterCalls N (cpus ++ cpus') count = afterCalls N cpus' (afterCalls N cpus count) :=
  List.foldl_append ..

/-- **A counter counts the calls on its CPU**, and starts again at twice the argument. -/
theorem toNat_afterCalls {n : UInt32} (hn : 1 ≤ n) (cpus : List (Fin C)) (cpu : Fin C) :
    (afterCalls n.toUInt64 cpus zeroCount first cpu).toNat = cpus.count cpu % (2 * n.toNat) := by
  have hpos : 1 ≤ n.toNat := UInt32.le_iff_toNat_le.mp hn
  -- the last call changes one counter
  induction cpus using List.reverseRecOn with
  | nil => rfl
  | append_singleton cpus cpu' ih =>
    rw [afterCalls_append, List.count_append]
    show ((afterCalls n.toUInt64 cpus zeroCount).modify first cpu' (nextCount n.toUInt64)
      first cpu).toNat = _
    by_cases hcpu : cpu' = cpu
    · subst hcpu
      have hlt : (afterCalls n.toUInt64 cpus zeroCount first cpu').toNat < 2 * n.toNat := by
        rw [ih]
        exact Nat.mod_lt _ (by omega)
      rw [PercpuArray.modify_self, toNat_nextCount hlt, ih, Nat.mod_add_mod,
        List.count_singleton_self]
    · rw [PercpuArray.modify_of_ne _ _ fun heq => hcpu (Prod.mk.inj heq).2.symm, ih,
        List.count_singleton, if_neg (by simpa using hcpu), Nat.add_zero]

/-- **The pattern is periodic.** After any calls on any CPUs a call on a CPU with `k` calls before
it drops in the first half of a period of `2 * n` calls and accepts in the second one, the counter
stands at the place in the period, and the verdict is never `XDP_TX`. -/
theorem nDropNAccept_periodic {n : UInt32} (hn : 1 ≤ n) (cpus : List (Fin C)) (cpu : Fin C) :
    let count := afterCalls n.toUInt64 cpus zeroCount
    let verdict := (nDropNAccept n.toUInt64 cpu count).1
    let k := cpus.count cpu
    verdict = (if k % (2 * n.toNat) < n.toNat then xdpDrop else xdpPass) ∧
      (count first cpu).toNat < 2 * n.toNat ∧ verdict ≠ xdpTx := by
  have hpos : 1 ≤ n.toNat := UInt32.le_iff_toNat_le.mp hn
  have hcount := toNat_afterCalls hn cpus cpu
  have hlt : (afterCalls n.toUInt64 cpus zeroCount first cpu).toNat < 2 * n.toNat := by
    rw [hcount]
    exact Nat.mod_lt _ (by omega)
  have hverdict := patternVerdict_of_lt hlt
  refine ⟨?_, hlt, ?_⟩
  · rw [nDropNAccept_eq, hverdict, hcount]
  · rw [nDropNAccept_eq, hverdict]
    dsimp only
    split <;> decide

/-- Of three packets that are dropped and three that are accepted, the fourth on CPU 1. -/
theorem nDropNAccept_periodic_three :
    (1 : UInt32) ≤ 3 ∧
      (nDropNAccept (UInt32.toUInt64 3) (Fin.last 1)
        (afterCalls (UInt32.toUInt64 3)
          [Fin.last 1, ⟨0, Nat.two_pos⟩, Fin.last 1, Fin.last 1] zeroCount)).1 = xdpPass :=
  ⟨by decide, (nDropNAccept_periodic (n := 3) (by decide)
    [Fin.last 1, ⟨0, Nat.two_pos⟩, Fin.last 1, Fin.last 1] (Fin.last 1)).1⟩

/-! ## Runs of the program -/

/-- Counting a verdict leaves the counter of the pattern. -/
@[simp] theorem count_statsActionVerdict (cpu : Fin C) (action : UInt32) (m : Maps C) :
    (statsActionVerdict cpu action m).count = m.count := by
  unfold statsActionVerdict
  split
  · rfl
  · split <;> rfl

/-- Counting a verdict leaves the pattern. -/
@[simp] theorem xdpPattern_statsActionVerdict (cpu : Fin C) (action : UInt32) (m : Maps C) :
    (statsActionVerdict cpu action m).xdpPattern = m.xdpPattern := by
  unfold statsActionVerdict
  split
  · rfl
  · split <;> rfl

/-- The blacklist does not touch the pattern. -/
theorem count_handleEthProtocol {cpu : Fin C} {p : Packet} {ethProto : UInt16} {l3Offset : ℕ}
    {m m' : Maps C} {a : UInt32} (h : handleEthProtocol cpu p ethProto l3Offset m = some (a, m')) :
    m'.count = m.count ∧ m'.xdpPattern = m.xdpPattern := by
  unfold handleEthProtocol at h
  split at h
  · simp only [parseIpv4] at h
    split at h
    · cases h
      exact ⟨rfl, rfl⟩
    · obtain ⟨ipSrc, -, hsrc⟩ := Option.bind_eq_some_iff.mp h
      split at hsrc <;>
      · cases hsrc
        exact ⟨rfl, rfl⟩
  · cases h
    exact ⟨rfl, rfl⟩

/-- What a packet does to the map `count`: nothing, or one call of the pattern with its argument.
It leaves the pattern as it is. -/
structure Counted (cpu : Fin C) (m m' : Maps C) : Prop where
  count : ∃ cpus : List (Fin C), (∀ c ∈ cpus, c = cpu) ∧ cpus.length ≤ 1 ∧
    m'.count = afterCalls (m.xdpPattern first).arg.toUInt64 cpus m.count
  xdpPattern : m'.xdpPattern = m.xdpPattern

/-- What leaves the counter and the pattern has counted nothing. -/
theorem counted_of_eq (cpu : Fin C) {m m' : Maps C} (hcount : m'.count = m.count)
    (hpattern : m'.xdpPattern = m.xdpPattern) : Counted cpu m m' :=
  ⟨⟨[], nofun, Nat.zero_le 1, hcount⟩, hpattern⟩

/-- The pattern counts its calls. -/
theorem counted_applyPattern (cpu : Fin C) (m : Maps C) :
    Counted cpu m (applyPattern cpu (m.xdpPattern first) m).2 := by
  unfold applyPattern
  by_cases htype : (m.xdpPattern first).type = 1
  · refine ⟨⟨[cpu], by simp, Nat.le_refl 1, ?_⟩, ?_⟩
    · simp only [htype, if_true, count_statsActionVerdict]
      rfl
    · simp only [htype, if_true, xdpPattern_statsActionVerdict]
  · refine counted_of_eq cpu ?_ ?_
    · simp only [htype, if_false, count_statsActionVerdict]
    · simp only [htype, if_false, xdpPattern_statsActionVerdict]

/-- **A packet calls the pattern once at most.** -/
theorem counted_xdpProg {cpu : Fin C} {p : Packet} {m m' : Maps C} {a : UInt32}
    (h : xdpProg cpu p m = some (a, m')) : Counted cpu m m' := by
  have hpattern : lookupElem m.xdpPattern 0 = some (m.xdpPattern first) := rfl
  simp only [xdpProg, hpattern] at h
  split at h
  · cases h
    exact counted_of_eq cpu rfl rfl
  · split at h
    · obtain ⟨parsed, -, hparsed⟩ := Option.bind_eq_some_iff.mp h
      split at hparsed
      · cases hparsed
        exact counted_of_eq cpu rfl rfl
      · obtain ⟨⟨a2, m₁⟩, hhandle, hout⟩ := Option.bind_eq_some_iff.mp hparsed
        obtain ⟨hcount, hsame⟩ := count_handleEthProtocol hhandle
        dsimp only at hout
        split at hout
        · cases hout
          exact counted_of_eq cpu (by simpa using hcount) (by simpa using hsame)
        · cases hout
          have happly := counted_applyPattern cpu m₁
          rw [← hsame]
          refine ⟨?_, happly.xdpPattern.trans hsame⟩
          rw [← hcount, ← hsame]
          exact happly.count
    · cases h
      exact counted_applyPattern cpu m

/-- The program on one packet after the other, each on its CPU. -/
def runProg (ps : List (Fin C × Packet)) (m : Maps C) : Option (Maps C) :=
  ps.foldlM (fun m p => (xdpProg p.1 p.2 m).map Prod.snd) m

/-- **The counters of a run** are those of some calls of the pattern. -/
theorem exists_afterCalls_of_runProg {ps : List (Fin C × Packet)} {m m' : Maps C}
    (h : runProg ps m = some m') :
    ∃ cpus : List (Fin C),
      m'.count = afterCalls (m.xdpPattern first).arg.toUInt64 cpus m.count := by
  unfold runProg at h
  induction ps generalizing m with
  | nil =>
    cases h
    exact ⟨[], rfl⟩
  | cons p ps ih =>
    rw [List.foldlM_cons] at h
    obtain ⟨m₁, hstep, hrest⟩ := Option.bind_eq_some_iff.mp h
    obtain ⟨⟨a, m₁'⟩, hprog, rfl⟩ := Option.map_eq_some_iff.mp hstep
    obtain ⟨⟨cpus, -, -, hcount⟩, hpattern⟩ := counted_xdpProg hprog
    obtain ⟨cpus', hcount'⟩ := ih hrest
    refine ⟨cpus ++ cpus', ?_⟩
    rw [hcount', hpattern, hcount, afterCalls_append]

/-- **The counters of the program stay below twice the argument**, over every run. -/
theorem count_lt_of_runProg {ps : List (Fin C × Packet)} {m m' : Maps C}
    (h : runProg ps m = some m') (hzero : m.count = zeroCount)
    (harg : 1 ≤ (m.xdpPattern first).arg) (cpu : Fin C) :
    (m'.count first cpu).toNat < 2 * (m.xdpPattern first).arg.toNat := by
  have hpos : 1 ≤ (m.xdpPattern first).arg.toNat := UInt32.le_iff_toNat_le.mp harg
  obtain ⟨cpus, hcount⟩ := exists_afterCalls_of_runProg h
  rw [hcount, hzero, toNat_afterCalls harg]
  exact Nat.mod_lt _ (by omega)

end XdpBench02
