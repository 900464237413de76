import PrototypeKernel.DdosBlacklist.Client

/-! # Syscalls that fail

Each of the three map syscalls of `blacklist_port_modify()` may fail, with any error, and has no
effect then. A failed lookup leaves zeroes in the values that are written back, and a failed reset
of the counters comes after the values have been written. -/

namespace DdosBlacklist

open KernelInt

variable {C : ℕ}

/-! ## The call -/

/-- Which syscalls of a call fail, and with which `errno`. -/
structure Faults where
  lookup : Option ℤ
  update : Option ℤ
  clear : Option ℤ

/-- No syscall fails that need not. -/
def Faults.none : Faults := ⟨Option.none, Option.none, Option.none⟩

/-- The result of a syscall on a map: `fault` when there is one, and `errno` for a key that is not
there. -/
def attempt {α : Type*} (fault : Option ℤ) (errno : ℤ) (result : Option α) : Except ℤ α :=
  match fault, result with
  | some errno, _ => .error errno
  | none, none => .error errno
  | none, some a => .ok a

/-- `blacklist_port_modify()`, with `countfd` open on the drop counters of a protocol: the exit code
and the maps. -/
def Call.modify (c : Call) (countfd : Filter) (faults : Faults) (m : Maps C) : ℤ × Maps C :=
  match c.check with
  | .error code => (code, m)
  | .ok f =>
      let currValues :=
        match attempt faults.lookup enoent (m.portBlacklist.lookup c.key) with
        -- reported only
        | .error _ => fun _ => 0
        | .ok values => values
      match attempt faults.update e2big (m.portBlacklist.update c.key (c.change f currValues)) with
      | .error errno => (if errno = eexist then exitOk else exitFailMapKey, m)
      | .ok a =>
          let m := { m with portBlacklist := a }
          if c.action = actionDel then
            match attempt faults.clear e2big
              ((m.dropCountByFproto countfd).update c.key fun _ => 0) with
            | .error _ => (exitFailMapKey, m)
            | .ok a => (exitOk, m.setDropCount countfd a)
          else (exitOk, m)

/-- **Without failures the call does what `blacklistPortModify` says**, on the counters of its
protocol. -/
theorem modify_none {c : Call} {f : Filter} (hcheck : c.check = .ok f) (m : Maps C) :
    c.modify f .none m = blacklistPortModify c m := by
  unfold Call.modify blacklistPortModify
  rw [hcheck]
  dsimp only [Faults.none]
  have hlookup : (match attempt Option.none enoent (m.portBlacklist.lookup c.key) with
      | .error _ => fun _ => 0
      | .ok values => values) = (m.portBlacklist.lookup c.key).getD fun _ => 0 := by
    cases m.portBlacklist.lookup c.key <;> rfl
  rw [hlookup]
  cases m.portBlacklist.update c.key _ with
  | none => rfl
  | some a =>
    dsimp only [attempt]
    cases (({ m with portBlacklist := a } : Maps C).dropCountByFproto f).update c.key
      fun _ => 0 <;> rfl

/-- The values that a call writes for a request: it changes what it has looked up, or zeroes. -/
def Request.written (r : Request) (faults : Faults) (m : Maps C) : Fin C → UInt64 :=
  r.change (if faults.lookup.isSome then fun _ => 0 else m.portBlacklist r.port)

/-- **What a valid call does**, whichever of its syscalls fail. -/
theorem modify_of_request {c : Call} {r : Request} (h : c.request = some r) (countfd : Filter)
    (faults : Faults) (m : Maps C) :
    c.modify countfd faults m =
      match faults.update with
      | some errno => (if errno = eexist then exitOk else exitFailMapKey, m)
      | none =>
          let m' := { m with
            portBlacklist := Function.update m.portBlacklist r.port (r.written faults m) }
          if r.add then (exitOk, m')
          else if faults.clear.isSome then (exitFailMapKey, m')
          else (exitOk, m'.setDropCount countfd
            (Function.update (m.dropCountByFproto countfd) r.port fun _ => 0)) := by
  obtain ⟨hcheck, hindex, hadd, haction⟩ := Call.check_of_request h
  have hlookup : (match attempt faults.lookup enoent (m.portBlacklist.lookup c.key) with
      | .error _ => fun _ => 0
      | .ok values => values) =
        if faults.lookup.isSome then fun _ => 0 else m.portBlacklist r.port := by
    rw [PercpuArray.lookup, hindex]
    cases faults.lookup <;> rfl
  unfold Call.modify
  rw [hcheck]
  dsimp only
  rw [hlookup, Call.change_eq hadd haction, PercpuArray.update, hindex]
  cases faults.update with
  | some errno => rfl
  | none =>
    dsimp only [attempt, Option.map_some]
    rcases haction with hact | hact
    · have hne : ¬ actionAdd = actionDel := by decide
      simp [hadd, hact, hne, Request.written]
    · have hne : ¬ actionDel = actionAdd := by decide
      simp only [hadd, hact, hne, PercpuArray.update, hindex, if_true, decide_false,
        Bool.false_eq_true, if_false, Option.map_some]
      cases faults.clear <;> rfl

/-- An invalid call changes no map. -/
theorem modify_of_invalid {c : Call} (h : c.request = none) (countfd : Filter) (faults : Faults)
    (m : Maps C) : (c.modify countfd faults m).2 = m := by
  unfold Call.modify
  cases hcheck : c.check with
  | error code => rfl
  | ok f =>
    have hindex := Call.check_of_invalid h hcheck
    dsimp only
    rw [PercpuArray.update, hindex, Option.map_none]
    cases faults.update <;> rfl

/-! ## What is left behind -/

/-- **A call that is safe under failures**: the other protocol keeps its bits, and a call that fails
changes neither the port blacklist nor the drop counters. -/
structure FaultSafe (c : Call) (countfd : Filter) (faults : Faults) (m : Maps C) : Prop where
  other : ∀ f, c.check = .ok f → ∀ g, g ≠ f → ∀ i cpu,
    portBit g ((c.modify countfd faults m).2.portBlacklist i cpu) =
      portBit g (m.portBlacklist i cpu)
  kept : (c.modify countfd faults m).1 ≠ exitOk →
    (c.modify countfd faults m).2.portBlacklist = m.portBlacklist ∧
      ∀ f, (c.modify countfd faults m).2.dropCountByFproto f = m.dropCountByFproto f

/-- **When no failure does harm.** When the values are written, the lookup has not failed on a port
that has the bit of the other protocol on some CPU, and a reset of the counters has not failed after
a delete that changed the values. -/
def Request.Harmless (r : Request) (faults : Faults) (m : Maps C) : Prop :=
  faults.update = none →
    (faults.lookup = none ∨
      ∀ g, g ≠ r.filter → ∀ cpu, portBit g (m.portBlacklist r.port cpu) = false) ∧
    (r.add ∨ faults.clear = none ∨
      if faults.lookup = none then ∀ cpu, portBit r.filter (m.portBlacklist r.port cpu) = false
      else ∀ cpu, m.portBlacklist r.port cpu = 0)

/-- In the value 0 no filter is listed. -/
theorem portBit_zero (f : Filter) : portBit f 0 = false := by cases f <;> rfl

/-- The bits of the other protocol in the values that are written. -/
theorem portBit_written (r : Request) (faults : Faults) (m : Maps C) {g : Filter}
    (hg : g ≠ r.filter) (cpu : Fin C) : portBit g (r.written faults m cpu) =
      if faults.lookup = none then portBit g (m.portBlacklist r.port cpu) else false := by
  rw [Request.written, portBit_change, if_neg hg]
  cases faults.lookup with
  | none => rfl
  | some errno => exact portBit_zero g

/-- A delete writes the values that are there. -/
theorem written_eq_self {r : Request} (hdel : r.add = false) (faults : Faults) (m : Maps C) :
    r.written faults m = m.portBlacklist r.port ↔
      if faults.lookup = none then ∀ cpu, portBit r.filter (m.portBlacklist r.port cpu) = false
      else ∀ cpu, m.portBlacklist r.port cpu = 0 := by
  rw [Request.written]
  cases faults.lookup with
  | none => exact change_eq_self hdel
  | some errno =>
    have hzero : r.change (fun _ : Fin C => 0) = fun _ => 0 :=
      (change_eq_self hdel).mpr fun _ => portBit_zero _
    simp [hzero, funext_iff, eq_comm]

/-- The other protocol keeps its bits at the port of the request. -/
theorem written_other_iff (r : Request) (faults : Faults) (m : Maps C) :
    (∀ g, g ≠ r.filter → ∀ cpu,
        portBit g (r.written faults m cpu) = portBit g (m.portBlacklist r.port cpu)) ↔
      (faults.lookup = none ∨
        ∀ g, g ≠ r.filter → ∀ cpu, portBit g (m.portBlacklist r.port cpu) = false) := by
  cases hlookup : faults.lookup with
  | none =>
    refine iff_of_true (fun g hg cpu => ?_) (.inl rfl)
    rw [portBit_written r faults m hg, if_pos hlookup]
  | some errno =>
    have hfailed : faults.lookup ≠ none := by simp [hlookup]
    simp only [reduceCtorEq, false_or]
    refine forall_congr' fun g => forall_congr' fun hg => forall_congr' fun cpu => ?_
    rw [portBit_written r faults m hg, if_neg hfailed]
    exact eq_comm

section Written

variable {c : Call} {r : Request} {faults : Faults}

/-- The port blacklist after a call that writes the values. -/
theorem portBlacklist_modify (hreq : c.request = some r) (hupdate : faults.update = none)
    (countfd : Filter) (m : Maps C) :
    (c.modify countfd faults m).2.portBlacklist =
      Function.update m.portBlacklist r.port (r.written faults m) := by
  rw [modify_of_request hreq, hupdate]
  dsimp only
  split
  · rfl
  · split
    · rfl
    · rw [setDropCount_portBlacklist]

/-- With an update that succeeds, the other filters keep their bits if and only if the lookup
succeeded or the port had no other bits. -/
theorem other_iff (hreq : c.request = some r) (hupdate : faults.update = none) (countfd : Filter)
    (m : Maps C) :
    (∀ f, c.check = .ok f → ∀ g, g ≠ f → ∀ i cpu,
        portBit g ((c.modify countfd faults m).2.portBlacklist i cpu) =
          portBit g (m.portBlacklist i cpu)) ↔
      (faults.lookup = none ∨
        ∀ g, g ≠ r.filter → ∀ cpu, portBit g (m.portBlacklist r.port cpu) = false) := by
  have hcheck := (Call.check_of_request hreq).1
  rw [portBlacklist_modify hreq hupdate, ← written_other_iff]
  constructor
  · intro h g hg cpu
    simpa using h r.filter hcheck g hg r.port cpu
  · intro h f hf g hg i cpu
    cases hcheck.symm.trans hf
    by_cases hi : i = r.port
    · rw [hi, Function.update_self]
      exact h g hg cpu
    · rw [Function.update_of_ne hi]

/-- With an update that succeeds, a call that fails leaves the maps if and only if it adds, its
reset did not fail, or its delete found nothing to clear. -/
theorem kept_iff (hreq : c.request = some r) (hupdate : faults.update = none) (countfd : Filter)
    (m : Maps C) :
    ((c.modify countfd faults m).1 ≠ exitOk →
        (c.modify countfd faults m).2.portBlacklist = m.portBlacklist ∧
          ∀ f, (c.modify countfd faults m).2.dropCountByFproto f = m.dropCountByFproto f) ↔
      (r.add ∨ faults.clear = none ∨
        if faults.lookup = none then ∀ cpu, portBit r.filter (m.portBlacklist r.port cpu) = false
        else ∀ cpu, m.portBlacklist r.port cpu = 0) := by
  have hports := portBlacklist_modify hreq hupdate countfd m
  have hrun := modify_of_request hreq countfd faults m
  rw [hupdate] at hrun
  cases hadd : r.add with
  | true => exact iff_of_true (fun h => absurd (by simp [hrun, hadd]) h) (.inl rfl)
  | false =>
    rw [← written_eq_self hadd]
    cases hclear : faults.clear with
    | none => exact iff_of_true (fun h => absurd (by simp [hrun, hadd, hclear]) h) (.inr (.inl rfl))
    | some errno =>
      -- the reset fails after the values have been written
      have hcode : (c.modify countfd faults m).1 ≠ exitOk := by
        simp [hrun, hadd, hclear, exitOk, exitFailMapKey]
      have hcounts : ∀ f, (c.modify countfd faults m).2.dropCountByFproto f =
          m.dropCountByFproto f := by
        intro f
        simp only [hrun, hadd, hclear, Bool.false_eq_true, if_false, Option.isSome_some, if_true]
        cases f <;> rfl
      simp [hcode, hcounts, hports]

end Written

/-- **Failing syscalls do no harm exactly when `Harmless` holds** of a valid request. -/
theorem faultSafe_iff (c : Call) (countfd : Filter) (faults : Faults) (m : Maps C) :
    FaultSafe c countfd faults m ↔ ∀ r, c.request = some r → r.Harmless faults m := by
  cases hreq : c.request with
  | none =>
    have hrun := modify_of_invalid hreq countfd faults m
    refine iff_of_true ⟨fun f _ g _ i cpu => by rw [hrun], fun _ => ?_⟩ nofun
    rw [hrun]
    exact ⟨rfl, fun _ => rfl⟩
  | some r =>
    simp only [Option.some.injEq, forall_eq']
    cases hupdate : faults.update with
    | some errno =>
      -- nothing is written
      have hrun : (c.modify countfd faults m).2 = m := by rw [modify_of_request hreq, hupdate]
      refine iff_of_true ⟨fun f _ g _ i cpu => by rw [hrun], fun _ => ?_⟩ fun h => ?_
      · rw [hrun]
        exact ⟨rfl, fun _ => rfl⟩
      · rw [hupdate] at h
        cases h
    | none =>
      constructor
      · rintro ⟨hother, hkept⟩ -
        exact ⟨(other_iff hreq hupdate countfd m).mp hother,
          (kept_iff hreq hupdate countfd m).mp hkept⟩
      · intro h
        obtain ⟨hlookup, hclear⟩ := h hupdate
        exact ⟨(other_iff hreq hupdate countfd m).mpr hlookup,
          (kept_iff hreq hupdate countfd m).mpr hclear⟩

/-- Port 53 is listed for UDP on the only CPU. -/
def udpDns : Maps 1 := { Maps.zero 1 with portBlacklist := fun i _ => if i.val = 53 then 2 else 0 }

/-- **Two failures that do harm.** A failed lookup on the way to add TCP loses UDP though the call
succeeds, and a failed reset on the way to delete UDP fails after the port has been changed. -/
theorem faultSafe_violated :
    ((⟨53, actionAdd, 6⟩ : Call).modify .tcp ⟨some 4, none, none⟩ udpDns).1 = exitOk ∧
      portBit .udp (((⟨53, actionAdd, 6⟩ : Call).modify .tcp ⟨some 4, none, none⟩
        udpDns).2.portBlacklist ⟨53, by decide⟩ 0) = false ∧
      ¬ FaultSafe ⟨53, actionAdd, 6⟩ .tcp ⟨some 4, none, none⟩ udpDns ∧
      ((⟨53, actionDel, 17⟩ : Call).modify .udp ⟨none, none, some 4⟩ udpDns).1 = exitFailMapKey ∧
      ¬ FaultSafe ⟨53, actionDel, 17⟩ .udp ⟨none, none, some 4⟩ udpDns := by
  have hlost : portBit .udp (((⟨53, actionAdd, 6⟩ : Call).modify .tcp ⟨some 4, none, none⟩
      udpDns).2.portBlacklist ⟨53, by decide⟩ 0) = false := by decide
  have hcode : ((⟨53, actionDel, 17⟩ : Call).modify .udp ⟨none, none, some 4⟩ udpDns).1 =
      exitFailMapKey := by decide
  refine ⟨by decide, hlost, fun h => ?_, hcode, fun h => ?_⟩
  · have hother := h.other .tcp (by decide) .udp (by decide) ⟨53, by decide⟩ 0
    rw [hlost] at hother
    exact absurd hother (by decide)
  · have hkept := congrFun (congrFun (h.kept (by rw [hcode]; decide)).1 ⟨53, by decide⟩) 0
    exact absurd hkept (by decide)

end DdosBlacklist
