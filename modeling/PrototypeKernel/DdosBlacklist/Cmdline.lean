import PrototypeKernel.DdosBlacklist.Listing
import PrototypeKernel.DdosBlacklist.Options

/-! # The command-line tool

`main()` of `xdp_ddos01_blacklist_cmdline.c`, with `blacklist_modify()` and `stats_poll()`. All
buffers have a slot for each possible CPU but the one with which `blacklist_list_all_ports()` looks
up a port. The port that is changed is the one of the last port option, and the protocol is UDP if
there is any option `--udp-dport`. -/

namespace DdosBlacklist

open Getopt KernelInt

variable {C : ℕ}

/-! ## Changing the blacklists -/

/-- A number from 0 to 255, without leading zeroes. -/
def octet (s : List Char) : Option UInt32 :=
  if s ≠ [] ∧ s.all Char.isDigit ∧ (s.head? = some '0' → s = ['0']) ∧
      Nat.ofDigitChars 10 s 0 ≤ 255 then
    some (.ofNat (Nat.ofDigitChars 10 s 0))
  else none

/-- `inet_pton()`, with the address as it stands in memory. -/
def inetPton (s : List Char) : Option UInt32 :=
  match s.splitOn '.' with
  | [a, b, c, d] => do
      return (← octet a) ||| (← octet b) <<< 8 ||| (← octet c) <<< 16 ||| (← octet d) <<< 24
  | _ => none

/-- The exit code for an `errno`. -/
def exitOfErrno (errno : ℤ) : ℤ := if errno = eexist then exitOk else exitFailMapKey

/-- `blacklist_modify()`. -/
def blacklistModify (host : Host) (m : Maps C) (ipString : List Char) (action : UInt32) :
    Tool C (ℤ × Maps C) :=
  match inetPton ipString with
  | none => return (exitFailIp, m)
  | some key =>
      if action = actionAdd then do
        let nrCpus := C
        let values ← updateElem .blacklist key (List.replicate nrCpus 0)
        -- `BPF_NOEXIST`
        let noexist := if m.blacklist key = none then some () else none
        match attempt host.ipFault eexist noexist with
        | .error errno => return (exitOfErrno errno, m)
        | .ok () =>
            return (exitOk, { m with blacklist := Function.update m.blacklist key (some values) })
      else if action = actionDel then
        match attempt host.ipFault enoent (m.blacklist key) with
        | .error errno => return (exitOfErrno errno, m)
        | .ok _ => return (exitOk, { m with blacklist := Function.update m.blacklist key none })
      else return (exitFailOption, m)

/-- The loops over `curr_values`. -/
def Call.changeSlots (c : Call) (f : Filter) (currValues : List UInt64) : List UInt64 :=
  if c.action = actionAdd then currValues.map (· ||| f.value)
  else if c.action = actionDel then currValues.map (· &&& ~~~ f.value)
  else currValues

/-- `blacklist_port_modify()` with its buffers. -/
def Call.modifyBuffers (c : Call) (host : Host) (m : Maps C) (countfd : Filter) :
    Tool C (ℤ × Maps C) :=
  match c.check with
  | .error code => return (code, m)
  | .ok f => do
      let nrCpus := C
      let currValues := List.replicate nrCpus 0
      let found ← lookupElem m .portBlacklist host.portFaults.lookup c.key currValues
      let values ← updateElem .portBlacklist c.key (c.changeSlots f (found.getD currValues))
      match attempt host.portFaults.update e2big (m.portBlacklist.update c.key values) with
      | .error errno => return (exitOfErrno errno, m)
      | .ok a =>
          let m := { m with portBlacklist := a }
          if c.action = actionDel then do
            let values ← updateElem (.portBlacklistCount countfd) c.key (List.replicate nrCpus 0)
            match attempt host.portFaults.clear e2big
                ((m.dropCountByFproto countfd).update c.key values) with
            | .error _ => return (exitFailMapKey, m)
            | .ok a => return (exitOk, m.setDropCount countfd a)
          else return (exitOk, m)

/-! ## The tool -/

/-- `stats_collect()`: the counters of the record. -/
def statsCollect (host : Host) (m : Maps C) : Tool C (List UInt64) :=
  (List.range xdpActionMax.toNat).mapM fun i => getKey32Value64Percpu host m .verdict (.ofNat i)

/-- The endless loop of `stats_poll()`, for a number of rounds. -/
def statsLoop (host : Host) (m : Maps C) : ℕ → Tool C Unit
  | 0 => Logged.stop .running
  | fuel + 1 => do
      let _ ← statsCollect host m
      statsLoop host m fuel

/-- `stats_poll()`. -/
def statsPoll (host : Host) (m : Maps C) (fuel : ℕ) : Tool C Unit := do
  openBpfMap host .verdict
  statsLoop host m fuel

/-- The address of the command line. -/
def modifyIp (host : Host) (m : Maps C) (o : Options) : Tool C (ℤ × Maps C) :=
  match o.ipString with
  | none => return (exitOk, m)
  | some ip => do
      openBpfMap host .blacklist
      blacklistModify host m ip o.action

/-- The port of the command line. -/
def modifyPort (host : Host) (o : Options) (res : ℤ × Maps C) : Tool C (ℤ × Maps C) :=
  if o.dport ≠ 0 then do
    openBpfMap host .portBlacklist
    openBpfMap host (.portBlacklistCount o.filter)
    let c : Call := ⟨o.dport, o.action, o.proto⟩
    Logged.write (.portModify c o.filter)
    c.modifyBuffers host res.2 o.filter
  else return res

/-- What `main()` does after the options, for at most `fuel` rounds of each loop: the exit code and
the maps. -/
def runOptions (host : Host) (m : Maps C) (o : Options) (operands : List Word) (fuel : ℕ) :
    Tool C (ℤ × Maps C) := do
  openBpfMap host .verdict
  if o.action ≠ 0 then
    if o.ipString = none ∧ o.dport = 0 then Logged.stop (.exit exitFailOption)
    else modifyIp host m o >>= modifyPort host o
  else if operands ≠ [] then Logged.stop (.exit exitFailOption)
  else do
    let _ ← (if o.doList then listAll host m fuel else pure ())
    let _ ← (if o.stats then statsPoll host m fuel else pure ())
    return (exitOk, m)

/-- `main()`. -/
def main (host : Host) (m : Maps C) (argv : List Word) (fuel : ℕ) : Tool C (ℤ × Maps C) :=
  match Options.parse (optionsOf argv) with
  | .error code => Logged.stop (.exit code)
  | .ok o => runOptions host m o (operandsOf argv) fuel

/-- Options that are accepted are run. -/
theorem main_of_parse {host : Host} {m : Maps C} {argv : List Word} {o : Options}
    (h : Options.parse (optionsOf argv) = .ok o) (fuel : ℕ) :
    main host m argv fuel = runOptions host m o (operandsOf argv) fuel := by
  rw [main, h]

/-! ## The text of an address -/

/-- The digits of a byte are read back. -/
theorem octet_digits {n : ℕ} (h : n < 256) : octet (CText.digits n) = some (.ofNat n) := by
  have hall : ∀ n : Fin 256, octet (CText.digits n) = some (.ofNat n) := by decide +kernel
  exact hall ⟨n, h⟩

/-- An address is printed as its four bytes, the first one first. -/
theorem splitOn_inetNtop (ip : UInt32) : (inetNtop ip).splitOn '.' =
    [CText.digits (ip.toNat % 256), CText.digits (ip.toNat / 256 % 256),
      CText.digits (ip.toNat / 65536 % 256), CText.digits (ip.toNat / 16777216)] := by
  have hdot (n : ℕ) : '.' ∉ CText.digits n := fun hmem =>
    absurd (CText.isDigit_of_mem_digits hmem) (by decide)
  have hjoin : inetNtop ip = ['.'].intercalate [CText.digits (ip.toNat % 256),
      CText.digits (ip.toNat / 256 % 256), CText.digits (ip.toNat / 65536 % 256),
      CText.digits (ip.toNat / 16777216)] := by
    simp [List.intercalate, inetNtop]
  rw [hjoin]
  exact List.splitOn_intercalate '.' (by simp [hdot]) (by simp)

/-- A number is put together from its octets. -/
theorem or_octets (n : ℕ) :
    n % 256 ||| (n / 256 % 256) <<< 8 ||| (n / 65536 % 256) <<< 16 ||| (n / 16777216) <<< 24 =
      n := by
  have hone : n % 256 ||| (n / 256 % 256) <<< 8 = n % 65536 := by
    rw [Nat.or_comm, ← Nat.shiftLeft_add_eq_or_of_lt (by omega), Nat.shiftLeft_eq]
    omega
  have htwo : n % 65536 ||| (n / 65536 % 256) <<< 16 = n % 16777216 := by
    rw [Nat.or_comm, ← Nat.shiftLeft_add_eq_or_of_lt (by omega), Nat.shiftLeft_eq]
    omega
  rw [hone, htwo, Nat.or_comm, ← Nat.shiftLeft_add_eq_or_of_lt (by omega), Nat.shiftLeft_eq]
  omega

/-- **The text of an address is read as the address.** -/
theorem inetPton_inetNtop (ip : UInt32) : inetPton (inetNtop ip) = some ip := by
  have hip := ip.toNat_lt
  have hshift {a k : ℕ} (ha : a < 256) (hk : k ≤ 24) : (a % 2 ^ 32) <<< k % 2 ^ 32 = a <<< k := by
    have hpow : 2 ^ k ≤ 2 ^ 24 := Nat.pow_le_pow_right (by decide) hk
    have hlt : a * 2 ^ k < 2 ^ 32 :=
      Nat.lt_of_le_of_lt (Nat.mul_le_mul_left a hpow) (by omega)
    rw [Nat.mod_eq_of_lt (show a < 2 ^ 32 by omega), Nat.shiftLeft_eq, Nat.mod_eq_of_lt hlt]
  have hoctet (n : ℕ) : n % 256 < 256 := Nat.mod_lt n (by decide)
  have hlast : ip.toNat / 16777216 < 256 := by omega
  rw [inetPton, splitOn_inetNtop]
  simp only [octet_digits (hoctet _), octet_digits hlast]
  show some _ = some ip
  congr 1
  rw [← UInt32.toNat_inj]
  simp only [UInt32.toNat_or, UInt32.toNat_shiftLeft, UInt32.toNat_ofNat']
  show _ % 2 ^ 32 ||| (_ % 2 ^ 32) <<< 8 % 2 ^ 32 ||| (_ % 2 ^ 32) <<< 16 % 2 ^ 32 |||
    (_ % 2 ^ 32) <<< 24 % 2 ^ 32 = _
  rw [hshift (hoctet _) (by decide), hshift (hoctet _) (by decide), hshift hlast (by decide),
    Nat.mod_eq_of_lt (by omega), or_octets]

/-! ## The port in the maps -/

/-- A cleared buffer has a 0 for each CPU. -/
theorem replicate_eq_ofFn (C : ℕ) :
    List.replicate C (0 : UInt64) = List.ofFn fun _ : Fin C => 0 := by
  rw [List.ofFn_const]

/-- The loop over the slots changes the value of each CPU. -/
theorem changeSlots_ofFn (c : Call) (f : Filter) (values : Fin C → UInt64) :
    c.changeSlots f (List.ofFn values) = List.ofFn (c.change f values) := by
  unfold Call.changeSlots Call.change
  split
  · exact List.map_ofFn ..
  · split
    · exact List.map_ofFn ..
    · rfl

/-- The values that a call changes: what it has looked up, or zeroes. -/
def Call.currValues (c : Call) (faults : Faults) (m : Maps C) : Fin C → UInt64 :=
  match attempt faults.lookup enoent (m.portBlacklist.lookup c.key) with
  | .error _ => fun _ => 0
  | .ok values => values

/-- The lookup of a call leaves these values in the buffer. -/
theorem exists_currValues (c : Call) (faults : Faults) (m : Maps C) :
    ∃ a found, lookupElem m .portBlacklist faults.lookup c.key (List.replicate C 0) =
        ⟨[.access a], .ok found⟩ ∧
      found.getD (List.replicate C 0) = List.ofFn (c.currValues faults m) := by
  obtain ⟨a, -, hlookup⟩ := exists_lookupElem m .portBlacklist faults.lookup c.key
    (Nat.le_of_eq (List.length_replicate (n := C) (a := (0 : UInt64))).symm)
  refine ⟨a, _, hlookup, ?_⟩
  show Option.getD ((attempt faults.lookup enoent
    (m.portBlacklist.lookup c.key)).toOption.map _) _ = _
  unfold Call.currValues
  cases attempt faults.lookup enoent (m.portBlacklist.lookup c.key) with
  | error errno => exact replicate_eq_ofFn C
  | ok values => exact copyOut_eq List.length_replicate

/-- **With its buffers the call does what it does without**, whichever of its syscalls fail. -/
theorem result_modifyBuffers (c : Call) (host : Host) (m : Maps C) (countfd : Filter) :
    (c.modifyBuffers host m countfd).result = .ok (c.modify countfd host.portFaults m) := by
  unfold Call.modifyBuffers Call.modify
  cases c.check with
  | error code => rfl
  | ok f =>
    obtain ⟨a, found, hlookup, hvalues⟩ := exists_currValues c host.portFaults m
    dsimp only
    rw [hlookup, Logged.ok_bind]
    dsimp only
    rw [hvalues, changeSlots_ofFn, updateElem_ofFn, Logged.ok_bind]
    dsimp only [Call.currValues]
    cases attempt host.portFaults.update e2big (m.portBlacklist.update c.key _) with
    | error errno => rfl
    | ok a =>
      dsimp only
      split
      · rw [replicate_eq_ofFn, updateElem_ofFn, Logged.ok_bind]
        dsimp only
        cases attempt host.portFaults.clear e2big
          ((({ m with portBlacklist := a } : Maps C).dropCountByFproto countfd).update c.key
            fun _ => 0) <;> rfl
      · rfl

/-! ## What is logged -/

/-- A change of an address is quiet. -/
theorem quiet_blacklistModify (host : Host) (m : Maps C) (ipString : List Char)
    (action : UInt32) : (blacklistModify host m ipString action).Always Act.Quiet := by
  unfold blacklistModify
  split
  · exact Logged.always_pure _
  · split
    · dsimp only
      rw [replicate_eq_ofFn]
      refine (quiet_updateElem _ _ _).bind fun values => ?_
      split <;> exact Logged.always_pure _
    · split
      · split <;> exact Logged.always_pure _
      · exact Logged.always_pure _

/-- The accesses of a change of a port are quiet. -/
theorem quiet_modifyBuffers (c : Call) (host : Host) (m : Maps C) (countfd : Filter) :
    (c.modifyBuffers host m countfd).Always Act.Quiet := by
  unfold Call.modifyBuffers
  cases c.check with
  | error code => exact Logged.always_pure _
  | ok f =>
    obtain ⟨a, found, hlookup, hvalues⟩ := exists_currValues c host.portFaults m
    refine Logged.always_bind_iff.mpr ⟨quiet_lookupElem _ _ _ _ (by simp), ?_⟩
    rw [hlookup]
    rintro _ ⟨⟩
    rw [hvalues, changeSlots_ofFn]
    refine (quiet_updateElem _ _ _).bind fun values => ?_
    split
    · exact Logged.always_pure _
    · dsimp only
      split
      · rw [replicate_eq_ofFn]
        refine (quiet_updateElem _ _ _).bind fun values => ?_
        split <;> exact Logged.always_pure _
      · exact Logged.always_pure _

/-- The loop of the statistics is quiet. -/
theorem quiet_statsLoop (host : Host) (m : Maps C) (fuel : ℕ) :
    (statsLoop host m fuel).Always Act.Quiet := by
  induction fuel with
  | zero => exact Logged.always_stop _
  | succ fuel ih =>
    have hcollect : (statsCollect host m).Always Act.Quiet :=
      Logged.always_mapM (fun i => quiet_getKey32Value64Percpu host m .verdict (.ofNat i)) _
    exact hcollect.bind fun _ => ih

/-- The statistics are quiet. -/
theorem quiet_statsPoll (host : Host) (m : Maps C) (fuel : ℕ) :
    (statsPoll host m fuel).Always Act.Quiet :=
  (always_openBpfMap host .verdict).bind fun _ => quiet_statsLoop host m fuel

/-- The listing of the addresses is quiet. -/
theorem quiet_listAllIpv4 (host : Host) (m : Maps C) (fuel : ℕ) :
    (blacklistListAllIpv4 host m fuel).Always Act.Quiet := by
  have hbody (key nextKey : UInt32) (u : Unit) : (listIpv4 host m key nextKey u).Always Act.Quiet :=
    (quiet_printf _).bind fun _ =>
      (quiet_getKey32Value64Percpu host m .blacklist nextKey).bind fun _ => quiet_printf _
  exact (KeyLoop.always_loop (I := fun _ => True) (Logged.always_stop _)
    (fun key nextKey u _ => hbody key nextKey u) (fun _ _ _ _ _ _ => trivial) fuel 0 trivial).bind
      fun _ => quiet_printf _

/-- The printing of a port is quiet. -/
theorem quiet_blacklistPrintPort (host : Host) (m : Maps C) (key val : UInt32) :
    (blacklistPrintPort host m key val).Always Act.Quiet := by
  have hfilter (started : Bool) (f : Filter) :
      (printFilter host m key val started f).Always Act.Quiet := by
    unfold printFilter
    split
    · exact (quiet_printf _).bind fun _ => (quiet_getKey32Value64Percpu host m _ key).bind fun _ =>
        (quiet_printf _).bind fun _ => Logged.always_pure _
    · exact Logged.always_pure _
  have hclose (started : Bool) :
      (if started then printf (.str "\n \x7d".toList) else pure () : Tool C Unit).Always
        Act.Quiet := by
    split
    · exact quiet_printf _
    · exact Logged.always_pure _
  refine (quiet_printf _).bind fun _ => Logged.Always.bind ?_ hclose
  exact Logged.always_foldlM (fun started f => hfilter started f) _ _

/-- **With one CPU the ports are looked up into a buffer that is long enough.** -/
theorem quiet_listAllPorts (host : Host) (m : Maps C) (hC : C ≤ 1) (fuel : ℕ) :
    (blacklistListAllPorts host m fuel).Always Act.Quiet := by
  have hlist (key nextKey : UInt32) (s : List UInt64 × Bool) (hs : C ≤ s.1.length) :
      (listPort host m key nextKey s).Always Act.Quiet ∧
        ∀ s', (listPort host m key nextKey s).result = .ok s' → C ≤ s'.1.length := by
    unfold listPort
    constructor
    · refine (quiet_lookupElem m _ none key hs).bind fun found => ?_
      dsimp only
      split
      · exact (quiet_printf _).bind fun _ => (quiet_blacklistPrintPort host m key _).bind fun _ =>
          Logged.always_pure _
      · exact Logged.always_pure _
    · intro s' hs'
      obtain ⟨found, hfound, hs'⟩ := Logged.result_bind_eq_ok.mp hs'
      have hlength := le_length_of_lookupElem hs hfound
      dsimp only at hs'
      split at hs'
      · obtain ⟨_, -, hs'⟩ := Logged.result_bind_eq_ok.mp hs'
        obtain ⟨_, -, hs'⟩ := Logged.result_bind_eq_ok.mp hs'
        cases hs'
        exact hlength
      · cases hs'
        exact hlength
  refine (KeyLoop.always_loop (I := fun s => C ≤ s.1.length) (Logged.always_stop _)
    (fun key nextKey s hs => (hlist key nextKey s hs).1)
    (fun key nextKey s s' hs => (hlist key nextKey s hs).2 s') fuel 0 hC).bind fun _ =>
      Logged.always_pure _

/-- The branch of `main` for an address is quiet. -/
theorem quiet_modifyIp (host : Host) (m : Maps C) (o : Options) :
    (modifyIp host m o).Always Act.Quiet := by
  unfold modifyIp
  cases o.ipString with
  | none => exact Logged.always_pure _
  | some ip =>
    exact (always_openBpfMap host _).bind fun _ => quiet_blacklistModify host m ip o.action

/-- `blacklist_modify()` returns. -/
theorem exists_result_blacklistModify (host : Host) (m : Maps C) (ipString : List Char)
    (action : UInt32) : ∃ res, (blacklistModify host m ipString action).result = .ok res := by
  unfold blacklistModify
  split
  · exact ⟨_, rfl⟩
  · split
    · dsimp only
      rw [replicate_eq_ofFn, updateElem_ofFn, Logged.ok_bind]
      dsimp only
      split <;> exact ⟨_, rfl⟩
    · split
      · split <;> exact ⟨_, rfl⟩
      · exact ⟨_, rfl⟩

/-- Behind a file that opens. -/
theorem mem_log_openBpfMap_bind {α : Type} {host : Host} {file : MapFile} {f : Unit → Tool C α}
    {a : Act C} : a ∈ (openBpfMap host file >>= f).log ↔ host.opens file ∧ a ∈ (f ()).log := by
  have hnone : a ∉ (openBpfMap host file).log := always_openBpfMap (P := fun _ => False) host file a
  rw [Logged.mem_log_bind, or_iff_right hnone]
  constructor
  · rintro ⟨u, hopens, hmem⟩
    exact ⟨result_openBpfMap.mp hopens, hmem⟩
  · rintro ⟨hopens, hmem⟩
    exact ⟨(), result_openBpfMap.mpr hopens, hmem⟩

/-- What is quiet changes no port. -/
theorem portModify_notMem {α : Type} {x : Tool C α} (h : x.Always Act.Quiet) {c : Call}
    {countfd : Filter} : Act.portModify c countfd ∉ x.log := fun hmem => h _ hmem

end DdosBlacklist
