import PrototypeKernel.DdosBlacklist.Cmdline

/-! # The port that the command line changes

The port given to `blacklist_port_modify()` is the one of the last port option. The protocol is UDP
if any of the options is `--udp-dport`, so it is the one of the last port option unless this is
`--tcp-dport` and a `--udp-dport` stands before it. -/

namespace DdosBlacklist

open Getopt

variable {C : ℕ}

/-! ## The call -/

/-- The listing changes no port. -/
theorem portModify_notMem_listAll (host : Host) (m : Maps C) (fuel : ℕ) {c : Call}
    {countfd : Filter} : Act.portModify c countfd ∉ (listAll host m fuel).log := by
  have hquiet {x : Tool C Unit} (hx : x.Always Act.Quiet) :
      x.Always (· ≠ Act.portModify c countfd) := by
    refine hx.mono fun a ha => ?_
    rintro rfl
    exact ha
  have hports : (blacklistListAllPorts host m fuel).Always (· ≠ Act.portModify c countfd) := by
    by_cases hC : C ≤ 1
    · exact hquiet (quiet_listAllPorts host m hC fuel)
    · cases fuel with
      | zero => exact (Logged.always_stop _).bind fun _ => Logged.always_pure _
      | succ fuel =>
        rw [listAllPorts_crash host m (Nat.lt_of_not_le hC) (Nat.succ_pos fuel)]
        simp [Logged.Always]
  have hlist : (listAll host m fuel).Always (· ≠ Act.portModify c countfd) :=
    (hquiet (quiet_printf _)).bind fun _ => (always_openBpfMap host _).bind fun _ =>
      (hquiet (quiet_listAllIpv4 host m fuel)).bind fun _ =>
        (always_openBpfMap host _).bind fun _ =>
          (Logged.always_forM (fun f => always_openBpfMap host _) _).bind fun _ =>
            hports.bind fun _ => hquiet (quiet_printf _)
  exact fun hmem => hlist _ hmem rfl

/-- What `main()` needs to get to the call of `blacklist_port_modify()`. -/
structure Options.ModifiesPort (o : Options) (host : Host) : Prop where
  verdict : host.opens .verdict
  action : o.action ≠ 0
  blacklist : o.ipString.isSome → host.opens .blacklist
  dport : o.dport ≠ 0
  portBlacklist : host.opens .portBlacklist
  countfd : host.opens (.portBlacklistCount o.filter)

/-- `main` changes the port of its options, for the protocol of the last one. -/
theorem portModify_mem_modifyPort {host : Host} {o : Options} {res : ℤ × Maps C} {c : Call}
    {countfd : Filter} : Act.portModify c countfd ∈ (modifyPort host o res).log ↔
      o.dport ≠ 0 ∧ host.opens .portBlacklist ∧ host.opens (.portBlacklistCount o.filter) ∧
        c = ⟨o.dport, o.action, o.proto⟩ ∧ countfd = o.filter := by
  unfold modifyPort
  by_cases hdport : o.dport ≠ 0
  · have hmodify (c' : Call) :
        Act.portModify c countfd ∉ (c'.modifyBuffers host res.2 o.filter).log :=
      portModify_notMem (quiet_modifyBuffers c' host res.2 o.filter)
    rw [if_pos hdport, mem_log_openBpfMap_bind, mem_log_openBpfMap_bind, Logged.mem_log_bind]
    simp [Logged.write, hdport, hmodify]
  · rw [if_neg hdport]
    exact iff_of_false List.not_mem_nil fun h => hdport h.1

/-- The address is no obstacle when its file opens. -/
theorem exists_result_modifyIp {host : Host} {m : Maps C} {o : Options} :
    (∃ res, (modifyIp host m o).result = .ok res) ↔
      (o.ipString.isSome → host.opens .blacklist) := by
  unfold modifyIp
  cases o.ipString with
  | none => exact iff_of_true ⟨_, rfl⟩ nofun
  | some ip =>
    have hmodify := exists_result_blacklistModify host m ip o.action
    simp [Logged.result_bind_eq_ok, result_openBpfMap, hmodify]

/-- **When there is a call** of `blacklist_port_modify()`, and with which arguments. -/
theorem portModify_mem_runOptions {host : Host} {m : Maps C} {o : Options} {operands : List Word}
    {fuel : ℕ} {c : Call} {countfd : Filter} :
    Act.portModify c countfd ∈ (runOptions host m o operands fuel).log ↔
      o.ModifiesPort host ∧ c = ⟨o.dport, o.action, o.proto⟩ ∧ countfd = o.filter := by
  have hip : Act.portModify c countfd ∉ (modifyIp host m o).log :=
    portModify_notMem (quiet_modifyIp host m o)
  have hupdate : Act.portModify c countfd ∈ (modifyIp host m o >>= modifyPort host o).log ↔
      (o.ipString.isSome → host.opens .blacklist) ∧ o.dport ≠ 0 ∧ host.opens .portBlacklist ∧
        host.opens (.portBlacklistCount o.filter) ∧ c = ⟨o.dport, o.action, o.proto⟩ ∧
        countfd = o.filter := by
    rw [Logged.mem_log_bind, or_iff_right hip, ← exists_result_modifyIp (m := m)]
    simp only [portModify_mem_modifyPort, exists_and_right]
  unfold runOptions
  rw [mem_log_openBpfMap_bind]
  by_cases haction : o.action ≠ 0
  · rw [if_pos haction]
    by_cases hnone : o.ipString = none ∧ o.dport = 0
    · rw [if_pos hnone]
      exact iff_of_false (fun h => nomatch h.2) fun h => h.1.dport hnone.2
    · rw [if_neg hnone, hupdate]
      constructor
      · rintro ⟨hverdict, hblacklist, hdport, hports, hcount, hargs⟩
        exact ⟨⟨hverdict, haction, hblacklist, hdport, hports, hcount⟩, hargs⟩
      · rintro ⟨⟨hverdict, -, hblacklist, hdport, hports, hcount⟩, hargs⟩
        exact ⟨hverdict, hblacklist, hdport, hports, hcount, hargs⟩
  · -- without an action there is no call
    refine iff_of_false (fun h => ?_) fun h => haction h.1.action
    have hmem := h.2
    rw [if_neg haction] at hmem
    split at hmem
    · exact nomatch hmem
    · rcases Logged.mem_log_bind.mp hmem with hmem | ⟨_, -, hmem⟩
      · split at hmem
        · exact portModify_notMem_listAll host m fuel hmem
        · exact nomatch hmem
      · rcases Logged.mem_log_bind.mp hmem with hmem | ⟨_, -, hmem⟩
        · split at hmem
          · exact portModify_notMem (quiet_statsPoll host m fuel) hmem
          · exact nomatch hmem
        · exact nomatch hmem

/-- When there is a call in a run of the tool, and with which arguments. -/
theorem portModify_mem_main {host : Host} {m : Maps C} {argv : List Word} {fuel : ℕ} {c : Call}
    {countfd : Filter} :
    Act.portModify c countfd ∈ (main host m argv fuel).log ↔
      ∃ o, Options.parse (optionsOf argv) = .ok o ∧ o.ModifiesPort host ∧
        c = ⟨o.dport, o.action, o.proto⟩ ∧ countfd = o.filter := by
  unfold main
  cases Options.parse (optionsOf argv) with
  | error code => exact iff_of_false nofun fun ⟨_, h, _⟩ => nomatch h
  | ok o => simp [portModify_mem_runOptions]

/-! ## The last port option -/

/-- **The call is for the last port option**: it has its port, its protocol and the drop counters of
the protocol. -/
def LastDportModified (host : Host) (m : Maps C) (argv : List Word) : Prop :=
  ∀ fuel c countfd, Act.portModify c countfd ∈ (main host m argv fuel).log →
    ∃ f s, (dportOptions argv).getLast? = some (f, s) ∧ c.dport = CText.atoi s ∧
      c.proto = f.proto ∧ countfd = f

/-- The protocol that the options leave: UDP once there is `--udp-dport`. -/
def filterOf (argv : List Word) : Filter :=
  if ∃ d ∈ dportOptions argv, d.1 = .udp then .udp else .tcp

/-- **When the tool gets to the call**: the options are valid, there are an action and a port other
than 0, and the files open. -/
structure ModifiesPort (host : Host) (argv : List Word) : Prop where
  accepted : ∀ opt ∈ optionsOf argv, Accepted opt
  action : ∃ opt ∈ optionsOf argv, opt.1 = 'a' ∨ opt.1 = 'x'
  dport : ∃ d, (dportOptions argv).getLast? = some d ∧ CText.atoi d.2 ≠ 0
  verdict : host.opens .verdict
  blacklist : (∃ opt ∈ optionsOf argv, opt.1 = 'i') → host.opens .blacklist
  portBlacklist : host.opens .portBlacklist
  countfd : host.opens (.portBlacklistCount (filterOf argv))

/-- The protocol that the loop leaves. -/
theorem filter_of_after {argv : List Word} {o : Options}
    (h : Options.init.After (optionsOf argv) o) : o.filter = filterOf argv := by
  rw [h.filter, filterOf]
  simp only [exists_udp_iff]
  rfl

/-- The tool gets to the call exactly when what the loop leaves allows it. -/
theorem modifiesPort_iff {host : Host} {argv : List Word} {o : Options}
    (hparse : Options.parse (optionsOf argv) = .ok o) :
    o.ModifiesPort host ↔ ModifiesPort host argv := by
  obtain ⟨haccepted, hafter⟩ := Options.parse_eq_ok hparse
  have hfilter := filter_of_after hafter
  constructor
  · intro h
    exact ⟨haccepted, hafter.action_iff.mp h.action, hafter.dport_iff.mp h.dport, h.verdict,
      fun hi => h.blacklist (hafter.ipString_iff.mpr hi), h.portBlacklist, hfilter ▸ h.countfd⟩
  · intro h
    exact ⟨h.verdict, hafter.action_iff.mpr h.action,
      fun hi => h.blacklist (hafter.ipString_iff.mp hi), hafter.dport_iff.mpr h.dport,
      h.portBlacklist, hfilter ▸ h.countfd⟩

/-- The last port option agrees with the protocol unless it is for TCP and there is one for UDP. -/
theorem filter_eq_filterOf_iff {argv : List Word} {d : Filter × Word}
    (h : (dportOptions argv).getLast? = some d) :
    d.1 = filterOf argv ↔ (d.1 = .tcp → ∀ d' ∈ dportOptions argv, d'.1 = .tcp) := by
  have hmem := List.mem_of_getLast? h
  have htcp (f : Filter) : f = .tcp ↔ f ≠ .udp := by cases f <;> decide
  unfold filterOf
  split
  · rename_i hudp
    obtain ⟨d', hd', hfilter⟩ := hudp
    constructor
    · intro hd hd'
      cases hd.symm.trans hd'
    · intro hall
      by_contra hd
      exact absurd hfilter ((htcp _).mp (hall ((htcp _).mpr hd) d' hd'))
  · rename_i hudp
    have hall (d' : Filter × Word) (hd' : d' ∈ dportOptions argv) : d'.1 = .tcp :=
      (htcp _).mpr fun heq => hudp ⟨d', hd', heq⟩
    exact iff_of_true (hall d hmem) fun _ => hall

/-- **The call is for the last port option exactly when there is no call**, or this option is for
UDP, or no port option is. -/
theorem lastDportModified_iff (host : Host) (m : Maps C) (argv : List Word) :
    LastDportModified host m argv ↔
      (ModifiesPort host argv → ∀ d, (dportOptions argv).getLast? = some d → d.1 = .tcp →
        ∀ d' ∈ dportOptions argv, d'.1 = .tcp) := by
  constructor
  · intro hlast hmodifies d hd
    rw [← filter_eq_filterOf_iff hd]
    obtain ⟨o, hparse, hafter⟩ := Options.exists_parse hmodifies.accepted
    obtain ⟨f, s, hd', -, -, hcountfd⟩ := hlast 0 _ _
      (portModify_mem_main.mpr ⟨o, hparse, (modifiesPort_iff hparse).mpr hmodifies, rfl, rfl⟩)
    cases hd.symm.trans hd'
    exact hcountfd.symm.trans (filter_of_after hafter)
  · intro hagree fuel c countfd hmem
    obtain ⟨o, hparse, hmodifies, rfl, rfl⟩ := portModify_mem_main.mp hmem
    have hmodifies := (modifiesPort_iff hparse).mp hmodifies
    obtain ⟨-, hafter⟩ := Options.parse_eq_ok hparse
    obtain ⟨d, hd, -⟩ := hmodifies.dport
    have hfilter : d.1 = o.filter :=
      ((filter_eq_filterOf_iff hd).mpr (hagree hmodifies d hd)).trans (filter_of_after hafter).symm
    have hdport : o.dport = CText.atoi d.2 := by
      rw [hafter.dport, show lastDport (optionsOf argv) = some d from hd]
      rfl
    exact ⟨d.1, d.2, hd, hdport, hfilter ▸ hafter.proto rfl, hfilter.symm⟩

/-- A port for UDP, and then one for TCP. -/
def udpThenTcp : List Word :=
  ["--add".toList, "--udp-dport".toList, "53".toList, "--tcp-dport".toList, "80".toList]

/-- **The last port option is for TCP, and the call is for UDP.** -/
theorem not_lastDportModified_udpThenTcp :
    (dportOptions udpThenTcp).getLast? = some (.tcp, "80".toList) ∧
      Act.portModify ⟨80, actionAdd, 17⟩ .udp ∈ (main (.sample []) (Maps.zero 1) udpThenTcp 0).log ∧
      ¬ LastDportModified (.sample []) (Maps.zero 1) udpThenTcp := by
  have hlast : (dportOptions udpThenTcp).getLast? = some (.tcp, "80".toList) := by decide
  have hparse : Options.parse (optionsOf udpThenTcp) =
      .ok ⟨actionAdd, none, false, 1, false, 80, 17, .udp⟩ := by decide
  have hcall : Act.portModify ⟨80, actionAdd, 17⟩ .udp ∈
      (main (.sample []) (Maps.zero 1) udpThenTcp 0).log :=
    portModify_mem_main.mpr ⟨_, hparse, ⟨rfl, by decide, nofun, by decide, rfl, rfl⟩, rfl, rfl⟩
  refine ⟨hlast, hcall, fun hmodified => ?_⟩
  obtain ⟨f, s, hd, -, -, hcountfd⟩ := hmodified _ _ _ hcall
  cases hlast.symm.trans hd
  cases hcountfd

end DdosBlacklist
