import PrototypeKernel.DdosBlacklist.Cmdline

/-! # The buffers of the command-line tool

Each lookup and update of the tool has a buffer with a slot for each possible CPU, but for the
lookup of a port in `blacklist_list_all_ports()`, which has one slot. So no buffer is too short
unless there are more CPUs and the ports are listed. -/

namespace DdosBlacklist

open Getopt

variable {C : ℕ}

/-- **All buffers are long enough** in the runs of the tool. -/
def BuffersFit (host : Host) (m : Maps C) (argv : List Word) : Prop :=
  ∀ fuel, (main host m argv fuel).Always Act.Fits

/-- **When the tool lists the ports**: the options are valid, there are no action and no other word,
there is `--list`, and the files open. -/
structure ListsPorts (host : Host) (argv : List Word) : Prop where
  accepted : ∀ opt ∈ optionsOf argv, Accepted opt
  action : ¬ ∃ opt ∈ optionsOf argv, opt.1 = 'a' ∨ opt.1 = 'x'
  operands : operandsOf argv = []
  doList : ∃ opt ∈ optionsOf argv, opt.1 = 'l'
  opens : ∀ file, host.opens file

/-- What is quiet overruns no buffer. -/
theorem fits_of_quiet {α : Type} {x : Tool C α} (h : x.Always Act.Quiet) : x.Always Act.Fits :=
  h.mono fun _ => Act.Quiet.fits

/-- The files that the listing opens last. -/
theorem opens_of_forM {host : Host} {u : Unit}
    (h : ([Filter.tcp, .udp].forM fun f =>
      openBpfMap (C := C) host (.portBlacklistCount f)).result = .ok u) (f : Filter) :
    host.opens (.portBlacklistCount f) := by
  obtain ⟨_, htcp, h⟩ := Logged.result_bind_eq_ok.mp h
  obtain ⟨_, hudp, -⟩ := Logged.result_bind_eq_ok.mp h
  cases f with
  | tcp => exact result_openBpfMap.mp htcp
  | udp => exact result_openBpfMap.mp hudp

/-- The buffers of the listing, unless it gets to the ports with more than one CPU. -/
theorem fits_listAll {host : Host} (hverdict : host.opens .verdict)
    (h : C ≤ 1 ∨ ¬ ∀ file, host.opens file) (m : Maps C) (fuel : ℕ) :
    (listAll host m fuel).Always Act.Fits := by
  refine (fits_of_quiet (quiet_printf _)).bind fun _ => ?_
  refine Logged.always_bind_iff.mpr ⟨always_openBpfMap host _, fun _ hblacklist => ?_⟩
  refine (fits_of_quiet (quiet_listAllIpv4 host m fuel)).bind fun _ => ?_
  refine Logged.always_bind_iff.mpr ⟨always_openBpfMap host _, fun _ hports => ?_⟩
  refine Logged.always_bind_iff.mpr
    ⟨Logged.always_forM (fun _ => always_openBpfMap host _) _, fun _ hcounts => ?_⟩
  have hopens (file : MapFile) : host.opens file := by
    cases file with
    | blacklist => exact result_openBpfMap.mp hblacklist
    | verdict => exact hverdict
    | portBlacklist => exact result_openBpfMap.mp hports
    | portBlacklistCount f => exact opens_of_forM hcounts f
  have hC : C ≤ 1 := h.resolve_right (not_not_intro hopens)
  exact (fits_of_quiet (quiet_listAllPorts host m hC fuel)).bind fun _ =>
    fits_of_quiet (quiet_printf _)

/-- Every access of a change of a port fits in its buffer. -/
theorem fits_modifyPort (host : Host) (o : Options) (res : ℤ × Maps C) :
    (modifyPort host o res).Always Act.Fits := by
  unfold modifyPort
  split
  · refine (always_openBpfMap host _).bind fun _ => (always_openBpfMap host _).bind fun _ => ?_
    refine (Logged.always_write.mpr trivial).bind fun _ => ?_
    exact fits_of_quiet (quiet_modifyBuffers _ host res.2 o.filter)
  · exact Logged.always_pure _

/-- The buffers of the tool, unless it gets to the ports with more than one CPU. -/
theorem fits_runOptions {host : Host} {o : Options} {operands : List Word}
    (h : C ≤ 1 ∨ ¬ (o.action = 0 ∧ operands = [] ∧ o.doList ∧ ∀ file, host.opens file)) (m : Maps C)
    (fuel : ℕ) : (runOptions host m o operands fuel).Always Act.Fits := by
  refine Logged.always_bind_iff.mpr ⟨always_openBpfMap host _, fun _ hverdict => ?_⟩
  split
  · split
    · exact Logged.always_stop _
    · exact (fits_of_quiet (quiet_modifyIp host m o)).bind fun res => fits_modifyPort host o res
  · rename_i haction
    split
    · exact Logged.always_stop _
    · rename_i hoperands
      refine Logged.Always.bind ?_ fun _ => Logged.Always.bind ?_ fun _ => Logged.always_pure _
      · split
        · rename_i hlist
          refine fits_listAll (result_openBpfMap.mp hverdict) (h.imp_right fun hnot hopens => ?_) m
            fuel
          exact hnot ⟨not_not.mp haction, not_not.mp hoperands, hlist, hopens⟩
        · exact Logged.always_pure _
      · split
        · exact fits_of_quiet (quiet_statsPoll host m fuel)
        · exact Logged.always_pure _

/-- The lookup of a port has one slot. -/
theorem not_fits_listAll {host : Host} {m : Maps C} (h : KernelOrder host m)
    (hopens : ∀ file, host.opens file) (hC : 1 < C) {fuel : ℕ}
    (hfuel : host.visited.length < fuel) : ¬ (listAll host m fuel).Always Act.Fits := by
  intro hfits
  rw [listAll_of_opens hopens] at hfits
  have hrest := (Logged.always_bind_iff.mp hfits).2 () rfl
  have hports := (Logged.always_bind_iff.mp hrest).2 () (outputs_listAllIpv4 h hfuel).1
  have hlookup := (Logged.always_bind_iff.mp hports).1
  rw [listAllPorts_crash host m hC (Nat.zero_lt_of_lt hfuel)] at hlookup
  have hslots := (hlookup _ List.mem_cons_self).1
  rw [copyOut] at hslots
  simp at hslots
  omega

/-- With more than one CPU the listing overruns the buffer of its first lookup. -/
theorem not_fits_runOptions {host : Host} {m : Maps C} (h : KernelOrder host m) {o : Options}
    {operands : List Word}
    (hlists : o.action = 0 ∧ operands = [] ∧ o.doList ∧ ∀ file, host.opens file) (hC : 1 < C)
    {fuel : ℕ} (hfuel : host.visited.length < fuel) :
    ¬ (runOptions host m o operands fuel).Always Act.Fits := by
  obtain ⟨haction, hoperands, hlist, hopens⟩ := hlists
  intro hfits
  unfold runOptions at hfits
  rw [openBpfMap_of_opens (hopens _), Logged.pure_bind, if_neg (not_not_intro haction),
    if_neg (not_not_intro hoperands), if_pos hlist] at hfits
  exact not_fits_listAll h hopens hC hfuel (Logged.always_bind_iff.mp hfits).1

/-- The tool lists the ports exactly when what the loop leaves says so. -/
theorem listsPorts_iff {host : Host} {argv : List Word} {o : Options}
    (hparse : Options.parse (optionsOf argv) = .ok o) : ListsPorts host argv ↔
      o.action = 0 ∧ operandsOf argv = [] ∧ o.doList ∧ ∀ file, host.opens file := by
  obtain ⟨haccepted, hafter⟩ := Options.parse_eq_ok hparse
  have haction : o.action = 0 ↔ ¬ ∃ opt ∈ optionsOf argv, opt.1 = 'a' ∨ opt.1 = 'x' := by
    rw [← hafter.action_iff, not_not]
  constructor
  · intro h
    exact ⟨haction.mpr h.action, h.operands, hafter.doList_iff.mpr h.doList, h.opens⟩
  · rintro ⟨hzero, hoperands, hdoList, hopens⟩
    exact ⟨haccepted, haction.mp hzero, hoperands, hafter.doList_iff.mp hdoList, hopens⟩

/-- **All buffers are long enough exactly when there is one CPU or the ports are not listed.** -/
theorem buffersFit_iff {host : Host} {m : Maps C} (h : KernelOrder host m) (argv : List Word) :
    BuffersFit host m argv ↔ C ≤ 1 ∨ ¬ ListsPorts host argv := by
  constructor
  · intro hfits
    by_contra hnot
    rw [not_or, Nat.not_le, not_not] at hnot
    obtain ⟨hC, hlists⟩ := hnot
    obtain ⟨o, hparse, -⟩ := Options.exists_parse hlists.accepted
    have hmain := hfits (host.visited.length + 1)
    rw [main_of_parse hparse] at hmain
    exact not_fits_runOptions h ((listsPorts_iff hparse).mp hlists) hC (Nat.lt_succ_self _) hmain
  · intro hcases fuel
    unfold main
    cases hparse : Options.parse (optionsOf argv) with
    | error code => exact Logged.always_stop _
    | ok o =>
      have hlists := hcases.imp_right (mt (listsPorts_iff hparse).mpr)
      exact fits_runOptions hlists m fuel

/-- The statistics alone overrun nothing. -/
theorem buffersFit_stats : BuffersFit (.sample [0x0100000A, 0x0200000A])
    (.ofAddresses 4 [0x0100000A, 0x0200000A]) ["--stats".toList] :=
  (buffersFit_iff (kernelOrder_ofAddresses (by decide)) ["--stats".toList]).mpr
    (.inr fun hlists => absurd hlists.doList (by decide))

/-- **With two CPUs the listing overruns its buffer.** -/
theorem not_buffersFit_twoCpus :
    (main (.sample []) (Maps.zero 2) ["--list".toList] 1).result = .error .crash ∧
      ¬ BuffersFit (.sample []) (Maps.zero 2) ["--list".toList] := by
  have hparse : Options.parse (optionsOf ["--list".toList]) =
      .ok { Options.init with doList := true } := by decide
  have hmain : main (.sample []) (Maps.zero 2) ["--list".toList] 1 = _ := main_of_parse hparse 1
  have horder : KernelOrder (.sample []) (Maps.zero 2) := kernelOrder_ofAddresses List.nodup_nil
  constructor
  · rw [hmain]
    rfl
  · intro hfits
    have hrun := hfits 1
    rw [hmain] at hrun
    exact not_fits_runOptions horder ⟨rfl, rfl, rfl, fun _ => rfl⟩ (by decide) (by decide) hrun

end DdosBlacklist
