import PrototypeKernel.DdosBlacklist.Client
import PrototypeKernel.Foundation.CText
import PrototypeKernel.Foundation.ForLoop
import PrototypeKernel.Foundation.Getopt

/-! # The options of the command-line tool

The loop over `getopt_long()` in `main()` of `xdp_ddos01_blacklist_cmdline.c`. The case of
`--udp-dport` sets the protocol and falls through into that of `--tcp-dport`, which does not set it,
so a protocol that has been UDP once stays UDP. -/

namespace DdosBlacklist

open Getopt

/-! ## The loop -/

/-- The third argument of `getopt_long()`. -/
def optstring : List Char := "adshi:t:u:".toList

/-- `long_options[]`. -/
def longOptions : List LongOption :=
  [⟨"help".toList, false, 'h'⟩, ⟨"add".toList, false, 'a'⟩, ⟨"del".toList, false, 'x'⟩,
    ⟨"ip".toList, true, 'i'⟩, ⟨"stats".toList, false, 's'⟩, ⟨"sec".toList, true, 's'⟩,
    ⟨"list".toList, false, 'l'⟩, ⟨"udp-dport".toList, true, 'u'⟩, ⟨"tcp-dport".toList, true, 't'⟩]

/-- `STR_MAX`. -/
def strMax : ℕ := 42

/-- `IPPROTO_TCP` and `IPPROTO_UDP`, as `int`. -/
def Filter.proto : Filter → Int32
  | .tcp => 6
  | .udp => 17

/-- The variables of `main()` that the options set. -/
structure Options where
  action : UInt32
  ipString : Option Word
  stats : Bool
  interval : Int32
  doList : Bool
  dport : Int32
  proto : Int32
  filter : Filter
  deriving DecidableEq, Repr

/-- The values before the loop. -/
def Options.init : Options where
  action := 0
  ipString := none
  stats := false
  interval := 1
  doList := false
  dport := 0
  proto := Filter.proto .tcp
  filter := .tcp

/-- The case `'t'`. -/
def Options.tcpDport (o : Options) (optarg : Option Word) : Options :=
  { o with dport := (optarg.map CText.atoi).getD o.dport }

/-- The case `'u'`, which falls through into the case `'t'`. -/
def Options.udpDport (o : Options) (optarg : Option Word) : Options :=
  { o with proto := Filter.proto .udp, filter := .udp : Options }.tcpDport optarg

/-- The body of the loop: the variables, or the exit code. -/
def Options.switch (o : Options) (opt : Opt) : Except ℤ Options :=
  let optarg := opt.2
  match opt.1 with
  | 'a' => .ok { o with action := o.action ||| actionAdd }
  | 'x' => .ok { o with action := o.action ||| actionDel }
  | 'i' =>
      match optarg with
      | none => .error exitFailOption
      | some ip =>
          if strMax ≤ ip.length then .error exitFailOption else .ok { o with ipString := some ip }
  | 'u' => .ok (o.udpDport optarg)
  | 't' => .ok (o.tcpDport optarg)
  | 's' => .ok { o with stats := true, interval := (optarg.map CText.atoi).getD o.interval }
  | 'l' => .ok { o with doList := true }
  | _ => .error exitFailOption

/-- The options of a command line. -/
def optionsOf (argv : List Word) : List Opt := (getoptLong optstring longOptions argv).1

/-- The words of a command line that are no options. -/
def operandsOf (argv : List Word) : List Word := (getoptLong optstring longOptions argv).2

/-- The loop over the options. -/
def Options.parse (opts : List Opt) : Except ℤ Options := opts.foldlM Options.switch .init

/-! ## What the options set -/

/-- An option that does not end the tool. -/
def Accepted (opt : Opt) : Prop :=
  opt.1 ∈ ['a', 'x', 'u', 't', 's', 'l'] ∨
    opt.1 = 'i' ∧ ∃ ip, opt.2 = some ip ∧ ip.length < strMax

/-- The protocol of a port option, and its argument. -/
def dportOption (opt : Opt) : Option (Filter × Word) :=
  match opt.1 with
  | 'u' => opt.2.map (Filter.udp, ·)
  | 't' => opt.2.map (Filter.tcp, ·)
  | _ => none

/-- The last port option. -/
def lastDport (opts : List Opt) : Option (Filter × Word) := (opts.filterMap dportOption).getLast?

/-- The last port option is the last one of the second part, if it has one. -/
theorem lastDport_append (opts opts' : List Opt) :
    lastDport (opts ++ opts') = (lastDport opts').or (lastDport opts) := by
  rw [lastDport, List.filterMap_append, List.getLast?_append]
  rfl

/-- What options make of the variables. -/
structure Options.After (o : Options) (opts : List Opt) (o' : Options) : Prop where
  action : o'.action ≠ 0 ↔ o.action ≠ 0 ∨ ∃ opt ∈ opts, opt.1 = 'a' ∨ opt.1 = 'x'
  ipString : o'.ipString.isSome ↔ o.ipString.isSome ∨ ∃ opt ∈ opts, opt.1 = 'i'
  doList : o'.doList ↔ o.doList ∨ ∃ opt ∈ opts, opt.1 = 'l'
  dport : o'.dport = ((lastDport opts).map fun d => CText.atoi d.2).getD o.dport
  filter : o'.filter = if ∃ opt ∈ opts, opt.1 = 'u' then .udp else o.filter
  proto : o.proto = o.filter.proto → o'.proto = o'.filter.proto

/-- Without options nothing is changed. -/
theorem after_nil (o : Options) : o.After [] o :=
  ⟨by simp, by simp, by simp, rfl, by simp, id⟩

/-- Options after others. -/
theorem Options.After.append {o o₁ o₂ : Options} {opts opts' : List Opt} (h : o.After opts o₁)
    (h' : o₁.After opts' o₂) : o.After (opts ++ opts') o₂ where
  action := by
    rw [h'.action, h.action]
    simp only [List.mem_append, or_and_right, exists_or, or_assoc]
  ipString := by
    rw [h'.ipString, h.ipString]
    simp only [List.mem_append, or_and_right, exists_or, or_assoc]
  doList := by
    rw [h'.doList, h.doList]
    simp only [List.mem_append, or_and_right, exists_or, or_assoc]
  dport := by
    rw [h'.dport, h.dport, lastDport_append]
    cases lastDport opts' <;> rfl
  filter := by
    rw [h'.filter, h.filter]
    simp only [List.mem_append, or_and_right, exists_or]
    by_cases hudp : ∃ opt ∈ opts', opt.1 = 'u'
    · rw [if_pos hudp, if_pos (.inr hudp)]
    · simp only [hudp, if_false, or_false]
  proto hproto := h'.proto (h.proto hproto)

/-- **An accepted option** sets its variables. -/
theorem switch_of_accepted {opt : Opt} (h : Accepted opt) (o : Options) :
    ∃ o', o.switch opt = .ok o' ∧ o.After [opt] o' := by
  obtain ⟨c, optarg⟩ := opt
  have hadd (action : UInt32) : action ||| actionAdd ≠ 0 :=
    fun hzero => absurd (UInt32.or_eq_zero_iff.mp hzero).2 (by decide)
  have hdel (action : UInt32) : action ||| actionDel ≠ 0 :=
    fun hzero => absurd (UInt32.or_eq_zero_iff.mp hzero).2 (by decide)
  rcases h with hmem | ⟨hc, ip, harg, hlength⟩
  · have hc : c = 'a' ∨ c = 'x' ∨ c = 'u' ∨ c = 't' ∨ c = 's' ∨ c = 'l' := by simpa using hmem
    rcases hc with rfl | rfl | rfl | rfl | rfl | rfl
    · exact ⟨_, rfl, by simp [hadd], by simp, by simp, rfl, by simp, id⟩
    · exact ⟨_, rfl, by simp [hdel], by simp, by simp, rfl, by simp, id⟩
    · refine ⟨_, rfl, by simp [Options.udpDport, Options.tcpDport],
        by simp [Options.udpDport, Options.tcpDport],
        by simp [Options.udpDport, Options.tcpDport], ?_,
        by simp [Options.udpDport, Options.tcpDport], fun _ => rfl⟩
      cases optarg <;> rfl
    · refine ⟨_, rfl, by simp [Options.tcpDport], by simp [Options.tcpDport],
        by simp [Options.tcpDport], ?_, by simp [Options.tcpDport], id⟩
      cases optarg <;> rfl
    · exact ⟨_, rfl, by simp, by simp, by simp, rfl, by simp, id⟩
    · exact ⟨_, rfl, by simp, by simp, by simp, rfl, by simp, id⟩
  · obtain rfl : c = 'i' := hc
    obtain rfl : optarg = some ip := harg
    exact ⟨_, if_neg (Nat.not_le.mpr hlength), by simp, by simp, by simp, rfl, by simp, id⟩

/-- **Another option** ends the tool. -/
theorem switch_of_not_accepted {opt : Opt} (h : ¬ Accepted opt) (o : Options) :
    o.switch opt = .error exitFailOption := by
  have hne {c : Char} (hc : c ∈ ['a', 'x', 'u', 't', 's', 'l']) : opt.1 ≠ c := by
    rintro rfl
    exact h (.inl hc)
  unfold Options.switch
  split
  · exact absurd ‹_› (hne (by decide))
  · exact absurd ‹_› (hne (by decide))
  · rename_i hc
    dsimp only
    split
    · rfl
    · rename_i ip harg
      exact if_pos (Nat.not_lt.mp fun hlength => h (.inr ⟨hc, ip, harg, hlength⟩))
  · exact absurd ‹_› (hne (by decide))
  · exact absurd ‹_› (hne (by decide))
  · exact absurd ‹_› (hne (by decide))
  · exact absurd ‹_› (hne (by decide))
  · rfl

/-- Options that are all accepted are read to the end. -/
theorem foldlM_switch_of_accepted {opts : List Opt} (h : ∀ opt ∈ opts, Accepted opt) (o : Options) :
    ∃ o', opts.foldlM Options.switch o = .ok o' ∧ o.After opts o' :=
  ForLoop.exists_foldlM_of_accepted after_nil (fun _ _ _ _ _ h h' => h.append h')
    (fun o _ hopt => switch_of_accepted hopt o) h o

/-- An option that is not accepted ends with `EXIT_FAIL_OPTION`. -/
theorem foldlM_switch_of_not_accepted {opts : List Opt} (h : ¬ ∀ opt ∈ opts, Accepted opt)
    (o : Options) : opts.foldlM Options.switch o = .error exitFailOption := by
  refine ForLoop.foldlM_of_not_accepted (fun o opt hopt => ?_)
    (fun o _ hopt => switch_of_not_accepted hopt o) h o
  obtain ⟨o', hswitch, -⟩ := switch_of_accepted hopt o
  exact ⟨o', hswitch⟩

/-- Options that are all accepted are parsed. -/
theorem Options.exists_parse {opts : List Opt} (h : ∀ opt ∈ opts, Accepted opt) :
    ∃ o, Options.parse opts = .ok o ∧ Options.init.After opts o := foldlM_switch_of_accepted h .init

/-- **What the loop leaves** when it does not end the tool. -/
theorem Options.parse_eq_ok {opts : List Opt} {o : Options} (h : Options.parse opts = .ok o) :
    (∀ opt ∈ opts, Accepted opt) ∧ Options.init.After opts o := by
  have haccepted : ∀ opt ∈ opts, Accepted opt := by
    by_contra hall
    exact nomatch h.symm.trans (foldlM_switch_of_not_accepted hall .init)
  obtain ⟨o', hparse, hafter⟩ := Options.exists_parse haccepted
  obtain rfl : o = o' := Except.ok.inj (h.symm.trans hparse)
  exact ⟨haccepted, hafter⟩

section FromInit

variable {opts : List Opt} {o : Options} (h : Options.init.After opts o)

include h

/-- There is an action when there is an option `-a` or `-x`. -/
theorem Options.After.action_iff : o.action ≠ 0 ↔ ∃ opt ∈ opts, opt.1 = 'a' ∨ opt.1 = 'x' := by
  rw [h.action]
  exact or_iff_right (not_not_intro rfl)

/-- There is an address when there is an option `-i`. -/
theorem Options.After.ipString_iff : o.ipString.isSome ↔ ∃ opt ∈ opts, opt.1 = 'i' := by
  rw [h.ipString]
  exact or_iff_right nofun

/-- The lists are printed when there is an option `-l`. -/
theorem Options.After.doList_iff : o.doList ↔ ∃ opt ∈ opts, opt.1 = 'l' := by
  rw [h.doList]
  exact or_iff_right nofun

/-- There is a port when the last port option has one other than 0. -/
theorem Options.After.dport_iff :
    o.dport ≠ 0 ↔ ∃ d, lastDport opts = some d ∧ CText.atoi d.2 ≠ 0 := by
  rw [h.dport]
  cases lastDport opts with
  | none => simp [Options.init]
  | some d => simp

end FromInit

/-- **Every port option has a port.** -/
theorem exists_optarg {argv : List Word} {opt : Opt} (h : opt ∈ optionsOf argv)
    (hport : opt.1 = 'u' ∨ opt.1 = 't') : ∃ s, opt.2 = some s := by
  have hfound := found_getoptLong argv opt h
  cases hfound with
  | error => rcases hport with hport | hport <;> cases hport
  | arg w _ => exact ⟨w, rfl⟩
  | flag hflag =>
    unfold IsOption at hflag
    rcases hport with rfl | rfl
    · exact absurd hflag (by decide)
    · exact absurd hflag (by decide)

/-- The port options of a command line, in their order. -/
def dportOptions (argv : List Word) : List (Filter × Word) :=
  (optionsOf argv).filterMap dportOption

/-- There is an option `-u` when a port option stands for UDP. -/
theorem exists_udp_iff {argv : List Word} :
    (∃ opt ∈ optionsOf argv, opt.1 = 'u') ↔ ∃ d ∈ dportOptions argv, d.1 = .udp := by
  constructor
  · rintro ⟨opt, hopt, hc⟩
    obtain ⟨s, hs⟩ := exists_optarg hopt (.inl hc)
    refine ⟨(.udp, s), List.mem_filterMap.mpr ⟨opt, hopt, ?_⟩, rfl⟩
    rw [dportOption, hc, hs]
    rfl
  · rintro ⟨d, hd, hudp⟩
    obtain ⟨opt, hopt, hdport⟩ := List.mem_filterMap.mp hd
    refine ⟨opt, hopt, ?_⟩
    unfold dportOption at hdport
    split at hdport
    · assumption
    · obtain ⟨s, -, rfl⟩ := Option.map_eq_some_iff.mp hdport
      cases hudp
    · cases hdport

end DdosBlacklist
