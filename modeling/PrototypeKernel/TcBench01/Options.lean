import PrototypeKernel.Foundation.CBuffer
import PrototypeKernel.Foundation.CText
import PrototypeKernel.Foundation.ForLoop
import PrototypeKernel.Foundation.GetoptOptional

/-! # The options of the tc redirect benchmark

The loop over `getopt_long()` in `main()` of `tc_bench01_redirect_user.c`, and what it leaves in the
buffers for the names of the devices and for the command. The buffers are kept from one option to
the next, and a copy writes no NUL, so that a name stands in front of what is left of a longer one
before it. -/

namespace TcBench01

open Getopt GetoptOptional CBuffer

/-! ## The environment -/

/-- What the functions return that `main()` calls. -/
structure Env where
  ifNametoindex : Word → UInt32
  system : Word → Int32
  bpfObjGet : Int32
  bpfMapUpdateElem : Int32
  bpfMapLookupElem : Int32

/-- Every name is that of a device with the index 2, and every function succeeds. -/
def Env.allDevices : Env where
  ifNametoindex name := if name = [] then 0 else 2
  system := fun _ => 0
  bpfObjGet := 3
  bpfMapUpdateElem := 0
  bpfMapLookupElem := 0

/-- `EXIT_FAILURE`. -/
def exitFailure : ℤ := 1

/-- `IF_NAMESIZE`. -/
def ifNamesize : ℕ := 16

/-- `CMD_MAX_TC`. -/
def cmdMaxTc : ℕ := 256

/-! ## The loop -/

/-- The third argument of `getopt_long()`. -/
def optstring : List Char := "h".toList

/-- `long_options[]`. -/
def longOptions : List GetoptOptional.LongOption :=
  [⟨"help".toList, .no, 'h'⟩, ⟨"ingress".toList, .required, 'i'⟩,
    ⟨"egress".toList, .required, 'e'⟩, ⟨"ifindex-egress".toList, .required, 'x'⟩,
    ⟨"tc-cmd".toList, .required, 't'⟩, ⟨"list".toList, .optional, 'l'⟩,
    ⟨"remove".toList, .optional, 'r'⟩]

/-- `isalpha(c) || isdigit(c)`, in the C locale. -/
def isNameChar (c : Char) : Bool := c.isAlpha || c.isDigit

/-- A name that `validate_ifname()` copies. -/
def ValidIfname (name : Word) : Prop := name.length < ifNamesize ∧ name.all isNameChar

instance : DecidablePred ValidIfname := fun _ => instDecidableAnd

/-- `validate_ifname()`: what it leaves in `output_ifname`, or `none` for `false`. -/
def validateIfname (inputIfname : Word) (outputIfname : List Char) : Option (List Char) :=
  let len := inputIfname.length
  if len ≥ ifNamesize then none
  else if inputIfname.all isNameChar then some (strncpy outputIfname inputIfname len)
  else none

/-- The variables that the options set, and the buffers. -/
structure Options where
  listIngressTcFilter : Bool
  removeIngressTcFilter : Bool
  egressIfindex : Int32
  ingressIfindex : Int32
  ingressIfname : List Char
  egressIfname : List Char
  tcCmd : List Char

/-- The values before the loop. -/
def Options.init : Options where
  listIngressTcFilter := false
  removeIngressTcFilter := false
  egressIfindex := -1
  ingressIfindex := 0
  ingressIfname := zeros ifNamesize
  egressIfname := zeros ifNamesize
  tcCmd := "tc".toList ++ zeros (cmdMaxTc - 2)

/-- The case `'e'`: a name that is not valid is only reported. -/
def Options.egress (env : Env) (o : Options) (optarg : Word) : Except ℤ Options :=
  let egressIfname := (validateIfname optarg o.egressIfname).getD o.egressIfname
  let egressIfindex := (env.ifNametoindex (cstr egressIfname)).toInt32
  if egressIfindex = 0 then .error exitFailure
  else .ok { o with egressIfname := egressIfname, egressIfindex := egressIfindex }

/-- The case `'i'`: a name that is not valid is only reported. -/
def Options.ingress (env : Env) (o : Options) (optarg : Word) : Except ℤ Options :=
  let ingressIfname := (validateIfname optarg o.ingressIfname).getD o.ingressIfname
  let ingressIfindex := (env.ifNametoindex (cstr ingressIfname)).toInt32
  if ingressIfindex = 0 then .error exitFailure
  else .ok { o with ingressIfname := ingressIfname, ingressIfindex := ingressIfindex }

/-- What the cases `'l'` and `'r'` have in common: the name of the ingress device. -/
def Options.filterIfname (o : Options) (optarg : Option Word) : Except ℤ (List Char) :=
  let validated :=
    match optarg with
    | none => some o.ingressIfname
    | some arg => validateIfname arg o.ingressIfname
  match validated with
  | none => .error exitFailure
  | some ingressIfname =>
      if (cstr ingressIfname).length = 0 then .error exitFailure else .ok ingressIfname

/-- The case `'l'`. -/
def Options.list (o : Options) (optarg : Option Word) : Except ℤ Options := do
  let ingressIfname ← o.filterIfname optarg
  return { o with ingressIfname := ingressIfname, listIngressTcFilter := true }

/-- The case `'r'`. -/
def Options.remove (o : Options) (optarg : Option Word) : Except ℤ Options := do
  let ingressIfname ← o.filterIfname optarg
  return { o with ingressIfname := ingressIfname, removeIngressTcFilter := true }

/-- The case `'t'`. -/
def Options.setTcCmd (o : Options) (optarg : Word) : Except ℤ Options :=
  let len := optarg.length
  if len ≥ cmdMaxTc then .error exitFailure
  else .ok { o with tcCmd := strncpy o.tcCmd optarg len }

/-- The body of the loop: the variables, or the exit code. -/
def Options.switch (env : Env) (o : Options) (opt : Opt) : Except ℤ Options :=
  match opt with
  | ('x', some optarg) => .ok { o with egressIfindex := CText.atoi optarg }
  | ('e', some optarg) => o.egress env optarg
  | ('i', some optarg) => o.ingress env optarg
  | ('l', optarg) => o.list optarg
  | ('r', optarg) => o.remove optarg
  | ('t', some optarg) => o.setTcCmd optarg
  | _ => .error exitFailure

/-- The options of a command line. -/
def optionsOf (argv : List Word) : List Opt := (getoptLong optstring longOptions argv).1

/-- The loop over the options. -/
def Options.parse (env : Env) (opts : List Opt) : Except ℤ Options :=
  opts.foldlM (Options.switch env) .init

/-! ## What an option sets -/

/-- A valid name. -/
def validName (name : Word) : Option Word := if ValidIfname name then some name else none

/-- The name that an option sets as that of the ingress device. -/
def setsIngress (opt : Opt) : Option Word :=
  if opt.1 = 'i' ∨ opt.1 = 'l' ∨ opt.1 = 'r' then opt.2.bind validName else none

/-- The name that an option sets as that of the egress device. -/
def setsEgress (opt : Opt) : Option Word := if opt.1 = 'e' then opt.2.bind validName else none

/-- The command that an option sets. -/
def setsTcCmd (opt : Opt) : Option Word :=
  if opt.1 = 't' then opt.2.filter (·.length < cmdMaxTc) else none

/-- A buffer after a string has been copied without its NUL, if there is one. -/
def copied (buf : List Char) : Option Word → List Char
  | none => buf
  | some arg => strncpy buf arg arg.length

/-- A valid name is an interface name. -/
theorem validName_eq_some {name arg : Word} (h : validName name = some arg) :
    name = arg ∧ ValidIfname arg := by
  unfold validName at h
  split at h
  · cases h
    exact ⟨rfl, ‹_›⟩
  · cases h

/-- An argument that is a valid name is an interface name. -/
theorem of_bind_validName {optarg : Option Word} {arg : Word}
    (h : optarg.bind validName = some arg) : optarg = some arg ∧ ValidIfname arg := by
  obtain ⟨name, rfl, hname⟩ := Option.bind_eq_some_iff.mp h
  obtain ⟨rfl, hvalid⟩ := validName_eq_some hname
  exact ⟨rfl, hvalid⟩

/-- The option for the ingress device has an interface name. -/
theorem of_setsIngress {opt : Opt} {arg : Word} (h : setsIngress opt = some arg) :
    opt.2 = some arg ∧ ValidIfname arg := by
  unfold setsIngress at h
  split at h
  · exact of_bind_validName h
  · cases h

/-- The option for the egress device has an interface name. -/
theorem of_setsEgress {opt : Opt} {arg : Word} (h : setsEgress opt = some arg) :
    opt.2 = some arg ∧ ValidIfname arg := by
  unfold setsEgress at h
  split at h
  · exact of_bind_validName h
  · cases h

/-- The option for the command has a text that fits in its buffer. -/
theorem of_setsTcCmd {opt : Opt} {arg : Word} (h : setsTcCmd opt = some arg) :
    opt.2 = some arg ∧ arg.length < cmdMaxTc := by
  unfold setsTcCmd at h
  split at h
  · obtain ⟨harg, hlength⟩ := Option.filter_eq_some_iff.mp h
    exact ⟨harg, of_decide_eq_true hlength⟩
  · cases h

/-- `validate_ifname()` copies a valid name over the buffer. -/
theorem validateIfname_eq (name : Word) (buf : List Char) :
    validateIfname name buf = (validName name).map fun arg => strncpy buf arg arg.length := by
  unfold validateIfname validName
  dsimp only
  by_cases hvalid : ValidIfname name
  · rw [if_neg (Nat.not_le.mpr hvalid.1), if_pos hvalid.2, if_pos hvalid]
    rfl
  · rw [if_neg hvalid]
    split
    · rfl
    · rename_i hlength
      rw [if_neg fun hall => hvalid ⟨Nat.not_le.mp hlength, hall⟩]
      rfl

/-- The buffer after `validate_ifname()`, whatever the name. -/
theorem getD_validateIfname (name : Word) (buf : List Char) :
    (validateIfname name buf).getD buf = copied buf (validName name) := by
  rw [validateIfname_eq]
  cases validName name <;> rfl

/-- What an option does that does not end the program. -/
structure Step (env : Env) (o : Options) (opt : Opt) (o' : Options) : Prop where
  ingressIfname : o'.ingressIfname = copied o.ingressIfname (setsIngress opt)
  egressIfname : o'.egressIfname = copied o.egressIfname (setsEgress opt)
  tcCmd : o'.tcCmd = copied o.tcCmd (setsTcCmd opt)
  ingressIfindex : o'.ingressIfindex = o.ingressIfindex ∨
    o'.ingressIfindex = (env.ifNametoindex (cstr o'.ingressIfname)).toInt32
  listIngressTcFilter : o'.listIngressTcFilter = o.listIngressTcFilter ∨
    cstr o'.ingressIfname ≠ []
  removeIngressTcFilter : o'.removeIngressTcFilter = o.removeIngressTcFilter ∨
    cstr o'.ingressIfname ≠ []

/-- **The name for a filter** is the one in the buffer, or a valid argument over it. -/
theorem filterIfname_eq_ok {o : Options} {optarg : Option Word} {buf : List Char}
    (h : o.filterIfname optarg = .ok buf) :
    buf = copied o.ingressIfname (optarg.bind validName) ∧ cstr buf ≠ [] := by
  unfold Options.filterIfname at h
  dsimp only at h
  split at h
  · cases h
  · rename_i validated hvalidated
    split at h
    · cases h
    · rename_i hlength
      cases h
      refine ⟨?_, fun hnil => hlength (List.length_eq_zero_iff.mpr hnil)⟩
      cases optarg with
      | none => exact (Option.some.inj hvalidated).symm
      | some arg =>
        rw [Option.bind_some, ← getD_validateIfname]
        dsimp only at hvalidated
        rw [hvalidated, Option.getD_some]

/-- **What an option does.** -/
theorem step_of_switch {env : Env} {o o' : Options} {opt : Opt} (h : o.switch env opt = .ok o') :
    Step env o opt o' := by
  unfold Options.switch at h
  split at h
  · cases h
    exact ⟨rfl, rfl, rfl, .inl rfl, .inl rfl, .inl rfl⟩
  · unfold Options.egress at h
    dsimp only at h
    split at h
    · cases h
    · cases h
      exact ⟨rfl, getD_validateIfname _ _, rfl, .inl rfl, .inl rfl, .inl rfl⟩
  · unfold Options.ingress at h
    dsimp only at h
    split at h
    · cases h
    · cases h
      exact ⟨getD_validateIfname _ _, rfl, rfl, .inr rfl, .inl rfl, .inl rfl⟩
  · obtain ⟨buf, hname, hout⟩ := ForLoop.bind_eq_ok.mp h
    cases hout
    obtain ⟨hbuf, hne⟩ := filterIfname_eq_ok hname
    exact ⟨hbuf, rfl, rfl, .inl rfl, .inr hne, .inl rfl⟩
  · obtain ⟨buf, hname, hout⟩ := ForLoop.bind_eq_ok.mp h
    cases hout
    obtain ⟨hbuf, hne⟩ := filterIfname_eq_ok hname
    exact ⟨hbuf, rfl, rfl, .inl rfl, .inl rfl, .inr hne⟩
  · rename_i optarg
    unfold Options.setTcCmd at h
    dsimp only at h
    split at h
    · cases h
    · rename_i hlength
      cases h
      have hsets : setsTcCmd ('t', some optarg) = some optarg := by
        simpa [setsTcCmd] using hlength
      refine ⟨rfl, rfl, ?_, .inl rfl, .inl rfl, .inl rfl⟩
      rw [hsets]
      rfl
  · cases h

end TcBench01
