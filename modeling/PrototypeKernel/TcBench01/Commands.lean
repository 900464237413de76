import PrototypeKernel.Foundation.Logged
import PrototypeKernel.TcBench01.Options

/-! # The commands of the tc redirect benchmark

`main()` of `tc_bench01_redirect_user.c` behind the options, which attaches, lists and removes
filters by command lines for `system()`. The name of the device comes from the buffer
`ingress_ifname`, which holds letters and digits only, and is not empty when a command is run. -/

namespace TcBench01

open Getopt CBuffer

/-! ## Command lines -/

/-- `CMD_MAX`. -/
def cmdMax : ℕ := 2048

/-- A command line with what is substituted into it. The command and the device are buffers. -/
inductive Command where
  | qdiscReplace (tcCmd dev : List Char)
  | filterReplace (tcCmd dev : List Char) (bpfObj : Word)
  | filterShow (tcCmd dev : List Char)
  | filterDelete (tcCmd dev : List Char)
  deriving DecidableEq, Repr

/-- The buffer with the name of the device. -/
def Command.dev : Command → List Char
  | .qdiscReplace _ dev => dev
  | .filterReplace _ dev _ => dev
  | .filterShow _ dev => dev
  | .filterDelete _ dev => dev

/-- The text of a command. -/
def Command.text : Command → Word
  | .qdiscReplace tcCmd dev =>
      cstr tcCmd ++ " qdisc replace dev ".toList ++ cstr dev ++ " clsact".toList
  | .filterReplace tcCmd dev bpfObj =>
      cstr tcCmd ++ " filter replace dev ".toList ++ cstr dev ++
        " ingress prio 1 handle 1 bpf da obj ".toList ++ bpfObj ++ " sec ingress_redirect".toList
  | .filterShow tcCmd dev =>
      cstr tcCmd ++ " filter show dev ".toList ++ cstr dev ++ " ingress".toList
  | .filterDelete tcCmd dev =>
      cstr tcCmd ++ " filter delete dev ".toList ++ cstr dev ++ " ingress".toList

/-- What `main()` does. -/
inductive Act where
  | system (cmd : Command)
  | bpfObjGet (pathname : Word)
  | bpfMapUpdateElem (value : Int32)
  | bpfMapLookupElem
  deriving DecidableEq, Repr

/-- Run a command, and exit if it fails. -/
def runCommand (env : Env) (cmd : Command) : Logged ℤ Act Int32 := do
  .write (.system cmd)
  let ret := env.system (snprintf cmdMax cmd.text)
  if ret ≠ 0 then .stop exitFailure else return ret

/-- `tc_ingress_attach_bpf()`. -/
def tcIngressAttachBpf (env : Env) (tcCmd dev : List Char) (bpfObj : Word) :
    Logged ℤ Act Int32 := do
  let _ ← runCommand env (.qdiscReplace tcCmd dev)
  runCommand env (.filterReplace tcCmd dev bpfObj)

/-- `tc_list_ingress_filter()`. -/
def tcListIngressFilter (env : Env) (tcCmd dev : List Char) : Logged ℤ Act Int32 :=
  runCommand env (.filterShow tcCmd dev)

/-- `tc_remove_ingress_filter()`. -/
def tcRemoveIngressFilter (env : Env) (tcCmd dev : List Char) : Logged ℤ Act Int32 :=
  runCommand env (.filterDelete tcCmd dev)

/-! ## The program -/

/-- `mapfile`. -/
def mapfile : Word := "/sys/fs/bpf/tc/globals/egress_ifindex".toList

/-- The name of the file with the program. -/
def bpfObjOf (argv0 : Word) : Word := snprintf 256 (argv0 ++ "_kern.o".toList)

/-- Attach the program, if there is an ingress device. -/
def attachFilter (env : Env) (argv0 : Word) (o : Options) : Logged ℤ Act Unit :=
  if o.ingressIfindex ≠ 0 then do
    let ret ← tcIngressAttachBpf env o.tcCmd o.ingressIfname (bpfObjOf argv0)
    if ret ≠ 0 then .stop exitFailure else return ()
  else return ()

/-- List the filters, if the options ask for it. -/
def listFilters (env : Env) (o : Options) : Logged ℤ Act Unit :=
  if o.listIngressTcFilter then do
    let _ ← tcListIngressFilter env o.tcCmd o.ingressIfname
    return ()
  else return ()

/-- `main()` from `bpf_obj_get()` on: set or show the egress device. -/
def egressDevice (env : Env) (o : Options) : Logged ℤ Act Int32 := do
  .write (.bpfObjGet mapfile)
  if env.bpfObjGet < 0 then return 1
  else if o.egressIfindex ≠ -1 then do
    .write (.bpfMapUpdateElem o.egressIfindex)
    return if env.bpfMapUpdateElem ≠ 0 then 1 else 0
  else do
    .write .bpfMapLookupElem
    return if env.bpfMapLookupElem ≠ 0 then 1 else 0

/-- `main()` behind the options. -/
def runOptions (env : Env) (argv0 : Word) (o : Options) : Logged ℤ Act Int32 := do
  attachFilter env argv0 o
  listFilters env o
  if o.removeIngressTcFilter then do
    let _ ← tcRemoveIngressFilter env o.tcCmd o.ingressIfname
    return 0
  else egressDevice env o

/-- `main()` with the name of the program and its arguments. -/
def main (env : Env) (argv0 : Word) (argv : List Word) : Logged ℤ Act Int32 :=
  match Options.parse env (optionsOf argv) with
  | .error e => .stop e
  | .ok o => runOptions env argv0 o

/-! ## The name of the device -/

/-- A buffer with the name of a device: letters and digits, and a NUL behind them. -/
structure DeviceName (dev : List Char) : Prop where
  nul_mem : nul ∈ dev
  ne_nil : cstr dev ≠ []
  length_lt : (cstr dev).length < ifNamesize
  isNameChar : ∀ c ∈ cstr dev, isNameChar c

/-- The buffer for the ingress device holds letters and digits, at least one of them if a command
is going to be run. -/
structure Options.Safe (o : Options) : Prop where
  holds : ∃ s, Holds ifNamesize s o.ingressIfname ∧ ∀ c ∈ s, isNameChar c
  ne_nil : o.ingressIfindex ≠ 0 ∨ o.listIngressTcFilter ∨ o.removeIngressTcFilter →
    cstr o.ingressIfname ≠ []

/-- The options at the start are safe. -/
theorem safe_init : Options.init.Safe where
  holds := ⟨[], holds_nil (by decide), nofun⟩
  ne_nil h := by
    rcases h with h | h | h
    · exact absurd rfl h
    · cases h
    · cases h

/-- A name has no NUL. -/
theorem nul_notMem_of_isNameChar {s : Word} (h : ∀ c ∈ s, isNameChar c) : nul ∉ s :=
  fun hmem => absurd (h nul hmem) (by decide)

/-- **A copy keeps letters and digits**, and does not empty the buffer. -/
theorem holds_copied {o : Options} (opt : Opt) {s : Word}
    (h : Holds ifNamesize s o.ingressIfname) (hs : ∀ c ∈ s, isNameChar c) :
    ∃ s', Holds ifNamesize s' (copied o.ingressIfname (setsIngress opt)) ∧
      (∀ c ∈ s', isNameChar c) ∧ s.length ≤ s'.length := by
  cases hsets : setsIngress opt with
  | none => exact ⟨s, h, hs, Nat.le_refl _⟩
  | some arg =>
    obtain ⟨-, hlength, hall⟩ := of_setsIngress hsets
    have hchars : ∀ c ∈ arg, isNameChar c := List.all_eq_true.mp hall
    refine ⟨overwrite s arg, h.strncpy (nul_notMem_of_isNameChar hchars) hlength,
      forall_mem_overwrite hs hchars, ?_⟩
    rw [length_overwrite]
    exact Nat.le_max_left ..

/-- **An option keeps the buffer safe.** -/
theorem safe_of_step {env : Env} (hempty : env.ifNametoindex [] = 0) {o o' : Options} {opt : Opt}
    (hstep : Step env o opt o') (h : o.Safe) : o'.Safe := by
  obtain ⟨s, hholds, hchars⟩ := h.holds
  obtain ⟨s', hholds', hchars', hle⟩ := holds_copied opt hholds hchars
  rw [← hstep.ingressIfname] at hholds'
  have hkept (hne : cstr o.ingressIfname ≠ []) : cstr o'.ingressIfname ≠ [] := by
    rw [hholds.cstr_eq] at hne
    rw [hholds'.cstr_eq]
    have hpos := List.length_pos_iff.mpr hne
    exact List.length_pos_iff.mp (Nat.lt_of_lt_of_le hpos hle)
  refine ⟨⟨s', hholds', hchars'⟩, ?_⟩
  rintro (hindex | hlist | hremove)
  · rcases hstep.ingressIfindex with heq | heq
    · exact hkept (h.ne_nil (.inl (heq ▸ hindex)))
    · intro hnil
      rw [heq, hnil, hempty] at hindex
      exact hindex rfl
  · rcases hstep.listIngressTcFilter with heq | hne
    · exact hkept (h.ne_nil (.inr (.inl (heq ▸ hlist))))
    · exact hne
  · rcases hstep.removeIngressTcFilter with heq | hne
    · exact hkept (h.ne_nil (.inr (.inr (heq ▸ hremove))))
    · exact hne

/-- **The buffer is safe** when the loop over the options has ended. -/
theorem safe_of_parse {env : Env} (hempty : env.ifNametoindex [] = 0) {opts : List Opt}
    {o : Options} (hparse : Options.parse env opts = .ok o) : o.Safe :=
  ForLoop.foldlM_rule (P := fun _ o => o.Safe) hparse safe_init
    fun _ _ _ _ _ h hswitch => safe_of_step hempty (step_of_switch hswitch) h

/-- **The name of a device that is used.** -/
theorem Options.Safe.deviceName {o : Options} (h : o.Safe)
    (hused : o.ingressIfindex ≠ 0 ∨ o.listIngressTcFilter ∨ o.removeIngressTcFilter) :
    DeviceName o.ingressIfname := by
  obtain ⟨s, hholds, hchars⟩ := h.holds
  refine ⟨hholds.nul_mem, h.ne_nil hused, ?_, ?_⟩
  · rw [hholds.cstr_eq]
    exact hholds.length_lt
  · rw [hholds.cstr_eq]
    exact hchars

/-! ## The commands that are run -/

/-- A command is for a device with a name. -/
def Named (act : Act) : Prop := ∀ cmd, act = .system cmd → DeviceName cmd.dev

/-- A command for a device name runs with this name only. -/
theorem named_runCommand (env : Env) {cmd : Command} (h : DeviceName cmd.dev) :
    (runCommand env cmd).Always Named := by
  refine .bind (Logged.always_write.mpr ?_) fun _ => ?_
  · rintro cmd' heq
    exact Act.system.inj heq ▸ h
  · dsimp only
    split
    · exact Logged.always_stop _
    · exact Logged.always_pure _

/-- The egress device is looked up by its name. -/
theorem named_egressDevice (env : Env) (o : Options) : (egressDevice env o).Always Named := by
  refine .bind (Logged.always_write.mpr nofun) fun _ => ?_
  split
  · exact Logged.always_pure _
  · split
    · exact .bind (Logged.always_write.mpr nofun) fun _ => Logged.always_pure _
    · exact .bind (Logged.always_write.mpr nofun) fun _ => Logged.always_pure _

/-- Safe options run commands with device names only. -/
theorem named_runOptions (env : Env) (argv0 : Word) {o : Options} (h : o.Safe) :
    (runOptions env argv0 o).Always Named := by
  refine .bind ?_ fun _ => .bind ?_ fun _ => ?_
  · unfold attachFilter
    split
    · rename_i hindex
      have hdev := h.deviceName (.inl hindex)
      refine .bind ?_ fun ret => ?_
      · exact .bind (named_runCommand env hdev) fun _ => named_runCommand env hdev
      · split
        · exact Logged.always_stop _
        · exact Logged.always_pure _
    · exact Logged.always_pure _
  · unfold listFilters
    split
    · rename_i hlist
      have hdev := h.deviceName (.inr (.inl hlist))
      exact .bind (named_runCommand env hdev) fun _ => Logged.always_pure _
    · exact Logged.always_pure _
  · split
    · rename_i hremove
      have hdev := h.deviceName (.inr (.inr hremove))
      exact .bind (named_runCommand env hdev) fun _ => Logged.always_pure _
    · exact named_egressDevice env o

/-- **Every command is for a device whose name has letters and digits only**, whatever the command
line is. -/
theorem deviceName_of_system {env : Env} (hempty : env.ifNametoindex [] = 0) (argv0 : Word)
    (argv : List Word) :
    ∀ cmd, Act.system cmd ∈ (main env argv0 argv).log → DeviceName cmd.dev := by
  have hnamed : (main env argv0 argv).Always Named := by
    unfold main
    cases hparse : Options.parse env (optionsOf argv) with
    | error e => exact Logged.always_stop _
    | ok o => exact named_runOptions env argv0 (safe_of_parse hempty hparse)
  exact fun cmd hcmd => hnamed _ hcmd cmd rfl

/-- `--list=eth0 --ingress` with a name that is not valid. -/
def invalidIngress : List Word :=
  ["--list=eth0".toList, "--ingress".toList, "lo;reboot".toList]

/-- The program is attached to the device `eth0`. -/
theorem deviceName_of_system_invalidIngress :
    Env.allDevices.ifNametoindex [] = 0 ∧
      (main .allDevices "tc_bench01".toList invalidIngress).log.head? =
        some (.system (.qdiscReplace ("tc".toList ++ zeros 254) ("eth0".toList ++ zeros 12))) ∧
      DeviceName ("eth0".toList ++ zeros 12) :=
  have hempty : Env.allDevices.ifNametoindex [] = 0 := rfl
  ⟨hempty, rfl, deviceName_of_system hempty "tc_bench01".toList invalidIngress
    (.qdiscReplace ("tc".toList ++ zeros 254) ("eth0".toList ++ zeros 12)) List.mem_cons_self⟩

end TcBench01
