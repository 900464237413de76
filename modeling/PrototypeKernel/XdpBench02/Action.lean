import PrototypeKernel.Foundation.CBuffer
import PrototypeKernel.Foundation.CText
import PrototypeKernel.Foundation.ForLoop
import PrototypeKernel.Foundation.Getopt
import PrototypeKernel.Foundation.Logged

/-! # The action option of the drop-pattern benchmark

`main()` of `xdp_bench02_drop_pattern_user.c`, up to the loop that prints the statistics. The text
of the option `--action` is cut to the length of the longest name, compared up to that length, and
looked up among the names of the actions and the one of the counter of all packets. An action that
is not found is a number that is never below 0. -/

namespace XdpBench02

open Getopt CBuffer

/-! ## The environment -/

/-- `EXIT_FAIL`. -/
def exitFail : ℤ := 1

/-- `EXIT_FAIL_OPTION`. -/
def exitFailOption : ℤ := 2

/-- `EXIT_FAIL_XDP`. -/
def exitFailXdp : ℤ := 3

/-- What the functions return that `main()` calls. -/
structure Env where
  ifNametoindex : Word → UInt32
  setrlimit : Int32
  loadBpfFile : Word → Int32
  progFd : Int32
  setLinkXdpFd : Int32
  /-- The result of the lookup in `get_xdp_pattern()`. -/
  lookupXdpPattern : Int32
  /-- The result of the lookup in `get_touch_mem()`. -/
  lookupTouchMem : Int32

/-- What `main()` does. -/
inductive Act where
  | loadBpfFile (filename : Word)
  | setXdpAction (action : UInt64)
  | setTouchMem (value : UInt64)
  | setXdpPattern (type arg : UInt32)
  | setLinkXdpFd (ifindex fd : Int32) (flags : UInt32)
  | statsPoll (interval : Int32)
  deriving DecidableEq, Repr

/-! ## The actions -/

/-- `xdp_action_names[]`. -/
def xdpActionNames : List Word :=
  ["XDP_ABORTED".toList, "XDP_DROP".toList, "XDP_PASS".toList, "XDP_TX".toList, "rx_total".toList]

/-- `XDP_ACTION_MAX_STRLEN`. -/
def xdpActionMaxStrlen : ℕ := 11

/-- `parse_xdp_action()`. -/
def parseXdpAction (actionStr : List Char) : Int32 :=
  let action : UInt64 :=
    match xdpActionNames.findIdx? (strncmpEq xdpActionMaxStrlen · actionStr) with
    | some i => .ofNat i
    | none => -1
  action.toInt64.toInt32

/-! ## The options -/

/-- The third argument of `getopt_long()`. -/
def optstring : List Char := "hSd:s:".toList

/-- `long_options[]`. -/
def longOptions : List LongOption :=
  [⟨"help".toList, false, 'h'⟩, ⟨"dev".toList, true, 'd'⟩, ⟨"sec".toList, true, 's'⟩,
    ⟨"pattern1".toList, true, '1'⟩, ⟨"action".toList, true, 'a'⟩, ⟨"notouch".toList, false, 'n'⟩,
    ⟨"skbmode".toList, false, 'S'⟩]

/-- `IF_NAMESIZE`. -/
def ifNamesize : ℕ := 16

/-- `XDP_FLAGS_SKB_MODE`. -/
def xdpFlagsSkbMode : UInt32 := (2 : UInt32) <<< (0 : UInt32)

/-- `NO_TOUCH`. -/
def noTouch : UInt64 := 0

/-- `READ_MEM`. -/
def readMem : UInt64 := 1

/-- The variables that the options set. `actionStr` is whether the pointer `action_str` is set, to
the buffer `action_str_buf`. -/
structure Options where
  ifnameBuf : List Char
  ifindex : Int32
  interval : Int32
  actionStrBuf : List Char
  actionStr : Bool
  patternArg : Int32
  touchMem : UInt64
  xdpFlags : UInt32

/-- The values before the loop. -/
def Options.init : Options where
  ifnameBuf := zeros ifNamesize
  ifindex := -1
  interval := 1
  actionStrBuf := zeros (xdpActionMaxStrlen + 1)
  actionStr := false
  patternArg := 1
  touchMem := readMem
  xdpFlags := 0

/-- The case `'d'`. -/
def Options.dev (env : Env) (o : Options) (optarg : Word) : Except ℤ Options :=
  if optarg.length ≥ ifNamesize then .error exitFailOption
  else
    let ifname := strncpy o.ifnameBuf optarg ifNamesize
    let ifindex := (env.ifNametoindex (cstr ifname)).toInt32
    if ifindex = 0 then .error exitFailOption
    else .ok { o with ifnameBuf := ifname, ifindex := ifindex }

/-- The body of the loop: the variables, or the exit code. -/
def Options.switch (env : Env) (o : Options) (opt : Opt) : Except ℤ Options :=
  match opt with
  | ('d', some optarg) => o.dev env optarg
  | ('s', some optarg) => .ok { o with interval := CText.atoi optarg }
  | ('a', some optarg) =>
      .ok { o with
        actionStrBuf := strncpy o.actionStrBuf optarg xdpActionMaxStrlen, actionStr := true }
  | ('1', some optarg) => .ok { o with patternArg := CText.atoi optarg }
  | ('n', _) => .ok { o with touchMem := noTouch }
  | ('S', _) => .ok { o with xdpFlags := o.xdpFlags ||| xdpFlagsSkbMode }
  | _ => .error exitFailOption

/-- The options of a command line. -/
def optionsOf (argv : List Word) : List Opt := (getoptLong optstring longOptions argv).1

/-- The loop over the options. -/
def Options.parse (env : Env) (opts : List Opt) : Except ℤ Options :=
  opts.foldlM (Options.switch env) .init

/-! ## The program -/

/-- The name of the file with the XDP program. -/
def filenameOf (argv0 : Word) : Word := snprintf 256 (argv0 ++ "_kern.o".toList)

/-- `stats_poll()`, which goes on for ever once the maps have been read. -/
def statsPoll (env : Env) (interval : Int32) : Logged ℤ Act Unit :=
  if env.lookupXdpPattern ≠ 0 then .stop exitFailXdp
  else if env.lookupTouchMem ≠ 0 then .stop exitFailXdp
  else .write (.statsPoll interval)

/-- `main()` from `setrlimit()` on. -/
def loadProgram (env : Env) (argv0 : Word) (o : Options) (overrideAction : UInt64) :
    Logged ℤ Act Unit :=
  if env.setrlimit ≠ 0 then .stop exitFail
  else do
    .write (.loadBpfFile (filenameOf argv0))
    if env.loadBpfFile (filenameOf argv0) ≠ 0 then .stop exitFail
    else if env.progFd = 0 then .stop exitFail
    else do
      .write (.setXdpAction overrideAction)
      .write (.setTouchMem o.touchMem)
      .write (.setXdpPattern 1 o.patternArg.toUInt32)
      .write (.setLinkXdpFd o.ifindex env.progFd o.xdpFlags)
      if env.setLinkXdpFd < 0 then .stop exitFailXdp else statsPoll env o.interval

/-- `main()` behind the options. -/
def runOptions (env : Env) (argv0 : Word) (o : Options) : Logged ℤ Act Unit :=
  if o.ifindex = -1 then .stop exitFailOption
  else if o.actionStr then
    let overrideAction : UInt64 := (parseXdpAction o.actionStrBuf).toInt64.toUInt64
    if overrideAction < 0 then .stop exitFailOption
    else loadProgram env argv0 o overrideAction
  else loadProgram env argv0 o 0

/-- `main()` with the name of the program and its arguments. -/
def main (env : Env) (argv0 : Word) (argv : List Word) : Logged ℤ Act Unit :=
  match Options.parse env (optionsOf argv) with
  | .error e => .stop e
  | .ok o => runOptions env argv0 o

/-! ## What the options set -/

/-- The index of a device, as an `int`. -/
def Env.devIndex (env : Env) (dev : Word) : Int32 := (env.ifNametoindex (cstr dev)).toInt32

/-- An option that does not end the program. -/
def Accepted (env : Env) (opt : Opt) : Prop :=
  (∃ dev, opt = ('d', some dev) ∧ dev.length < ifNamesize ∧ env.devIndex dev ≠ 0) ∨
    (∃ arg, opt = ('s', some arg) ∨ opt = ('a', some arg) ∨ opt = ('1', some arg)) ∨
    opt.1 = 'n' ∨ opt.1 = 'S'

/-- The argument of an option, if it is the option `c`. -/
def argOf (c : Char) (opt : Opt) : Option Word := if opt.1 = c then opt.2 else none

/-- The last argument of an option. -/
def lastArg (c : Char) (opts : List Opt) : Option Word := (opts.filterMap (argOf c)).getLast?

/-- The last argument of an option is the last one of the second part, if it has one. -/
theorem lastArg_append (c : Char) (opts opts' : List Opt) :
    lastArg c (opts ++ opts') = (lastArg c opts').or (lastArg c opts) := by
  rw [lastArg, List.filterMap_append, List.getLast?_append]
  rfl

/-- The text of the action as it is compared, if there is one. -/
def Options.actionText (o : Options) : Option (List Char) :=
  if o.actionStr then some ((cstr o.actionStrBuf).take xdpActionMaxStrlen) else none

/-- What options make of the device and of the action. -/
structure Options.After (env : Env) (o : Options) (opts : List Opt) (o' : Options) : Prop where
  ifindex : o'.ifindex = ((lastArg 'd' opts).map env.devIndex).getD o.ifindex
  actionText : o'.actionText =
    ((lastArg 'a' opts).map fun arg => (cstr arg).take xdpActionMaxStrlen).or o.actionText

/-- Without options nothing is changed. -/
theorem after_nil (env : Env) (o : Options) : o.After env [] o := ⟨rfl, rfl⟩

/-- Options after others. -/
theorem Options.After.append {env : Env} {o o₁ o₂ : Options} {opts opts' : List Opt}
    (h : o.After env opts o₁) (h' : o₁.After env opts' o₂) : o.After env (opts ++ opts') o₂ where
  ifindex := by
    rw [h'.ifindex, h.ifindex, lastArg_append]
    cases lastArg 'd' opts' <;> rfl
  actionText := by
    rw [h'.actionText, h.actionText, lastArg_append]
    cases lastArg 'a' opts' <;> rfl

/-- **The case `'d'`** fails, or leaves the index of its argument. -/
theorem dev_eq (env : Env) (o : Options) (optarg : Word) :
    o.dev env optarg =
      if optarg.length < ifNamesize ∧ env.devIndex optarg ≠ 0 then
        .ok { o with
          ifnameBuf := strncpy o.ifnameBuf optarg ifNamesize, ifindex := env.devIndex optarg }
      else .error exitFailOption := by
  unfold Options.dev
  by_cases hlength : optarg.length < ifNamesize
  · have hindex : (env.ifNametoindex (cstr (strncpy o.ifnameBuf optarg ifNamesize))).toInt32 =
        env.devIndex optarg := by rw [cstr_strncpy _ hlength]; rfl
    dsimp only
    rw [if_neg (Nat.not_le.mpr hlength), hindex]
    by_cases hzero : env.devIndex optarg = 0
    · rw [if_pos hzero, if_neg fun hand => hand.2 hzero]
    · rw [if_neg hzero, if_pos ⟨hlength, hzero⟩]
  · rw [if_pos (Nat.not_lt.mp hlength), if_neg fun hand => hlength hand.1]

/-- **An accepted option** sets its variables. -/
theorem switch_of_accepted {env : Env} {opt : Opt} (h : Accepted env opt) (o : Options) :
    ∃ o', o.switch env opt = .ok o' ∧ o.After env [opt] o' := by
  rcases h with ⟨dev, rfl, hlength, hindex⟩ | ⟨arg, rfl | rfl | rfl⟩ | hc | hc
  · refine ⟨_, (dev_eq env o dev).trans (if_pos ⟨hlength, hindex⟩), rfl, rfl⟩
  · exact ⟨_, rfl, rfl, rfl⟩
  · refine ⟨_, rfl, rfl, ?_⟩
    show some _ = some _
    rw [take_cstr_strncpy]
    rfl
  · exact ⟨_, rfl, rfl, rfl⟩
  · obtain ⟨c, optarg⟩ := opt
    obtain rfl : c = 'n' := hc
    exact ⟨_, rfl, rfl, rfl⟩
  · obtain ⟨c, optarg⟩ := opt
    obtain rfl : c = 'S' := hc
    exact ⟨_, rfl, rfl, rfl⟩

/-- **Another option** ends the program. -/
theorem switch_of_not_accepted {env : Env} {opt : Opt} (h : ¬ Accepted env opt) (o : Options) :
    o.switch env opt = .error exitFailOption := by
  unfold Options.switch
  split
  · rw [dev_eq, if_neg fun hand => h (.inl ⟨_, rfl, hand⟩)]
  · exact absurd (.inr (.inl ⟨_, .inl rfl⟩)) h
  · exact absurd (.inr (.inl ⟨_, .inr (.inl rfl)⟩)) h
  · exact absurd (.inr (.inl ⟨_, .inr (.inr rfl)⟩)) h
  · exact absurd (.inr (.inr (.inl rfl))) h
  · exact absurd (.inr (.inr (.inr rfl))) h
  · rfl

/-- **What the loop leaves** when it does not end the program. -/
theorem foldlM_switch_of_accepted {env : Env} {opts : List Opt}
    (h : ∀ opt ∈ opts, Accepted env opt) (o : Options) :
    ∃ o', opts.foldlM (Options.switch env) o = .ok o' ∧ o.After env opts o' :=
  ForLoop.exists_foldlM_of_accepted (after_nil env) (fun _ _ _ _ _ h h' => h.append h')
    (fun o _ hopt => switch_of_accepted hopt o) h o

/-- An option that is not accepted ends with `EXIT_FAIL_OPTION`. -/
theorem foldlM_switch_of_not_accepted {env : Env} {opts : List Opt}
    (h : ¬ ∀ opt ∈ opts, Accepted env opt) (o : Options) :
    opts.foldlM (Options.switch env) o = .error exitFailOption := by
  refine ForLoop.foldlM_of_not_accepted (fun o opt hopt => ?_)
    (fun o _ hopt => switch_of_not_accepted hopt o) h o
  obtain ⟨o', hswitch, -⟩ := switch_of_accepted hopt o
  exact ⟨o', hswitch⟩

/-! ## The action -/

/-- The names of the actions, each at its number. -/
def xdpActions : List Word :=
  ["XDP_ABORTED".toList, "XDP_DROP".toList, "XDP_PASS".toList, "XDP_TX".toList]

/-- What is promised for the text of an action: the program is loaded only if it is the name of an
action, then with the number of that action, and for any other text the option is refused. -/
structure ActionHonoured (run : Logged ℤ Act Unit) (str : Word) : Prop where
  loads : ∀ filename, Act.loadBpfFile filename ∈ run.log → str ∈ xdpActions
  number : ∀ v, Act.setXdpAction v ∈ run.log → xdpActions[v.toNat]? = some str
  refuses : str ∉ xdpActions → run.result = .error exitFailOption

/-- The lookup sees the text as it is compared. -/
theorem parseXdpAction_eq {buf s : List Char}
    (h : (cstr buf).take xdpActionMaxStrlen = (cstr s).take xdpActionMaxStrlen) :
    parseXdpAction buf = parseXdpAction s := by
  have hcmp (name : Word) : strncmpEq xdpActionMaxStrlen name buf =
      strncmpEq xdpActionMaxStrlen name s := by
    rw [Bool.eq_iff_iff, strncmpEq_iff, strncmpEq_iff, h]
  simp only [parseXdpAction, hcmp]

/-- The number of a name. -/
theorem getElem?_parseXdpAction {str : Word} (h : str ∈ xdpActions) :
    xdpActions[(parseXdpAction str).toInt64.toUInt64.toNat]? = some str := by
  simp only [xdpActions, List.mem_cons, List.not_mem_nil, or_false] at h
  rcases h with rfl | rfl | rfl | rfl <;> decide

/-- The statistics end with the exit code for a map, if they end. -/
theorem result_statsPoll_ne (env : Env) (interval : Int32) :
    (statsPoll env interval).result ≠ .error exitFailOption := by
  unfold statsPoll
  split
  · exact fun h => absurd (Except.error.inj h) (by decide)
  · split
    · exact fun h => absurd (Except.error.inj h) (by decide)
    · exact nofun

/-- **From the limits on** no option is refused any more. -/
theorem result_loadProgram_ne (env : Env) (argv0 : Word) (o : Options) (action : UInt64) :
    (loadProgram env argv0 o action).result ≠ .error exitFailOption := by
  have hfail : Except.error exitFail ≠ (.error exitFailOption : Except ℤ Unit) :=
    fun h => absurd (Except.error.inj h) (by decide)
  have hxdp : Except.error exitFailXdp ≠ (.error exitFailOption : Except ℤ Unit) :=
    fun h => absurd (Except.error.inj h) (by decide)
  unfold loadProgram
  split
  · exact hfail
  · simp only [Logged.result_write_bind]
    split
    · exact hfail
    · split
      · exact hfail
      · simp only [Logged.result_write_bind]
        split
        · exact hxdp
        · exact result_statsPoll_ne env o.interval

/-- **The action that is set** is the one that was parsed. -/
theorem setXdpAction_loadProgram (env : Env) (argv0 : Word) (o : Options) (action : UInt64) :
    (loadProgram env argv0 o action).Always fun act =>
      ∀ v, act = .setXdpAction v → v = action := by
  have hother {act : Act} (h : ∀ v, act ≠ .setXdpAction v) :
      (Logged.write act : Logged ℤ Act PUnit).Always fun act =>
        ∀ v, act = .setXdpAction v → v = action :=
    Logged.always_write.mpr fun v hv => absurd hv (h v)
  unfold loadProgram
  split
  · exact Logged.always_stop _
  · refine .bind (hother fun _ => nofun) fun _ => ?_
    split
    · exact Logged.always_stop _
    · split
      · exact Logged.always_stop _
      · have hset : ∀ v, Act.setXdpAction action = .setXdpAction v → v = action :=
          fun v hv => (Act.setXdpAction.inj hv).symm
        refine .bind (Logged.always_write.mpr hset) fun _ => ?_
        refine .bind (hother fun _ => nofun) fun _ => .bind (hother fun _ => nofun) fun _ => ?_
        refine .bind (hother fun _ => nofun) fun _ => ?_
        split
        · exact Logged.always_stop _
        · unfold statsPoll
          split
          · exact Logged.always_stop _
          · split
            · exact Logged.always_stop _
            · exact hother fun _ => nofun

/-- A refused option keeps what is promised. -/
theorem actionHonoured_stop (str : Word) :
    ActionHonoured (.stop exitFailOption : Logged ℤ Act Unit) str := ⟨nofun, nofun, fun _ => rfl⟩

/-- **The test for an unknown action never holds.** -/
theorem runOptions_eq {o : Options} (hdev : o.ifindex ≠ -1) (haction : o.actionStr) (env : Env)
    (argv0 : Word) :
    runOptions env argv0 o =
      loadProgram env argv0 o (parseXdpAction o.actionStrBuf).toInt64.toUInt64 := by
  rw [runOptions, if_neg hdev, if_pos haction]
  exact if_neg UInt64.not_lt_zero

/-- What the options of a command line with an action set. -/
theorem exists_parse {env : Env} {opts : List Opt} {str : Word}
    (haccepted : ∀ opt ∈ opts, Accepted env opt) (hlast : lastArg 'a' opts = some str) :
    ∃ o, Options.parse env opts = .ok o ∧
      o.ifindex = ((lastArg 'd' opts).map env.devIndex).getD (-1) ∧ o.actionStr = true ∧
      parseXdpAction o.actionStrBuf = parseXdpAction str := by
  obtain ⟨o, hparse, hafter⟩ := foldlM_switch_of_accepted haccepted .init
  have htext := hafter.actionText
  rw [hlast, Option.map_some, Option.some_or, Options.actionText] at htext
  split at htext
  · rename_i haction
    exact ⟨o, hparse, hafter.ifindex, haction, parseXdpAction_eq (Option.some.inj htext)⟩
  · cases htext

/-- **When the action is honoured**: the command line is refused for another reason, or the text is
the name of an action. -/
theorem actionHonoured_iff (env : Env) (argv0 : Word) (argv : List Word) {str : Word}
    (hlast : lastArg 'a' (optionsOf argv) = some str) :
    ActionHonoured (main env argv0 argv) str ↔
      (∃ opt ∈ optionsOf argv, ¬ Accepted env opt) ∨
        ((lastArg 'd' (optionsOf argv)).map env.devIndex).getD (-1) = -1 ∨ str ∈ xdpActions := by
  by_cases hbad : ∃ opt ∈ optionsOf argv, ¬ Accepted env opt
  · have hstop : main env argv0 argv = .stop exitFailOption := by
      rw [main, Options.parse, foldlM_switch_of_not_accepted (by simpa using hbad)]
    exact iff_of_true (hstop ▸ actionHonoured_stop str) (.inl hbad)
  · have haccepted : ∀ opt ∈ optionsOf argv, Accepted env opt := by simpa using hbad
    obtain ⟨o, hparse, hindex, haction, hnumber⟩ := exists_parse haccepted hlast
    have hmain : main env argv0 argv = runOptions env argv0 o := by rw [main, hparse]
    by_cases hdev : o.ifindex = -1
    · have hstop : main env argv0 argv = .stop exitFailOption := by
        rw [hmain, runOptions, if_pos hdev]
      exact iff_of_true (hstop ▸ actionHonoured_stop str) (.inr (.inl (hindex ▸ hdev)))
    · have hload := hmain.trans (runOptions_eq hdev haction env argv0)
      constructor
      · intro h
        refine .inr (.inr (of_not_not fun hstr => ?_))
        exact result_loadProgram_ne env argv0 o _ (hload ▸ h.refuses hstr)
      · rintro (h | h | hstr)
        · exact absurd h hbad
        · exact absurd (hindex.trans h) hdev
        · refine ⟨fun _ _ => hstr, fun v hv => ?_, fun h => absurd hstr h⟩
          rw [hload] at hv
          rw [setXdpAction_loadProgram env argv0 o _ _ hv v rfl, hnumber]
          exact getElem?_parseXdpAction hstr

/-- There is one device, and every function succeeds. -/
def Env.oneDevice : Env where
  ifNametoindex name := if name = "eth0".toList then 2 else 0
  setrlimit := 0
  loadBpfFile := fun _ => 0
  progFd := 3
  setLinkXdpFd := 0
  lookupXdpPattern := 0
  lookupTouchMem := 0

/-- `--dev eth0 --action` with a text. -/
def actionArgv (str : Word) : List Word :=
  ["--dev".toList, "eth0".toList, "--action".toList, str]

/-- The action `XDP_DROP`. -/
theorem actionHonoured_iff_drop :
    ActionHonoured (main .oneDevice "xdp_bench02".toList (actionArgv "XDP_DROP".toList))
      "XDP_DROP".toList :=
  (actionHonoured_iff .oneDevice _ _ (by decide)).mpr (.inr (.inr (by decide)))

/-- **The program runs with an action that there is not**, which `--action XDP_DORP` asks for. -/
theorem not_actionHonoured_dorp :
    ¬ ActionHonoured (main .oneDevice "xdp_bench02".toList (actionArgv "XDP_DORP".toList))
      "XDP_DORP".toList := by
  intro h
  have hresult : (main .oneDevice "xdp_bench02".toList (actionArgv "XDP_DORP".toList)).result =
      .ok () := rfl
  exact nomatch hresult.symm.trans (h.refuses (by decide))

end XdpBench02
