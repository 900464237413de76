import PrototypeKernel.Foundation.Getopt

/-! # Options with an argument that may be left out

`getopt_long()` for programs with optional arguments. An optional argument has to stand in the word
of its option, behind the letter of a short option or behind the `=` of a long one. The words of the
command line are scanned as for other options. -/

namespace GetoptOptional

open Getopt

/-- Whether an option takes an argument: `no_argument`, `required_argument` or
`optional_argument`. -/
inductive HasArg where
  | no
  | required
  | optional
  deriving DecidableEq, Repr

/-- An entry of `struct option`. -/
structure LongOption where
  name : Word
  hasArg : HasArg
  val : Char
  deriving DecidableEq, Repr

variable (optstring : List Char) (longOptions : List LongOption)

/-- Whether a short option takes an argument, if there is such an option. -/
def shortOption (c : Char) : Option HasArg :=
  if c = ':' ∨ c = ';' then none
  else
    match optstring.dropWhile (· ≠ c) with
    | [] => none
    | _ :: ':' :: ':' :: _ => some .optional
    | _ :: ':' :: _ => some .required
    | _ => some .no

/-- The short options in a word. -/
def shortOptions : List Char → List Opt × Option Char
  | [] => ([], none)
  | c :: cs =>
      match shortOption optstring c with
      | none => (('?', none) :: (shortOptions cs).1, (shortOptions cs).2)
      | some .no => ((c, none) :: (shortOptions cs).1, (shortOptions cs).2)
      | some .required => if cs = [] then ([], some c) else ([(c, some cs)], none)
      | some .optional => ([(c, if cs = [] then none else some cs)], none)

/-- The long option with a name, or with a longer name if this can be one option only. -/
def longOption (name : Word) : Option LongOption :=
  match longOptions.find? (·.name = name) with
  | some o => some o
  | none =>
      match longOptions.filter (name.isPrefixOf ·.name) with
      | [] => none
      | o :: os => if os.all fun o' => o'.hasArg = o.hasArg ∧ o'.val = o.val then some o else none

/-- The long option in a word. -/
def longWord (w : Word) : List Opt × Option Char :=
  match longOption longOptions (w.takeWhile (· ≠ '=')), w.dropWhile (· ≠ '=') with
  | none, _ => ([('?', none)], none)
  | some o, [] =>
      match o.hasArg with
      | .required => ([], some o.val)
      | _ => ([(o.val, none)], none)
  | some o, _ :: arg =>
      match o.hasArg with
      | .no => ([('?', none)], none)
      | _ => ([(o.val, some arg)], none)

/-- What a word is. -/
def kind : Word → Kind
  | ['-', '-'] => .endOfOptions
  | '-' :: '-' :: w => .options (longWord longOptions w).1 (longWord longOptions w).2
  | '-' :: c :: cs => .options (shortOptions optstring (c :: cs)).1
      (shortOptions optstring (c :: cs)).2
  | _ => .operand

/-- What the calls of `getopt_long()` return, and the other words. -/
def getoptLong (ws : List Word) : List Opt × List Word := scan (kind optstring longOptions) ws

/-! ## The arguments that are found -/

/-- The arguments of options end words of a list. -/
def ArgsIn (ws : List Word) (opts : List Opt) : Prop :=
  ∀ opt ∈ opts, ∀ arg ∈ opt.2, ∃ w ∈ ws, arg <:+ w

variable {optstring longOptions}

/-- The arguments are in more words, and in longer ones. -/
theorem ArgsIn.mono {ws ws' : List Word} {opts : List Opt} (h : ArgsIn ws opts)
    (hsub : ∀ w ∈ ws, ∃ w' ∈ ws', w <:+ w') : ArgsIn ws' opts := by
  intro opt hopt arg harg
  obtain ⟨w, hw, hsuffix⟩ := h opt hopt arg harg
  obtain ⟨w', hw', hsuffix'⟩ := hsub w hw
  exact ⟨w', hw', hsuffix.trans hsuffix'⟩

/-- The arguments of two lists of options. -/
theorem argsIn_append {ws : List Word} {opts opts' : List Opt} (h : ArgsIn ws opts)
    (h' : ArgsIn ws opts') : ArgsIn ws (opts ++ opts') :=
  List.forall_mem_append.mpr ⟨h, h'⟩

/-- An argument at the end of a word is in it. -/
theorem argsIn_singleton {w arg : Word} {c : Char} (h : arg <:+ w) :
    ArgsIn [w] [(c, some arg)] := by
  rintro opt hopt arg' harg'
  obtain rfl := List.mem_singleton.mp hopt
  obtain rfl : arg = arg' := Option.some.inj harg'
  exact ⟨w, List.mem_singleton_self w, h⟩

/-- An option without an argument. -/
theorem argsIn_none (ws : List Word) (c : Char) : ArgsIn ws [(c, none)] := by
  rintro opt hopt arg harg
  obtain rfl := List.mem_singleton.mp hopt
  cases harg

/-- The arguments of a cluster are in its word. -/
theorem argsIn_shortOptions (cs : List Char) : ArgsIn [cs] (shortOptions optstring cs).1 := by
  have hsub (c : Char) (cs : List Char) : ∀ w ∈ [cs], ∃ w' ∈ [c :: cs], w <:+ w' := by
    rintro w hw
    obtain rfl := List.mem_singleton.mp hw
    exact ⟨c :: w, List.mem_singleton_self _, List.suffix_cons c w⟩
  induction cs with
  | nil => exact nofun
  | cons c cs ih =>
    rw [shortOptions]
    split
    · exact argsIn_append (argsIn_none _ '?') (ih.mono (hsub c cs))
    · exact argsIn_append (argsIn_none _ c) (ih.mono (hsub c cs))
    · split
      · exact nofun
      · exact argsIn_singleton (List.suffix_cons c cs)
    · split
      · exact argsIn_none _ c
      · exact argsIn_singleton (List.suffix_cons c cs)

/-- The argument of a long option is in its word. -/
theorem argsIn_longWord (w : Word) : ArgsIn [w] (longWord longOptions w).1 := by
  unfold longWord
  split
  · exact argsIn_none _ '?'
  · split
    · exact nofun
    · exact argsIn_none _ _
  · rename_i o eqSign arg _ hdrop
    split
    · exact argsIn_none _ '?'
    · have hsuffix : eqSign :: arg <:+ w := hdrop ▸ List.dropWhile_suffix _
      exact argsIn_singleton ((List.suffix_cons eqSign arg).trans hsuffix)

/-- The arguments of a word are in it. -/
theorem argsIn_kind {w : Word} {opts : List Opt} {wants : Option Char}
    (h : kind optstring longOptions w = .options opts wants) : ArgsIn [w] opts := by
  have hsub {w w' : Word} (hsuffix : w <:+ w') : ∀ v ∈ [w], ∃ v' ∈ [w'], v <:+ v' := by
    rintro v hv
    obtain rfl := List.mem_singleton.mp hv
    exact ⟨w', List.mem_singleton_self w', hsuffix⟩
  unfold kind at h
  split at h
  · cases h
  · rename_i rest _
    cases h
    exact (argsIn_longWord rest).mono (hsub ⟨['-', '-'], rfl⟩)
  · rename_i c cs _ _
    cases h
    exact (argsIn_shortOptions (c :: cs)).mono (hsub ⟨['-'], rfl⟩)
  · cases h

/-- **The argument of an option ends a word of the command line.** -/
theorem argsIn_getoptLong (ws : List Word) :
    ArgsIn ws (getoptLong optstring longOptions ws).1 := by
  refine forall_mem_scan nofun fun w hw opts wants hkind => ⟨?_, ?_⟩
  · refine (argsIn_kind hkind).mono fun v hv => ?_
    obtain rfl := List.mem_singleton.mp hv
    exact ⟨v, hw, List.suffix_rfl⟩
  · rintro c - arg harg arg' harg'
    obtain rfl : arg = arg' := Option.some.inj harg'
    exact ⟨arg, harg, List.suffix_rfl⟩

end GetoptOptional
