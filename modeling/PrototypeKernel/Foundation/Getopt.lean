import Mathlib.Data.List.Basic

/-! # Options of a command line

The options that `getopt_long()` finds in the words of a command line, one call after the other, and
the words that are no options. Short options may stand together in a word, a long one may be
abbreviated, and an argument is the rest of the word or the next word. Options and other words may
stand in any order, up to the word `--`. There are no options with an argument that may be left
out. -/

namespace Getopt

/-- A word of the command line. -/
abbrev Word := List Char

/-- An entry of `struct option`. -/
structure LongOption where
  name : Word
  hasArg : Bool
  val : Char
  deriving DecidableEq, Repr

/-- What a call returns, and `optarg`. A word that is in error is the option `?`. -/
abbrev Opt := Char × Option Word

/-- What a word is. The last one of its options may have its argument in the next word. -/
inductive Kind where
  | operand
  | endOfOptions
  | options (opts : List Opt) (wants : Option Char)
  deriving DecidableEq, Repr

variable (optstring : List Char) (longOptions : List LongOption)

/-- Whether a short option takes an argument, if there is such an option. -/
def shortOption (c : Char) : Option Bool :=
  if c = ':' ∨ c = ';' then none
  else
    match optstring.dropWhile (· ≠ c) with
    | [] => none
    | _ :: rest => some (rest.head? = some ':')

/-- The short options in a word. -/
def shortOptions : List Char → List Opt × Option Char
  | [] => ([], none)
  | c :: cs =>
      match shortOption optstring c with
      | none => (('?', none) :: (shortOptions cs).1, (shortOptions cs).2)
      | some false => ((c, none) :: (shortOptions cs).1, (shortOptions cs).2)
      | some true => if cs = [] then ([], some c) else ([(c, some cs)], none)

/-- The long option with a name, or with a longer name if this can be one option only. -/
def longOption (name : Word) : Option LongOption :=
  match longOptions.find? (·.name = name) with
  | some o => some o
  | none =>
      match longOptions.filter (name.isPrefixOf ·.name) with
      | [] => none
      | o :: os => if os.all fun o' => o'.hasArg = o.hasArg ∧ o'.val = o.val then some o else none

/-- The long option in a word. -/
def longWord (w : Word) : List Opt × Option Char :=
  match longOption longOptions (w.takeWhile (· ≠ '=')), w.dropWhile (· ≠ '=') with
  | none, _ => ([('?', none)], none)
  | some o, [] => if o.hasArg then ([], some o.val) else ([(o.val, none)], none)
  | some o, _ :: arg => if o.hasArg then ([(o.val, some arg)], none) else ([('?', none)], none)

/-- What a word is. -/
def kind : Word → Kind
  | ['-', '-'] => .endOfOptions
  | '-' :: '-' :: w => .options (longWord longOptions w).1 (longWord longOptions w).2
  | '-' :: c :: cs => .options (shortOptions optstring (c :: cs)).1
      (shortOptions optstring (c :: cs)).2
  | _ => .operand

/-- What the calls of `getopt_long()` return, and the other words. -/
def getoptLong : List Word → List Opt × List Word
  | [] => ([], [])
  | w :: ws =>
      match kind optstring longOptions w, ws with
      | .operand, ws => ((getoptLong ws).1, w :: (getoptLong ws).2)
      | .endOfOptions, ws => ([], ws)
      | .options opts none, ws => (opts ++ (getoptLong ws).1, (getoptLong ws).2)
      | .options opts (some _), [] => (opts ++ [('?', none)], [])
      | .options opts (some c), arg :: ws =>
          (opts ++ (c, some arg) :: (getoptLong ws).1, (getoptLong ws).2)

/-! ## Other ways to read a word -/

/-- The loop over the words, for any way to read a word. -/
def scan (kind : Word → Kind) : List Word → List Opt × List Word
  | [] => ([], [])
  | w :: ws =>
      match kind w, ws with
      | .operand, ws => ((scan kind ws).1, w :: (scan kind ws).2)
      | .endOfOptions, ws => ([], ws)
      | .options opts none, ws => (opts ++ (scan kind ws).1, (scan kind ws).2)
      | .options opts (some _), [] => (opts ++ [('?', none)], [])
      | .options opts (some c), arg :: ws =>
          (opts ++ (c, some arg) :: (scan kind ws).1, (scan kind ws).2)

/-- `getopt_long` scans the words by their kinds. -/
theorem getoptLong_eq_scan (ws : List Word) :
    getoptLong optstring longOptions ws = scan (kind optstring longOptions) ws := by
  fun_induction getoptLong optstring longOptions ws with
  | case1 => rfl
  | case2 w ws hkind ih | case4 w opts ws hkind ih | case6 w opts c arg ws hkind ih =>
    rw [scan.eq_def]
    simp only [hkind, ih]
  | case3 w ws hkind | case5 w opts c hkind =>
    rw [scan.eq_def]
    simp only [hkind]

/-- What the options in some words, and options with one of these words as argument, have in
common. -/
def InWords (kind : Word → Kind) (ws : List Word) (P : Opt → Prop) : Prop :=
  ∀ w ∈ ws, ∀ opts wants, kind w = .options opts wants →
    (∀ opt ∈ opts, P opt) ∧ ∀ c, wants = some c → ∀ arg ∈ ws, P (c, some arg)

/-- What holds of the options of some words holds of those of fewer words. -/
theorem InWords.mono {kind : Word → Kind} {ws ws' : List Word} {P : Opt → Prop}
    (h : InWords kind ws P) (hsub : ∀ w ∈ ws', w ∈ ws) : InWords kind ws' P := by
  intro w hw opts wants hoptions
  obtain ⟨hopts, hwants⟩ := h w (hsub w hw) opts wants hoptions
  exact ⟨hopts, fun c hc arg harg => hwants c hc arg (hsub arg harg)⟩

/-- **The rule for the options that are found.** -/
theorem forall_mem_scan {kind : Word → Kind} {P : Opt → Prop} {ws : List Word}
    (herror : P ('?', none)) (h : InWords kind ws P) : ∀ opt ∈ (scan kind ws).1, P opt := by
  fun_induction scan kind ws with
  | case1 => exact nofun
  | case2 w ws _ ih => exact ih (h.mono fun _ => List.mem_cons_of_mem w)
  | case3 w ws _ => exact nofun
  | case4 w opts ws hoptions ih =>
    obtain ⟨hopts, -⟩ := h w List.mem_cons_self opts none hoptions
    exact List.forall_mem_append.mpr ⟨hopts, ih (h.mono fun _ => List.mem_cons_of_mem w)⟩
  | case5 w opts c hoptions =>
    obtain ⟨hopts, -⟩ := h w List.mem_cons_self opts (some c) hoptions
    exact List.forall_mem_append.mpr ⟨hopts, List.forall_mem_singleton.mpr herror⟩
  | case6 w opts c arg ws hoptions ih =>
    obtain ⟨hopts, hwants⟩ := h w List.mem_cons_self opts (some c) hoptions
    refine List.forall_mem_append.mpr ⟨hopts, List.forall_mem_cons.mpr ⟨?_, ih ?_⟩⟩
    · exact hwants c rfl arg (List.mem_cons_of_mem w List.mem_cons_self)
    · exact h.mono fun _ hv => List.mem_cons_of_mem w (List.mem_cons_of_mem arg hv)

/-! ## The options that are found -/

/-- There is an option that takes an argument or not, as `hasArg` says. -/
def IsOption (c : Char) (hasArg : Bool) : Prop :=
  shortOption optstring c = some hasArg ∨
    ∃ o ∈ longOptions, o.val = c ∧ o.hasArg = hasArg

/-- What may be found: an error, or an option with the argument that it takes. -/
inductive Found : Opt → Prop
  | error : Found ('?', none)
  | flag {c : Char} : IsOption optstring longOptions c false → Found (c, none)
  | arg {c : Char} (w : Word) : IsOption optstring longOptions c true → Found (c, some w)

variable {optstring longOptions}

/-- The options of a cluster are options of the program, and so is the one that wants an argument.
-/
theorem found_shortOptions (cs : List Char) :
    (∀ opt ∈ (shortOptions optstring cs).1, Found optstring longOptions opt) ∧
      ∀ c, (shortOptions optstring cs).2 = some c → IsOption optstring longOptions c true := by
  induction cs with
  | nil => exact ⟨nofun, nofun⟩
  | cons c cs ih =>
    rw [shortOptions]
    split
    · exact ⟨List.forall_mem_cons.mpr ⟨.error, ih.1⟩, ih.2⟩
    · rename_i hflag
      exact ⟨List.forall_mem_cons.mpr ⟨.flag (.inl hflag), ih.1⟩, ih.2⟩
    · rename_i harg
      split
      · refine ⟨nofun, ?_⟩
        rintro c ⟨⟩
        exact .inl harg
      · exact ⟨by simpa using .arg cs (.inl harg), nofun⟩

/-- The long option that is found is one of the table. -/
theorem mem_of_longOption {name : Word} {o : LongOption}
    (h : longOption longOptions name = some o) : o ∈ longOptions := by
  unfold longOption at h
  split at h
  · cases h
    exact List.mem_of_find?_eq_some ‹_›
  · split at h
    · cases h
    · rename_i hfilter
      split at h
      · cases h
        exact (List.mem_filter.mp (hfilter ▸ List.mem_cons_self)).1
      · cases h

/-- The option of a long word is one of the program. -/
theorem found_longWord (w : Word) :
    (∀ opt ∈ (longWord longOptions w).1, Found optstring longOptions opt) ∧
      ∀ c, (longWord longOptions w).2 = some c → IsOption optstring longOptions c true := by
  unfold longWord
  split
  · exact ⟨by simpa using .error, nofun⟩
  · rename_i o hoption _
    have hmem := mem_of_longOption hoption
    split
    · rename_i harg
      refine ⟨nofun, ?_⟩
      rintro c ⟨⟩
      exact .inr ⟨o, hmem, rfl, harg⟩
    · rename_i harg
      exact ⟨by simpa using .flag (.inr ⟨o, hmem, rfl, by simpa using harg⟩), nofun⟩
  · rename_i o _ arg hoption _
    have hmem := mem_of_longOption hoption
    split
    · rename_i harg
      exact ⟨by simpa using .arg arg (.inr ⟨o, hmem, rfl, harg⟩), nofun⟩
    · exact ⟨by simpa using .error, nofun⟩

/-- The options of a word are options of the program. -/
theorem found_kind {w : Word} {opts : List Opt} {wants : Option Char}
    (h : kind optstring longOptions w = .options opts wants) :
    (∀ opt ∈ opts, Found optstring longOptions opt) ∧
      ∀ c, wants = some c → IsOption optstring longOptions c true := by
  unfold kind at h
  split at h
  · cases h
  · cases h
    exact found_longWord _
  · cases h
    exact found_shortOptions _
  · cases h

/-- **Only options that there are are found**, each with the argument that it takes. -/
theorem found_getoptLong (ws : List Word) :
    ∀ opt ∈ (getoptLong optstring longOptions ws).1, Found optstring longOptions opt := by
  rw [getoptLong_eq_scan]
  refine forall_mem_scan .error fun w _ opts wants hkind => ?_
  obtain ⟨hopts, hwants⟩ := found_kind hkind
  exact ⟨hopts, fun c hc arg _ => .arg arg (hwants c hc)⟩

end Getopt
