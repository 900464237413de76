import PrototypeKernel.Foundation.PyText
import Mathlib.Data.List.Forall2

/-! # The Configurator

`main.py` of the Configurator reads the report of a docker check and a captured kernel configuration
and writes the configuration with the options that the report calls enabled set to `y`. Whether the
report calls an option enabled is looked for in the whole of its line. -/

namespace Configurator

open CText PyText

/-! ## The program -/

/-- `'CONFIG_'`. -/
def config : List Char := "CONFIG_".toList

/-- `'enabled'`. -/
def enabled : List Char := "enabled".toList

/-- `' is not set'`. -/
def isNotSet : List Char := " is not set".toList

/-- `'- '`. -/
def bullet : List Char := "- ".toList

/-- `'# '`. -/
def hash : List Char := "# ".toList

/-- A line of the report: the option that it adds to `checked_options`. -/
def checkedOption (dl : List Char) : Option (List Char) :=
  let dc := strip dl
  if bullet ++ config <+: dc ∧ enabled <:+: dc then
    some (replace bullet [] (firstField ':' dc))
  else none

/-- `checked_options`. -/
def checkedOptions (report : List Char) : List (List Char) := (lines report).filterMap checkedOption

/-- `cfg`: the option that a stripped line of the captured configuration names, or no text. -/
def namedOption (cc : List Char) : List Char :=
  if isNotSet <:+ cc then
    replace hash [] (replace isNotSet [] cc)
  else if config <+: cc then strip (firstField '=' cc)
  else []

/-- What a line of the captured configuration adds to `captured_options`. -/
def capturedOption (checked : List (List Char)) (cl : List Char) : List Char :=
  let cc := strip cl
  let cfg := namedOption cc
  if cfg ≠ [] then
    if cfg ∈ checked then cfg ++ "=y".toList else cc
  else cc

/-- `captured_options`. -/
def capturedOptions (report captured : List Char) : List (List Char) :=
  (lines captured).map (capturedOption (checkedOptions report))

/-- The combined configuration that is written. -/
def combined (report captured : List Char) : List Char :=
  (capturedOptions report captured).flatMap (· ++ ['\n'])

/-! ## The formats -/

/-- A word of letters, digits and underscores. -/
def IsWord (x : List Char) : Prop := ∀ c ∈ x, c.isAlphanum ∨ c = '_'

/-- The name of option `x`. -/
def optionName (x : List Char) : List Char := config ++ x

/-- The line of the report for option `x`. -/
def reportLine (x status : List Char) : List Char := bullet ++ optionName x ++ ": ".toList ++ status

/-- The line of a configuration that gives option `x` a value. -/
def valueLine (x v : List Char) : List Char := optionName x ++ '=' :: v

/-- The line of a configuration for an option that is not set. -/
def notSetLine (x : List Char) : List Char := hash ++ optionName x ++ isNotSet

/-- The double quote. -/
def quote : Char := '\x22'

/-- A single word, or a string in double quotes. -/
def IsValue (v : List Char) : Prop :=
  (∀ c ∈ v, isSpace c = false) ∨ ∃ u, v = quote :: u ++ [quote]

/-- A line of a configuration, stripped. -/
inductive ConfigLine : List Char → Prop
  | blank : ConfigLine []
  | comment {t : List Char} (h : ¬ "is not set".toList <:+ '#' :: t) : ConfigLine ('#' :: t)
  | value {x v : List Char} (hx : IsWord x) (hv : IsValue v) : ConfigLine (valueLine x v)
  | notSet {x : List Char} (hx : IsWord x) : ConfigLine (notSetLine x)

/-- Every option line of the report has the form `- CONFIG_X: status`. -/
def WellFormedReport (report : List Char) : Prop :=
  ∀ l ∈ lines report, bullet ++ config <+: strip l →
    ∃ x status, IsWord x ∧ strip l = reportLine x status

/-- Every line is a line of a configuration. -/
def WellFormedConfig (captured : List Char) : Prop := ∀ l ∈ lines captured, ConfigLine (strip l)

/-- A stripped line of a configuration **names** option `x`. -/
def Names (x cc : List Char) : Prop :=
  IsWord x ∧ ((∃ v, IsValue v ∧ cc = valueLine x v) ∨ cc = notSetLine x)

/-- The report has a line for option `x`. -/
def Listed (report x : List Char) : Prop :=
  ∃ l ∈ lines report, ∃ status, strip l = reportLine x status

/-- The report has a line for option `x` with a status that contains `enabled`. -/
def Enabled (report x : List Char) : Prop :=
  ∃ l ∈ lines report, ∃ status, strip l = reportLine x status ∧ enabled <:+: status

/-! ## The names that are extracted -/

variable {report captured : List Char} {x v status l cc : List Char}

/-- The characters of words stand behind white space and punctuation. -/
theorem IsWord.lt_toNat (hx : IsWord x) {c : Char} (hc : c ∈ x) : 47 < c.toNat := by
  have hpunctuation : ∀ n, n < 48 → (Char.ofNat n).isAlphanum = false := by decide
  rcases hx c hc with halnum | rfl
  · refine Nat.lt_of_not_le fun hle => ?_
    have hnot := hpunctuation c.toNat (Nat.lt_succ_of_le hle)
    rw [Char.ofNat_toNat, halnum] at hnot
    cases hnot
  · decide

/-- A text of word characters is a word. -/
theorem isWord_of_all (h : x.all (fun c => c.isAlphanum || c == '_') = true) : IsWord x :=
  fun c hc => by simpa using List.all_eq_true.mp h c hc

/-- The name of an option is a word. -/
theorem isWord_optionName (hx : IsWord x) : IsWord (optionName x) := by
  have hconfig : IsWord config := isWord_of_all rfl
  intro c hc
  exact (List.mem_append.mp hc).elim (hconfig c) (hx c)

/-- Only letters, digits and underscores are in the name of an option. -/
theorem notMem_optionName (hx : IsWord x) {c : Char} (hc : ¬ (c.isAlphanum ∨ c = '_')) :
    c ∉ optionName x := fun hmem => hc (isWord_optionName hx c hmem)

/-- The name of an option is not empty. -/
theorem optionName_ne_nil (x : List Char) : optionName x ≠ [] := List.cons_ne_nil _ _

/-- The name of an option has no white space around it. -/
theorem strip_optionName (hx : IsWord x) : strip (optionName x) = optionName x :=
  (trimmed_of_forall fun _ hc => not_isSpace_of_lt
    (Nat.lt_trans (by decide) ((isWord_optionName hx).lt_toNat hc))).strip_eq

/-- Options with one name are the same. -/
theorem optionName_injective : Function.Injective optionName := fun _ _ h =>
  List.append_cancel_left h

/-- The option of a line of the report. -/
theorem replace_reportLine (hx : IsWord x) :
    replace bullet [] (firstField ':' (reportLine x status)) = optionName x := by
  have hcolon : ':' ∉ bullet ++ optionName x := by
    rw [List.mem_append, not_or]
    exact ⟨by decide, notMem_optionName hx (by decide)⟩
  rw [reportLine, List.append_assoc,
    show ": ".toList ++ status = ':' :: (" ".toList ++ status) from rfl, firstField_append hcolon,
    replace_append (by decide), List.nil_append]
  exact replace_of_notMem (notMem_optionName hx (by decide))

/-- The option of a line of a configuration that gives it a value. -/
theorem namedOption_valueLine (hx : IsWord x) (hv : IsValue v) :
    namedOption (valueLine x v) = optionName x := by
  have hset : ¬ isNotSet <:+ valueLine x v := by
    rintro ⟨u, hu⟩
    rcases hv with hv | ⟨w, rfl⟩
    · -- a line with a single word has no space
      have hspace : ' ' ∈ valueLine x v := hu ▸ List.mem_append_right u (by decide)
      rcases List.mem_append.mp hspace with hspace | hspace
      · exact notMem_optionName hx (by decide) hspace
      · rcases List.mem_cons.mp hspace with hspace | hspace
        · exact absurd hspace (by decide)
        · exact absurd (hv _ hspace) (by decide)
    · -- a line with a string ends in a quote
      have hlast := congrArg List.getLast? hu
      rw [valueLine, ← List.cons_append, ← List.append_assoc, List.getLast?_concat,
        List.getLast?_append_of_ne_nil u (by decide)] at hlast
      exact absurd hlast (by decide)
  have hequals : '=' ∉ optionName x := notMem_optionName hx (by decide)
  rw [namedOption, if_neg hset, if_pos ⟨x ++ '=' :: v, (List.append_assoc ..).symm⟩, valueLine,
    firstField_append hequals, strip_optionName hx]

/-- The option of a line that says that it is not set. -/
theorem namedOption_notSetLine (hx : IsWord x) : namedOption (notSetLine x) = optionName x := by
  have hspace : ' ' ∉ optionName x := notMem_optionName hx (by decide)
  have hhash : '#' ∉ optionName x := notMem_optionName hx (by decide)
  -- the space behind `#` begins no occurrence
  have hinner : ¬ isNotSet <+: ' ' :: (optionName x ++ isNotSet) := by
    intro hpre
    obtain ⟨-, hpre⟩ := List.cons_prefix_cons.mp hpre
    exact absurd (List.cons_prefix_cons.mp hpre).1 (by decide)
  have hfirst : ¬ isNotSet <+: '#' :: ' ' :: (optionName x ++ isNotSet) := fun hpre =>
    absurd (List.cons_prefix_cons.mp hpre).1 (by decide)
  have hremoved : replace isNotSet [] (notSetLine x) = hash ++ optionName x := by
    show replace isNotSet [] ('#' :: ' ' :: (optionName x ++ isNotSet)) = _
    have hname : replace isNotSet [] (optionName x ++ isNotSet) = optionName x ++ [] :=
      replace_append_of_notMem hspace isNotSet
    rw [replace_cons hfirst, replace_cons hinner, hname, List.append_nil]
    rfl
  have hset : isNotSet <:+ notSetLine x := List.suffix_append (hash ++ optionName x) isNotSet
  rw [namedOption, if_pos hset, hremoved, replace_append (by decide), List.nil_append]
  exact replace_of_notMem hhash

/-- A line that names no option. -/
theorem namedOption_eq_nil (h : ConfigLine cc) (hnames : ∀ x, ¬ Names x cc) :
    namedOption cc = [] := by
  cases h with
  | blank => rfl
  | comment h =>
    have hset : "is not set".toList <:+ isNotSet := List.suffix_cons ' ' _
    rw [namedOption, if_neg fun hsuf => h (hset.trans hsuf), if_neg]
    exact fun hpre => absurd (List.cons_prefix_cons.mp hpre).1 (by decide)
  | value hx hv => exact absurd ⟨hx, .inl ⟨_, hv, rfl⟩⟩ (hnames _)
  | notSet hx => exact absurd ⟨hx, .inr rfl⟩ (hnames _)

/-- The program extracts the name of the option that a line names. -/
theorem Names.namedOption_eq (h : Names x cc) : namedOption cc = optionName x := by
  obtain ⟨hx, ⟨v, hv, rfl⟩ | rfl⟩ := h
  · exact namedOption_valueLine hx hv
  · exact namedOption_notSetLine hx

/-! ## The options of the report -/

/-- **`enabled` is found in the line of an option** when it is in the status, or in the name. -/
theorem enabled_infix_reportLine :
    enabled <:+: reportLine x status ↔ enabled <:+: x ∨ enabled <:+: status := by
  have hsplit : reportLine x status = "- CONFIG".toList ++ '_' :: (x ++ ':' :: ' ' :: status) := by
    simp only [reportLine, optionName, List.append_assoc]
    rfl
  have hnil : ¬ enabled <:+: [] := by decide
  have hhead : ¬ enabled <:+: "- CONFIG".toList := by decide
  -- no occurrence reaches across `_`, `:` and the space
  calc enabled <:+: reportLine x status
      ↔ enabled <:+: "- CONFIG".toList ∨ enabled <:+: x ++ ':' :: ' ' :: status :=
        hsplit ▸ infix_append_cons_iff (by decide) (by decide)
    _ ↔ enabled <:+: x ++ ':' :: ' ' :: status := or_iff_right hhead
    _ ↔ enabled <:+: x ∨ enabled <:+: ' ' :: status :=
        infix_append_cons_iff (by decide) (by decide)
    _ ↔ enabled <:+: x ∨ enabled <:+: status :=
        or_congr_right ((infix_append_cons_iff (s := []) (by decide) (by decide)).trans
          (or_iff_right hnil))

/-- What a line of the report for option `x` adds. -/
theorem checkedOption_reportLine (hx : IsWord x) (hl : strip l = reportLine x status) :
    checkedOption l = if enabled <:+: x ∨ enabled <:+: status
      then some (optionName x) else none := by
  have hpre : bullet ++ config <+: reportLine x status :=
    ⟨x ++ ": ".toList ++ status, by simp only [reportLine, optionName, List.append_assoc]⟩
  simp only [checkedOption, hl, hpre, true_and, enabled_infix_reportLine, replace_reportLine hx]

/-- **The options that the program takes for enabled**: those that are, and those of the report with
`enabled` in their name. -/
theorem mem_checkedOptions (hr : WellFormedReport report) (hx : IsWord x) :
    optionName x ∈ checkedOptions report ↔
      Enabled report x ∨ Listed report x ∧ enabled <:+: x := by
  rw [checkedOptions, List.mem_filterMap]
  constructor
  · rintro ⟨l, hl, hadd⟩
    have hline : bullet ++ config <+: strip l := by
      by_contra hno
      simp [checkedOption, hno] at hadd
    obtain ⟨y, status, hy, hstrip⟩ := hr l hl hline
    rw [checkedOption_reportLine hy hstrip] at hadd
    split at hadd
    · rename_i henabled
      obtain rfl := optionName_injective (Option.some.inj hadd)
      exact henabled.elim (fun h => .inr ⟨⟨l, hl, status, hstrip⟩, h⟩)
        fun h => .inl ⟨l, hl, status, hstrip, h⟩
    · cases hadd
  · rintro (⟨l, hl, status, hstrip, h⟩ | ⟨⟨l, hl, status, hstrip⟩, h⟩)
    · exact ⟨l, hl, (checkedOption_reportLine hx hstrip).trans (if_pos (.inr h))⟩
    · exact ⟨l, hl, (checkedOption_reportLine hx hstrip).trans (if_pos (.inl h))⟩

/-! ## The combined configuration -/

variable {checked : List (List Char)} {cl : List Char}

/-- `CONFIG_X=y`. -/
def setLine (x : List Char) : List Char := optionName x ++ "=y".toList

/-- What becomes of a line that names an option. -/
theorem capturedOption_of_names (h : Names x (strip cl)) :
    capturedOption checked cl = if optionName x ∈ checked then setLine x else strip cl := by
  simp only [capturedOption, h.namedOption_eq, if_pos (optionName_ne_nil x)]
  rfl

/-- A line that names no option stays. -/
theorem capturedOption_of_not_names (hline : ConfigLine (strip cl))
    (h : ∀ x, ¬ Names x (strip cl)) : capturedOption checked cl = strip cl := by
  simp only [capturedOption, namedOption_eq_nil hline h, ne_eq, not_true_eq_false, if_false]

/-- `y` is a value. -/
theorem isValue_y : IsValue ['y'] := .inl fun c hc => by
  rw [List.mem_singleton.mp hc]
  decide

/-- The line `CONFIG_X=y` names its option. -/
theorem names_setLine (hx : IsWord x) : Names x (setLine x) := ⟨hx, .inl ⟨['y'], isValue_y, rfl⟩⟩

/-- The line `CONFIG_X=y` has no white space around it. -/
theorem trimmed_setLine (hx : IsWord x) : Trimmed (setLine x) := by
  refine trimmed_of_forall fun c hc => ?_
  rcases List.mem_append.mp hc with hc | hc
  · exact not_isSpace_of_lt (Nat.lt_trans (by decide) ((isWord_optionName hx).lt_toNat hc))
  · have hend : "=y".toList.all (fun c => !isSpace c) = true := rfl
    simpa using List.all_eq_true.mp hend c hc

/-- What becomes of a line is the line itself, stripped, or `CONFIG_X=y`. -/
theorem capturedOption_cases (hline : ConfigLine (strip cl)) :
    capturedOption checked cl = strip cl ∨
      ∃ x, IsWord x ∧ optionName x ∈ checked ∧ capturedOption checked cl = setLine x := by
  by_cases h : ∃ x, Names x (strip cl)
  · obtain ⟨x, hx⟩ := h
    rw [capturedOption_of_names hx]
    split
    · rename_i hmem
      exact .inr ⟨x, hx.1, hmem, rfl⟩
    · exact .inl rfl
  · exact .inl (capturedOption_of_not_names hline (not_exists.mp h))

/-- **A line that is written stays** when it is read again. -/
theorem capturedOption_again (hline : ConfigLine (strip cl)) :
    capturedOption checked (capturedOption checked cl ++ ['\n']) = capturedOption checked cl := by
  have hstrip (s : List Char) (hs : Trimmed s) : strip (s ++ ['\n']) = s :=
    (strip_append_singleton (by decide) s).trans hs.strip_eq
  rcases capturedOption_cases hline with hkept | ⟨x, hx, hmem, hset⟩
  · -- the stripped line is stripped again, and the option it names is the same
    rw [hkept]
    simp only [capturedOption, hstrip _ (trimmed_strip cl)] at hkept ⊢
    exact hkept
  · have hagain := hstrip _ (trimmed_setLine hx)
    rw [hset, capturedOption_of_names (hagain.symm ▸ names_setLine hx), if_pos hmem]

/-- No line that is written has a newline of its own. -/
theorem newline_notMem_capturedOptions (hc : WellFormedConfig captured) :
    ∀ l ∈ capturedOptions report captured, '\n' ∉ l := by
  intro l hl
  obtain ⟨cl, hcl, rfl⟩ := List.mem_map.mp hl
  rcases capturedOption_cases (hc cl hcl) with hkept | ⟨x, hx, -, hset⟩
  · rw [hkept]
    exact newline_notMem_strip hcl
  · rw [hset, setLine, List.mem_append, not_or]
    exact ⟨notMem_optionName hx (by decide), by decide⟩

/-- **The lines of the combined configuration** are the captured ones, each turned into its own. -/
theorem lines_combined (hc : WellFormedConfig captured) :
    lines (combined report captured) = (capturedOptions report captured).map (· ++ ['\n']) :=
  lines_flatMap (newline_notMem_capturedOptions hc)

/-- **Merging again** changes nothing. -/
theorem combined_again (hc : WellFormedConfig captured) :
    combined report (combined report captured) = combined report captured := by
  have hsame : capturedOptions report (combined report captured)
      = capturedOptions report captured := by
    rw [capturedOptions, lines_combined hc, List.map_map]
    refine (List.map_congr_left (g := id) fun l hl => ?_).trans (List.map_id _)
    obtain ⟨cl, hcl, rfl⟩ := List.mem_map.mp hl
    rw [Function.comp_apply, capturedOption_again (hc cl hcl), id]
  rw [combined, hsame]
  rfl

/-- What a captured line `cl` is to become: `CONFIG_X=y` for an option whose status in the report
contains `enabled`, and the same line up to the white space around it otherwise. -/
def BecomesLine (report cl out : List Char) : Prop :=
  (∀ x, Names x (strip cl) → Enabled report x → out = setLine x) ∧
    ((∀ x, Names x (strip cl) → ¬ Enabled report x) → strip out = strip cl)

/-- One line for each captured line, each the line that it is to become, and a second merge that
changes nothing. -/
def Merges (report captured : List Char) : Prop :=
  (∃ outs, lines (combined report captured) = outs.map (· ++ ['\n']) ∧
      List.Forall₂ (BecomesLine report) (lines captured) outs) ∧
    combined report (combined report captured) = combined report captured

/-- A line becomes what it is to become unless it names an option that has `enabled` in its name
only. -/
theorem becomesLine_iff (hr : WellFormedReport report) (hline : ConfigLine (strip cl)) :
    BecomesLine report cl (capturedOption (checkedOptions report) cl) ↔
      ∀ x, Names x (strip cl) → enabled <:+: x → Listed report x → ¬ Enabled report x →
        strip cl = setLine x := by
  by_cases h : ∃ x, Names x (strip cl)
  · obtain ⟨x, hx⟩ := h
    have hunique {y : List Char} (hy : Names y (strip cl)) : y = x :=
      optionName_injective (hy.namedOption_eq.symm.trans hx.namedOption_eq)
    have hmem := mem_checkedOptions hr hx.1
    rw [capturedOption_of_names hx]
    by_cases henabled : Enabled report x
    · -- set to `y`, as it is to be
      rw [if_pos (hmem.mpr (.inl henabled))]
      refine iff_of_true ⟨fun y hy _ => hunique hy ▸ rfl, fun hno => absurd henabled (hno x hx)⟩ ?_
      intro y hy _ _ hno
      exact absurd (hunique hy ▸ henabled) hno
    · have hnone : ∀ y, Names y (strip cl) → ¬ Enabled report y := fun y hy => hunique hy ▸ henabled
      by_cases hname : Listed report x ∧ enabled <:+: x
      · -- set to `y` for its name
        rw [if_pos (hmem.mpr (.inr hname))]
        constructor
        · intro hline y hy _ _ _
          obtain rfl := hunique hy
          exact (hline.2 hnone).symm.trans (trimmed_setLine hx.1).strip_eq
        · intro hset
          refine ⟨fun y hy hy' => absurd hy' (hnone y hy), fun _ => ?_⟩
          rw [hset x hx hname.2 hname.1 henabled, (trimmed_setLine hx.1).strip_eq]
      · rw [if_neg fun hin => (hmem.mp hin).elim henabled hname]
        refine iff_of_true ⟨fun y hy hy' => absurd hy' (hnone y hy), fun _ => strip_strip cl⟩ ?_
        intro y hy hin hlisted
        exact absurd (hunique hy ▸ ⟨hlisted, hin⟩) hname
  · have hnone := not_exists.mp h
    rw [capturedOption_of_not_names hline hnone]
    exact iff_of_true ⟨fun x hx => absurd hx (hnone x), fun _ => strip_strip cl⟩
      fun x hx => absurd hx (hnone x)

/-- The merge is right when every line becomes what it is to become. -/
theorem merges_iff_forall (hc : WellFormedConfig captured) :
    Merges report captured ↔
      ∀ cl ∈ lines captured, BecomesLine report cl (capturedOption (checkedOptions report) cl) := by
  have hall : List.Forall₂ (BecomesLine report) (lines captured) (capturedOptions report captured) ↔
      ∀ cl ∈ lines captured, BecomesLine report cl (capturedOption (checkedOptions report) cl) :=
    Iff.trans List.forall₂_map_right_iff List.forall₂_same
  rw [← hall]
  constructor
  · rintro ⟨⟨outs, hlines, hbecome⟩, -⟩
    rw [lines_combined hc] at hlines
    -- the lines that are read are the lines that were written
    have houts : capturedOptions report captured = outs :=
      List.map_injective_iff.mpr (fun _ _ h => List.append_cancel_right h) hlines
    rwa [houts]
  · intro hbecome
    exact ⟨⟨_, lines_combined hc, hbecome⟩, combined_again hc⟩

/-- **The merge is right exactly when** every captured line for an option of the report that has
`enabled` in its name, and in no status of its own, is `CONFIG_X=y` already. -/
theorem merges_iff (hr : WellFormedReport report) (hc : WellFormedConfig captured) :
    Merges report captured ↔
      ∀ cl ∈ lines captured, ∀ x, Names x (strip cl) → enabled <:+: x → Listed report x →
        ¬ Enabled report x → strip cl = setLine x :=
  (merges_iff_forall hc).trans (forall₂_congr fun cl hcl => becomesLine_iff hr (hc cl hcl))

/-- A report with one line. -/
theorem wellFormedReport_of_line {s : List Char} (hx : IsWord x) (hlines : lines report = [l])
    (hl : strip l = reportLine x s) : WellFormedReport report := by
  intro l' hl' _
  rw [hlines, List.mem_singleton] at hl'
  exact ⟨x, s, hx, hl'.symm ▸ hl⟩

/-- A configuration with one line. -/
theorem wellFormedConfig_of_line (hlines : lines captured = [cl]) (hcl : ConfigLine (strip cl)) :
    WellFormedConfig captured := by
  intro cl' hcl'
  rw [hlines, List.mem_singleton] at hcl'
  exact hcl'.symm ▸ hcl

/-- A report that enables one option, and a configuration that does not set it. -/
theorem merges_iff_memcg :
    Merges "- CONFIG_MEMCG: enabled\n".toList "# CONFIG_MEMCG is not set\n".toList ↔
      ∀ cl ∈ lines "# CONFIG_MEMCG is not set\n".toList, ∀ x, Names x (strip cl) →
        enabled <:+: x → Listed "- CONFIG_MEMCG: enabled\n".toList x →
        ¬ Enabled "- CONFIG_MEMCG: enabled\n".toList x → strip cl = setLine x :=
  merges_iff
    (wellFormedReport_of_line (x := "MEMCG".toList) (s := enabled) (isWord_of_all rfl) rfl rfl)
    (wellFormedConfig_of_line rfl (.notSet (x := "MEMCG".toList) (isWord_of_all rfl)))

/-- An option that is missing, with `enabled` in its name, is set to `y`. -/
theorem not_merges : ¬ ∀ report captured : List Char, WellFormedReport report →
    WellFormedConfig captured → Merges report captured := by
  intro h
  obtain ⟨report, hreport⟩ : ∃ r, r = "- CONFIG_enabled: missing\n".toList := ⟨_, rfl⟩
  obtain ⟨captured, hcaptured⟩ : ∃ c, c = "CONFIG_enabled=m\n".toList := ⟨_, rfl⟩
  have hword : IsWord enabled := isWord_of_all rfl
  have hline : lines report = [report] := by rw [hreport]; rfl
  have hcline : lines captured = [captured] := by rw [hcaptured]; rfl
  have hstrip : strip report = reportLine enabled "missing".toList := by rw [hreport]; rfl
  have hcstrip : strip captured = valueLine enabled ['m'] := by rw [hcaptured]; rfl
  have hm : IsValue ['m'] := .inl fun c hc => by
    rw [List.mem_singleton.mp hc]
    decide
  have hconfig : WellFormedConfig captured :=
    wellFormedConfig_of_line hcline (hcstrip ▸ .value hword hm)
  have hmissing : ¬ Enabled report enabled := by
    rintro ⟨l, hl, status, hl', hin⟩
    rw [hline, List.mem_singleton] at hl
    rw [hl, hstrip] at hl'
    -- the status is `missing`
    rw [← List.append_cancel_left hl'] at hin
    exact absurd hin (by decide)
  have hwell := wellFormedReport_of_line hword hline hstrip
  have hmem : captured ∈ lines captured := hcline ▸ List.mem_singleton_self captured
  have hset := (becomesLine_iff hwell (hconfig _ hmem)).mp
    ((merges_iff_forall hconfig).mp (h report captured hwell hconfig) _ hmem) enabled
    ⟨hword, .inl ⟨_, hm, hcstrip⟩⟩ (List.infix_refl _)
    ⟨report, hline ▸ List.mem_singleton_self report, _, hstrip⟩ hmissing
  rw [hcstrip] at hset
  exact absurd hset (by decide)

end Configurator
