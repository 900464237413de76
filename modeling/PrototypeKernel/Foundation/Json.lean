import PrototypeKernel.Foundation.CText
import Mathlib.Data.List.Chain

/-! # JSON objects as text

The part of JSON that has objects, strings without escapes and natural numbers. A text is split into
tokens by a scanner that runs over its characters, so what it makes of two texts one after the other
follows from what it makes of each. A value is written as its tokens, among which white space is
free. Only certain tokens stand next to each other in a value, which tells a text that is none. -/

namespace Json

/-! ## Tokens -/

/-- The tokens of a text. -/
inductive Token where
  | lbrace
  | rbrace
  | colon
  | comma
  | str (s : List Char)
  | num (ds : List Char)
  deriving DecidableEq, Repr

/-- Where the scanner is: between tokens, in a string or in a number. -/
inductive Mode where
  | out
  | str (s : List Char)
  | num (ds : List Char)
  deriving DecidableEq, Repr

/-- A character between tokens. -/
def outStep (c : Char) : Option (List Token × Mode) :=
  if c = ' ' ∨ c = '\n' ∨ c = '\r' ∨ c = '\t' then some ([], .out)
  else if c = '\x7b' then some ([.lbrace], .out)
  else if c = '\x7d' then some ([.rbrace], .out)
  else if c = ':' then some ([.colon], .out)
  else if c = ',' then some ([.comma], .out)
  else if c = '"' then some ([], .str [])
  else if c.isDigit then some ([], .num [c])
  else none

/-- A character that stands for itself in a string. -/
def isPlain (c : Char) : Bool := c ≠ '"' && c ≠ '\\' && ' ' ≤ c

/-- One character: the tokens that are complete, and where the scanner is then. -/
def Mode.step : Mode → Char → Option (List Token × Mode)
  | .out, c => outStep c
  | .str s, c =>
      if c = '"' then some ([.str s], .out)
      else if isPlain c then some ([], .str (s ++ [c]))
      else none
  | .num ds, c =>
      if c.isDigit then some ([], .num (ds ++ [c]))
      else (outStep c).map fun r => (.num ds :: r.1, r.2)

/-- The scanner on a text. -/
def run : Mode → List Char → Option (List Token × Mode)
  | m, [] => some ([], m)
  | m, c :: cs => (m.step c).bind fun r => (run r.2 cs).map fun r' => (r.1 ++ r'.1, r'.2)

/-- The number that is complete at the end. -/
def Mode.pending : Mode → Option (List Token)
  | .out => some []
  | .str _ => none
  | .num ds => some [.num ds]

/-- The tokens of a text. -/
def lex (s : List Char) : Option (List Token) :=
  (run .out s).bind fun r => r.2.pending.map fun ts => r.1 ++ ts

/-- A text in two parts is read one part after the other. -/
theorem run_append (m : Mode) (s t : List Char) :
    run m (s ++ t) = (run m s).bind fun r => (run r.2 t).map fun r' => (r.1 ++ r'.1, r'.2) := by
  induction s generalizing m with
  | nil => simp [run]
  | cons c s ih =>
    rw [List.cons_append, run, run]
    cases m.step c with
    | none => rfl
    | some r =>
      simp only [Option.bind_some, ih]
      cases run r.2 s with
      | none => rfl
      | some r' =>
        simp only [Option.bind_some, Option.map_some]
        cases run r'.2 t <;> simp

/-- **One text after the other.** -/
theorem run_append_of {m m' m'' : Mode} {s t : List Char} {ts ts' : List Token}
    (hs : run m s = some (ts, m')) (ht : run m' t = some (ts', m'')) :
    run m (s ++ t) = some (ts ++ ts', m'') := by
  rw [run_append, hs, Option.bind_some, ht, Option.map_some]

/-- In a string. -/
theorem run_str {s : List Char} (hs : ∀ c ∈ s, isPlain c) (acc : List Char) :
    run (.str acc) s = some ([], .str (acc ++ s)) := by
  induction s generalizing acc with
  | nil => rw [run, List.append_nil]
  | cons c s ih =>
    obtain ⟨hc, hrest⟩ := List.forall_mem_cons.mp hs
    have hquote : c ≠ '"' := by
      rintro rfl
      cases hc
    rw [run, Mode.step, if_neg hquote, if_pos hc, Option.bind_some, ih hrest]
    simp

/-- In a number. -/
theorem run_num {ds : List Char} (hds : ∀ c ∈ ds, c.isDigit) (acc : List Char) :
    run (.num acc) ds = some ([], .num (acc ++ ds)) := by
  induction ds generalizing acc with
  | nil => rw [run, List.append_nil]
  | cons c ds ih =>
    obtain ⟨hc, hrest⟩ := List.forall_mem_cons.mp hds
    rw [run, Mode.step, if_pos hc, Option.bind_some, ih hrest]
    simp

/-- A digit outside a token starts a number. -/
theorem outStep_of_isDigit {c : Char} (hc : c.isDigit) : outStep c = some ([], .num [c]) := by
  have hbounds := CText.isDigit_bounds hc
  have hne {d : Char} (hd : ¬ d.isDigit) : c ≠ d := fun heq => hd (heq ▸ hc)
  rw [outStep, if_neg, if_neg (hne (by decide)), if_neg (hne (by decide)), if_neg (hne (by decide)),
    if_neg (hne (by decide)), if_neg (hne (by decide)), if_pos hc]
  rintro (h | h | h | h)
  · exact hne (by decide) h
  · exact hne (by decide) h
  · exact hne (by decide) h
  · exact hne (by decide) h

/-- Digits are read as one number. -/
theorem run_digits {ds : List Char} (hne : ds ≠ []) (hds : ∀ c ∈ ds, c.isDigit) :
    run .out ds = some ([], .num ds) := by
  cases ds with
  | nil => exact absurd rfl hne
  | cons c ds =>
    obtain ⟨hc, hrest⟩ := List.forall_mem_cons.mp hds
    rw [run, Mode.step, outStep_of_isDigit hc, Option.bind_some, run_num hrest]
    rfl

/-- Behind a number another character begins as between tokens. -/
theorem run_num_of_not_isDigit {c : Char} (hc : ¬ c.isDigit) (s ds : List Char) :
    run (.num ds) (c :: s) = (run .out (c :: s)).map fun r => (.num ds :: r.1, r.2) := by
  rw [run, run]
  dsimp only [Mode.step]
  rw [if_neg hc]
  cases outStep c with
  | none => rfl
  | some r =>
    simp only [Option.map_some, Option.bind_some]
    cases run r.2 s <;> rfl

/-! ## Values -/

/-- A number, or an object with the list of its members. -/
inductive Value where
  | num (n : ℕ)
  | obj (members : List (List Char × Value))

mutual

/-- The tokens of a value. -/
def Value.tokens : Value → List Token
  | .num n => [.num (CText.digits n)]
  | .obj members => .lbrace :: (membersTokens members ++ [.rbrace])

/-- The members of an object, with commas between them. -/
def membersTokens : List (List Char × Value) → List Token
  | [] => []
  | [(key, v)] => .str key :: .colon :: v.tokens
  | (key, v) :: members => .str key :: .colon :: (v.tokens ++ .comma :: membersTokens members)

end

/-- The tokens that may stand next to each other. -/
def Token.Before : Token → Token → Prop
  | .lbrace, .str _ | .lbrace, .rbrace | .str _, .colon | .colon, .num _ | .colon, .lbrace
  | .num _, .comma | .num _, .rbrace | .rbrace, .comma | .rbrace, .rbrace | .comma, .str _ => True
  | _, _ => False

/-- What may stand behind a comma may stand behind an opening brace. -/
theorem Token.Before.of_comma {t : Token} (h : Token.comma.Before t) : Token.lbrace.Before t := by
  cases t <;> trivial

/-- What a comma may follow, a closing brace may follow. -/
theorem Token.Before.rbrace {t : Token} (h : t.Before .comma) : t.Before .rbrace := by
  cases t <;> trivial

/-- Where the members of an object stand between commas, they may stand between braces. -/
theorem isChain_braces {ts : List Token} (h : (.comma :: (ts ++ [.comma])).IsChain Token.Before) :
    (.lbrace :: (ts ++ [.rbrace])).IsChain Token.Before := by
  have hlbrace : (.lbrace :: (ts ++ [.comma])).IsChain Token.Before :=
    h.imp_head fun hbefore => hbefore.of_comma
  rw [← List.cons_append, List.isChain_append] at hlbrace ⊢
  obtain ⟨hts, -, hend⟩ := hlbrace
  refine ⟨hts, List.isChain_singleton _, ?_⟩
  rintro t ht u ⟨⟩
  exact (hend t ht .comma rfl).rbrace

mutual

/-- **Neighbours in a value** may stand next to each other, behind a colon and before a comma. -/
theorem Value.isChain_tokens : ∀ v : Value,
    (.colon :: (v.tokens ++ [.comma])).IsChain Token.Before
  | .num n => by
    rw [Value.tokens]
    simp [Token.Before]
  | .obj members => by
    have hbraces : (.lbrace :: (membersTokens members ++ [.rbrace])).IsChain Token.Before := by
      by_cases hnil : members = []
      · rw [hnil, membersTokens]
        exact .cons_cons trivial (List.isChain_singleton _)
      · exact isChain_braces (isChain_membersTokens members hnil)
    rw [Value.tokens, List.cons_append, List.append_assoc]
    refine .cons_cons trivial ?_
    rw [List.singleton_append, List.isChain_cons_append_cons_cons]
    exact ⟨hbraces, trivial, List.isChain_singleton _⟩

/-- The tokens of some members may follow each other, and a comma may follow them. -/
theorem isChain_membersTokens : ∀ members : List (List Char × Value), members ≠ [] →
    (.comma :: (membersTokens members ++ [.comma])).IsChain Token.Before
  | [], h => absurd rfl h
  | [(key, v)], _ => by
    have hv := v.isChain_tokens
    rw [membersTokens]
    exact .cons_cons trivial (.cons_cons trivial hv)
  | (key, v) :: member :: members, _ => by
    have hv := v.isChain_tokens
    have hrest := isChain_membersTokens (member :: members) (List.cons_ne_nil _ _)
    rw [membersTokens, List.cons_append, List.cons_append, List.append_assoc, List.cons_append]
    · exact .cons_cons trivial (.cons_cons trivial (List.isChain_cons_split.mpr ⟨hv, hrest⟩))
    · exact List.cons_ne_nil _ _

end

/-- Neighbours in a value may stand next to each other. -/
theorem Value.before_of_tokens {v : Value} {pre post : List Token} {t u : Token}
    (h : v.tokens = pre ++ t :: u :: post) : t.Before u := by
  have hchain := v.isChain_tokens
  rw [h, List.append_assoc, List.cons_append, List.cons_append,
    List.isChain_cons_append_cons_cons] at hchain
  exact hchain.2.1

/-- Members with a comma behind each of them. -/
def membersComma (members : List (List Char × Value)) : List Token :=
  members.flatMap fun member => .str member.1 :: .colon :: (member.2.tokens ++ [.comma])

/-- Members with a comma before each of them. -/
def commaMembers (members : List (List Char × Value)) : List Token :=
  members.flatMap fun member => .comma :: .str member.1 :: .colon :: member.2.tokens

/-- The first of the members, each with a comma behind it. -/
theorem membersComma_cons (member : List Char × Value) (members : List (List Char × Value)) :
    membersComma (member :: members) =
      .str member.1 :: .colon :: (member.2.tokens ++ .comma :: membersComma members) := by
  simp [membersComma]

/-- Members that each have a comma behind them end with a comma. -/
theorem membersComma_eq_concat {members : List (List Char × Value)} (hne : members ≠ []) :
    ∃ ts, membersComma members = ts ++ [.comma] := by
  obtain ⟨init, member, rfl⟩ := (List.eq_nil_or_concat members).resolve_left hne
  refine ⟨membersComma init ++ .str member.1 :: .colon :: member.2.tokens, ?_⟩
  simp [membersComma]

/-- The members of two lists, one after the other. -/
theorem membersTokens_append (members : List (List Char × Value))
    {members' : List (List Char × Value)} (hne : members' ≠ []) :
    membersTokens (members ++ members') = membersComma members ++ membersTokens members' := by
  induction members with
  | nil => rfl
  | cons member members ih =>
    obtain ⟨key, v⟩ := member
    obtain ⟨next, rest, hrest⟩ := List.exists_cons_of_ne_nil
      (List.append_ne_nil_of_right_ne_nil members hne)
    rw [List.cons_append, hrest, membersTokens, ← hrest, ih, membersComma_cons]
    · simp
    · exact List.cons_ne_nil _ _

/-- The members of a list, the first one without a comma before it. -/
theorem membersTokens_cons (member : List Char × Value) (members : List (List Char × Value)) :
    membersTokens (member :: members) =
      .str member.1 :: .colon :: (member.2.tokens ++ commaMembers members) := by
  induction members generalizing member with
  | nil => simp [membersTokens, commaMembers]
  | cons next members ih =>
    rw [membersTokens, ih]
    · rfl
    · exact List.cons_ne_nil _ _

end Json
