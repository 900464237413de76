import PrototypeKernel.Foundation.CText
import Mathlib.Data.List.DropRight
import Mathlib.Data.List.Infix

/-! # Text in Python programs

Lines of a file, white space around a text, and the replacement of every occurrence of a text. A
string is the list of its characters. -/

namespace PyText

open CText

variable {old new s t w : List Char} {c : Char} {k : ℕ}

/-- `string.strip(s)`. -/
def strip (s : List Char) : List Char := (s.dropWhile isSpace).rdropWhile isSpace

/-- `s.split(c)[0]`. -/
def firstField (c : Char) (s : List Char) : List Char := s.takeWhile (· ≠ c)

/-- `s.replace(old, new)`, with the first `skip` characters belonging to an occurrence that is
replaced already. -/
def replaceFrom (old new : List Char) : ℕ → List Char → List Char
  | _, [] => []
  | skip + 1, _ :: s => replaceFrom old new skip s
  | 0, c :: s =>
      if old <+: c :: s then new ++ replaceFrom old new (old.length - 1) s
      else c :: replaceFrom old new 0 s

/-- `s.replace(old, new)`, for a text `old` that is not empty. -/
def replace (old new s : List Char) : List Char := replaceFrom old new 0 s

/-- The lines of a file, each with the newline behind it. -/
def lines : List Char → List (List Char)
  | [] => []
  | c :: s =>
      if c = '\n' then [c] :: lines s
      else match lines s with
        | [] => [[c]]
        | l :: ls => (c :: l) :: ls

example : lines "a\n\nb".toList = ["a\n".toList, "\n".toList, "b".toList] := by decide

/-! ## White space -/

/-- There is no white space around `s`. -/
structure Trimmed (s : List Char) : Prop where
  head : ∀ c ∈ s.head?, isSpace c = false
  last : ∀ c ∈ s.getLast?, isSpace c = false

/-- A text without white space around it is not changed by `strip`. -/
theorem Trimmed.strip_eq (h : Trimmed s) : strip s = s := by
  have hdrop : s.dropWhile isSpace = s := by
    cases s with
    | nil => rfl
    | cons c s => exact List.dropWhile_cons_of_neg (by simp [h.head c rfl])
  rw [strip, hdrop, List.rdropWhile_eq_self_iff]
  intro hne
  simp [h.last _ (List.getLast?_eq_some_getLast hne)]

/-- A text without white space has none around it. -/
theorem trimmed_of_forall {s : List Char} (h : ∀ c ∈ s, isSpace c = false) : Trimmed s :=
  ⟨fun c hc => h c (List.mem_of_mem_head? hc), fun c hc => h c (List.mem_of_mem_getLast? hc)⟩

/-- `strip` leaves no white space around a text. -/
theorem trimmed_strip (s : List Char) : Trimmed (strip s) := by
  constructor
  · intro c hc
    -- the first character is one at which the spaces in front of `s` end
    obtain ⟨t, ht⟩ := List.head?_eq_some_iff.mp hc
    obtain ⟨u, hu⟩ : strip s <+: s.dropWhile isSpace := List.rdropWhile_prefix _ _
    have hhead := List.head?_dropWhile_not isSpace s
    rw [← hu, ht, List.cons_append, List.head?_cons] at hhead
    simpa using hhead
  · intro c hc
    have hne : strip s ≠ [] := by
      rintro hnil
      rw [hnil] at hc
      cases hc
    have hlast := List.rdropWhile_last_not isSpace _ hne
    rw [List.getLast?_eq_some_getLast hne, Option.mem_some] at hc
    subst hc
    exact Bool.eq_false_iff.mpr hlast

/-- **Stripping twice** is stripping once. -/
theorem strip_strip (s : List Char) : strip (strip s) = strip s := (trimmed_strip s).strip_eq

/-- White space at the end is stripped. -/
theorem strip_append_singleton (hc : isSpace c) (s : List Char) : strip (s ++ [c]) = strip s := by
  rw [strip, strip, List.dropWhile_append]
  split
  · rename_i hnil
    rw [List.isEmpty_iff.mp hnil, List.dropWhile_cons_of_pos hc]
    rfl
  · exact List.rdropWhile_concat_pos isSpace _ _ hc

/-- `strip` adds no character. -/
theorem strip_subset (s : List Char) : strip s ⊆ s := fun _ hc =>
  (List.dropWhile_suffix _).subset ((List.rdropWhile_prefix _ _).subset hc)

/-! ## Lines -/

/-- A line ends with its newline. -/
theorem lines_append_newline (h : '\n' ∉ s) (t : List Char) :
    lines (s ++ '\n' :: t) = (s ++ ['\n']) :: lines t := by
  induction s with
  | nil => rfl
  | cons c s ih =>
    obtain ⟨hc, hs⟩ := not_or.mp (List.mem_cons.not.mp h)
    rw [List.cons_append, lines, if_neg (Ne.symm hc), ih hs]
    rfl

/-- **Lines that are written are the lines that are read.** -/
theorem lines_flatMap {ls : List (List Char)} (h : ∀ l ∈ ls, '\n' ∉ l) :
    lines (ls.flatMap (· ++ ['\n'])) = ls.map (· ++ ['\n']) := by
  induction ls with
  | nil => rfl
  | cons l ls ih =>
    obtain ⟨hl, hls⟩ := List.forall_mem_cons.mp h
    rw [List.flatMap_cons, List.append_assoc, List.singleton_append, lines_append_newline hl,
      ih hls, List.map_cons]

/-- A line has a newline at most at its end. -/
theorem exists_of_mem_lines {l : List Char} (h : l ∈ lines s) :
    ∃ b, '\n' ∉ b ∧ (l = b ∨ l = b ++ ['\n']) := by
  induction s generalizing l with
  | nil => cases h
  | cons c s ih =>
    rw [lines] at h
    by_cases hc : c = '\n'
    · rw [if_pos hc] at h
      rcases List.mem_cons.mp h with rfl | h
      · exact ⟨[], List.not_mem_nil, .inr (by rw [hc]; rfl)⟩
      · exact ih h
    · rw [if_neg hc] at h
      split at h
      · rw [List.mem_singleton.mp h]
        exact ⟨[c], by simpa using Ne.symm hc, .inl rfl⟩
      · rename_i l' ls hlines
        rw [hlines] at ih
        rcases List.mem_cons.mp h with rfl | h
        · obtain ⟨b, hb, hl'⟩ := ih List.mem_cons_self
          refine ⟨c :: b, List.mem_cons.not.mpr (not_or.mpr ⟨Ne.symm hc, hb⟩), ?_⟩
          rcases hl' with rfl | rfl
          · exact .inl rfl
          · exact .inr rfl
        · exact ih (List.mem_cons_of_mem _ h)

/-- A stripped line has no newline. -/
theorem newline_notMem_strip {l : List Char} (h : l ∈ lines s) : '\n' ∉ strip l := by
  obtain ⟨b, hb, rfl | rfl⟩ := exists_of_mem_lines h
  · exact fun hmem => hb (strip_subset _ hmem)
  · rw [strip_append_singleton (by decide)]
    exact fun hmem => hb (strip_subset _ hmem)

/-! ## Fields and replacement -/

/-- The part before a separator that does not occur in it. -/
theorem firstField_append (h : c ∉ w) (s : List Char) :
    firstField c (w ++ c :: s) = w := by
  have hw : ∀ d ∈ w, decide (d ≠ c) = true := fun d hd => by
    simpa using fun heq : d = c => h (heq ▸ hd)
  rw [firstField, List.takeWhile_append_of_pos hw, List.takeWhile_cons_of_neg (by simp),
    List.append_nil]

/-- Behind the part that is passed over the replacing goes on. -/
theorem replaceFrom_append (h : t.length = k) (s : List Char) :
    replaceFrom old new k (t ++ s) = replace old new s := by
  induction t generalizing k with
  | nil =>
    subst h
    rfl
  | cons c t ih =>
    subst h
    rw [List.length_cons, List.cons_append, replaceFrom, ih rfl]

/-- An occurrence is replaced. -/
theorem replace_append (h : old ≠ []) (s : List Char) :
    replace old new (old ++ s) = new ++ replace old new s := by
  obtain ⟨o, os, rfl⟩ := List.exists_cons_of_ne_nil h
  have hpre : o :: os <+: o :: (os ++ s) := List.prefix_append (o :: os) s
  rw [replace, List.cons_append, replaceFrom, if_pos hpre, replaceFrom_append (by simp)]

/-- A character at which no occurrence begins stays. -/
theorem replace_cons (h : ¬ old <+: c :: s) :
    replace old new (c :: s) = c :: replace old new s := by
  rw [replace, replaceFrom, if_neg h, replace]

/-- Characters with which no occurrence begins stay. -/
theorem replace_append_of_notMem {o : Char} (h : o ∉ w) (s : List Char) :
    replace (o :: old) new (w ++ s) = w ++ replace (o :: old) new s := by
  induction w with
  | nil => rfl
  | cons c w ih =>
    obtain ⟨hc, hw⟩ := not_or.mp (List.mem_cons.not.mp h)
    rw [List.cons_append, replace_cons (fun hpre => hc (List.cons_prefix_cons.mp hpre).1), ih hw,
      List.cons_append]

/-- A text without the first character is not changed. -/
theorem replace_of_notMem {o : Char} (h : o ∉ w) : replace (o :: old) new w = w := by
  have happend : replace (o :: old) new (w ++ []) = w ++ [] := replace_append_of_notMem h []
  rwa [List.append_nil] at happend

/-! ## Occurrences -/

/-- **An occurrence does not reach across a character that it does not have.** -/
theorem infix_append_cons_iff (hc : c ∉ w) (hw : w ≠ []) :
    w <:+: s ++ c :: t ↔ w <:+: s ∨ w <:+: t := by
  have hright : w <:+: c :: t ↔ w <:+: t := by
    rw [List.infix_cons_iff, or_iff_right]
    intro hpre
    rcases List.prefix_cons_iff.mp hpre with hnil | ⟨u, rfl, -⟩
    · exact hw hnil
    · exact hc List.mem_cons_self
  rw [List.infix_append_iff, hright]
  refine ⟨?_, fun h => h.imp_right .inl⟩
  rintro (hs | ht | ⟨u, v, rfl, hu, hv⟩)
  · exact .inl hs
  · exact .inr ht
  · -- the part behind `s` is empty
    rcases List.prefix_cons_iff.mp hv with rfl | ⟨v, rfl, -⟩
    · rw [List.append_nil]
      exact .inl hu.isInfix
    · exact absurd (List.mem_append_right u List.mem_cons_self) hc

end PyText
