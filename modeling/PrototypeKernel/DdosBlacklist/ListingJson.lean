import PrototypeKernel.DdosBlacklist.Listing
import PrototypeKernel.Foundation.Json

/-! # The listing as JSON

What the option `--list` prints is meant to be a JSON object. Each function writes the commas it
thinks are due, and so there is one too many behind the addresses when no port follows, and nothing
at all behind a port whose value has neither bit. -/

namespace DdosBlacklist

variable {C : ℕ}

/-! ## The listing -/

/-- The text that is printed. -/
def outputText (ps : List Print) : List Char := ps.flatMap Print.text

/-- The member of an address: a number. -/
def IsIpv4Member (member : List Char × Json.Value) : Prop :=
  ∃ ip n, member = (inetNtop ip, .num n)

/-- The member of a port: an object of numbers for protocols. -/
def IsPortMember (member : List Char × Json.Value) : Prop :=
  ∃ port counters, member = (CText.digits port, .obj counters) ∧
    ∀ counter ∈ counters, ∃ (f : Filter) (n : ℕ), counter = (f.name, .num n)

/-- **The text is one JSON object** with a member for each address and port. -/
def IsListing (text : List Char) : Prop :=
  ∃ members, Json.lex text = some (Json.Value.obj members).tokens ∧
    ∀ member ∈ members, IsIpv4Member member ∨ IsPortMember member

/-- **The listing is well formed.** -/
def ListingWellFormed (host : Host) (m : Maps C) : Prop :=
  ∃ bound, ∀ fuel, bound ≤ fuel → (listAll host m fuel).result = .ok () ∧
    IsListing (outputText (prints (listAll host m fuel)))

/-! ## Tokens -/

/-- The tokens of what is printed. -/
def Print.tokens : Print → List Json.Token
  | .str s => ((Json.run .out s).map Prod.fst).getD []
  | .ipv4 ip count => [.str (inetNtop ip), .colon, .num (CText.digits count.toNat)]
  | .port key => [.str (intText key.toInt32.toInt), .colon]
  | .proto f count => [.str f.name, .colon, .num (CText.digits count.toNat)]

/-- The strings of the listing. -/
def Print.IsPunctuation : Print → Prop
  | .str s => s ∈ ["".toList, ",".toList, "\x7b".toList, "\n \x7d".toList, "\n\x7d\n".toList]
  | _ => True

/-- The texts that are punctuation. -/
theorem Print.str_cases {s : List Char} (h : (Print.str s).IsPunctuation) :
    s = "".toList ∨ s = ",".toList ∨ s = "\x7b".toList ∨ s = "\n \x7d".toList ∨
      s = "\n\x7d\n".toList := by
  simpa [Print.IsPunctuation] using h

/-- A digit needs no escape. -/
theorem isPlain_of_isDigit {c : Char} (h : c.isDigit) : Json.isPlain c := by
  have hbounds := CText.isDigit_bounds h
  have hle : ' ' ≤ c := UInt32.le_iff_toNat_le.mpr (show 32 ≤ c.toNat by omega)
  rw [Json.isPlain, Bool.and_eq_true, Bool.and_eq_true, decide_eq_true_eq, decide_eq_true_eq,
    decide_eq_true_eq]
  refine ⟨⟨?_, ?_⟩, hle⟩
  · rintro rfl
    cases h
  · rintro rfl
    cases h

/-- A number needs no escape. -/
theorem isPlain_digits {n : ℕ} {c : Char} (h : c ∈ CText.digits n) : Json.isPlain c :=
  isPlain_of_isDigit (CText.isDigit_of_mem_digits h)

/-- An address needs no escape. -/
theorem isPlain_inetNtop (ip : UInt32) : ∀ c ∈ inetNtop ip, Json.isPlain c := by
  intro c hc
  simp only [inetNtop, List.mem_append, List.mem_cons] at hc
  rcases hc with h | rfl | h | rfl | h | rfl | h
  · exact isPlain_digits h
  · decide
  · exact isPlain_digits h
  · decide
  · exact isPlain_digits h
  · decide
  · exact isPlain_digits h

/-- A signed number needs no escape. -/
theorem isPlain_intText (n : ℤ) : ∀ c ∈ intText n, Json.isPlain c := by
  intro c hc
  unfold intText at hc
  split at hc
  · rcases List.mem_cons.mp hc with rfl | hc
    · decide
    · exact isPlain_digits hc
  · exact isPlain_digits hc

/-- The name of a filter needs no escape. -/
theorem isPlain_name (f : Filter) : ∀ c ∈ f.name, Json.isPlain c := by
  apply List.all_eq_true.mp
  cases f <;> rfl

/-- A key in quotes and a colon, on a line of its own. -/
theorem run_key {indent : Char} (hindent : indent = ' ' ∨ indent = '\t') {key : List Char}
    (hkey : ∀ c ∈ key, Json.isPlain c) :
    Json.run .out ('\n' :: indent :: '"' :: (key ++ "\" : ".toList)) =
      some ([.str key, .colon], .out) := by
  have hopen : Json.run .out ['\n', indent, '"'] = some ([], .str []) := by
    rcases hindent with rfl | rfl <;> rfl
  have hclose : Json.run (.str key) "\" : ".toList = some ([.str key, .colon], .out) := rfl
  have hstr := Json.run_str hkey []
  exact Json.run_append_of hopen (Json.run_append_of hstr hclose)

/-- A counter is read as one number. -/
theorem run_count (count : UInt64) : Json.run .out (CText.digits count.toNat) =
    some ([], .num (CText.digits count.toNat)) :=
  Json.run_digits (List.ne_nil_of_length_pos (CText.length_digits_pos _))
    fun _ hc => CText.isDigit_of_mem_digits hc

/-- What the scanner makes of a text that is printed, up to the number at its end. -/
theorem run_text {p : Print} (h : p.IsPunctuation) :
    ∃ ts m last, Json.run .out p.text = some (ts, m) ∧ m.pending = some last ∧
      ts ++ last = p.tokens := by
  cases p with
  | str s =>
    rcases Print.str_cases h with rfl | rfl | rfl | rfl | rfl <;> exact ⟨_, _, _, rfl, rfl, rfl⟩
  | ipv4 ip count =>
    have hkey := run_key (.inl rfl) (isPlain_inetNtop ip)
    exact ⟨_, _, _, Json.run_append_of hkey (run_count count), rfl, rfl⟩
  | port key => exact ⟨_, _, _, run_key (.inl rfl) (isPlain_intText _), rfl, rfl⟩
  | proto f count =>
    have hkey := run_key (.inr rfl) (isPlain_name f)
    exact ⟨_, _, _, Json.run_append_of hkey (run_count count), rfl, rfl⟩

/-- A text that is printed is empty or does not go on with a number. -/
theorem text_cases {p : Print} (h : p.IsPunctuation) :
    (p.text = [] ∧ p.tokens = []) ∨ ∃ c cs, p.text = c :: cs ∧ ¬ c.isDigit := by
  cases p with
  | str s =>
    rcases Print.str_cases h with rfl | hs
    · exact .inl ⟨rfl, rfl⟩
    · rcases hs with rfl | rfl | rfl | rfl <;> exact .inr ⟨_, _, rfl, by decide⟩
  | ipv4 | port | proto => exact .inr ⟨_, _, rfl, by decide⟩

/-- What the scanner makes of a text that is printed behind others. -/
theorem run_text_pending {p : Print} (h : p.IsPunctuation) {m : Json.Mode}
    {last : List Json.Token} (hm : m.pending = some last) :
    ∃ ts m' last', Json.run m p.text = some (ts, m') ∧ m'.pending = some last' ∧
      ts ++ last' = last ++ p.tokens := by
  cases m with
  | str s => cases hm
  | out =>
    cases hm
    exact run_text h
  | num ds =>
    cases hm
    rcases text_cases h with ⟨htext, htokens⟩ | ⟨c, cs, htext, hc⟩
    · rw [htext, htokens]
      exact ⟨[], .num ds, _, rfl, rfl, by simp⟩
    · obtain ⟨ts, m', last', hrun, hlast, htokens⟩ := run_text h
      rw [htext] at hrun
      refine ⟨.num ds :: ts, m', last', ?_, hlast, ?_⟩
      · rw [htext, Json.run_num_of_not_isDigit hc, hrun, Option.map_some]
      · rw [List.cons_append, htokens, List.singleton_append]

/-- **The tokens of an output** are those of what is printed, one after the other. -/
theorem lex_outputText {ps : List Print} (h : ∀ p ∈ ps, p.IsPunctuation) :
    Json.lex (outputText ps) = some (ps.flatMap Print.tokens) := by
  have hrun (m : Json.Mode) (last : List Json.Token) (hm : m.pending = some last) :
      ∃ ts m' last', Json.run m (outputText ps) = some (ts, m') ∧ m'.pending = some last' ∧
        ts ++ last' = last ++ ps.flatMap Print.tokens := by
    induction ps generalizing m last with
    | nil => exact ⟨[], m, last, rfl, hm, by simp⟩
    | cons p ps ih =>
      obtain ⟨hp, hps⟩ := List.forall_mem_cons.mp h
      obtain ⟨ts₁, m₁, last₁, hrun₁, hlast₁, htokens₁⟩ := run_text_pending hp hm
      obtain ⟨ts₂, m₂, last₂, hrun₂, hlast₂, htokens₂⟩ := ih hps m₁ last₁ hlast₁
      refine ⟨ts₁ ++ ts₂, m₂, last₂, Json.run_append_of hrun₁ hrun₂, hlast₂, ?_⟩
      rw [List.append_assoc, htokens₂, ← List.append_assoc, htokens₁, List.flatMap_cons,
        List.append_assoc]
  obtain ⟨ts, m, last, hts, hlast, htokens⟩ := hrun .out [] rfl
  rw [Json.lex, hts, Option.bind_some, hlast, Option.map_some, htokens, List.nil_append]

/-! ## The addresses -/

/-- The member that is printed for an address. -/
def ipv4Member (m : Maps C) (ip : UInt32) : List Char × Json.Value :=
  (inetNtop ip, .num (m.addrCount ip).toNat)

/-- A comma if the last key is not zero. -/
theorem tokens_comma (key : UInt32) :
    (Print.str (if key ≠ 0 then "," else "").toList).tokens = if key ≠ 0 then [.comma] else [] := by
  split <;> rfl

/-- **Behind each address there is a comma.** -/
theorem tokens_ipv4Prints (m : Maps C) {ips : List UInt32} (h : ∀ ip ∈ ips, ip ≠ 0)
    (key : UInt32) :
    (ipv4Prints m key ips ++
        [Print.str (if ips.getLast?.getD key ≠ 0 then "," else "").toList]).flatMap Print.tokens =
      (if key ≠ 0 then [.comma] else []) ++ Json.membersComma (ips.map (ipv4Member m)) := by
  induction ips generalizing key with
  | nil =>
    rw [ipv4Prints, List.nil_append, List.getLast?_nil, Option.getD_none, List.flatMap_singleton,
      tokens_comma, List.map_nil, Json.membersComma, List.flatMap_nil, List.append_nil]
  | cons ip ips ih =>
    obtain ⟨hip, hips⟩ := List.forall_mem_cons.mp h
    rw [ipv4Prints, List.getLast?_cons, Option.getD_some, List.cons_append, List.cons_append,
      List.flatMap_cons, List.flatMap_cons, ih hips ip, if_pos hip, tokens_comma]
    simp [Print.tokens, Json.membersComma, ipv4Member, Json.Value.tokens]

/-! ## The ports -/

/-- The counters that are printed for a port. -/
def counters (m : Maps C) (i : Fin portMax) (value : UInt64) : List (List Char × Json.Value) :=
  ([Filter.tcp, .udp].filter fun f => portBit f value).map fun f =>
    (f.name, .num (sumPercpu (m.dropCountByFproto f i)).toNat)

/-- The member that is printed for a port. -/
def portMember (m : Maps C) (i : Fin portMax) (value : UInt64) : List Char × Json.Value :=
  (CText.digits i, .obj (counters m i value))

/-- A port has no counters when no filter lists it. -/
theorem counters_eq_nil_iff {m : Maps C} {i : Fin portMax} {value : UInt64} :
    counters m i value = [] ↔ ¬ ∃ f, portBit f value := by
  rw [counters, List.map_eq_nil_iff, List.filter_eq_nil_iff]
  constructor
  · rintro h ⟨f, hf⟩
    exact h f (by cases f <;> simp) hf
  · exact fun h f _ hf => h ⟨f, hf⟩

/-- The member that is printed of a port is one. -/
theorem isPortMember_portMember (m : Maps C) (i : Fin portMax) (value : UInt64) :
    IsPortMember (portMember m i value) := by
  refine ⟨i, counters m i value, rfl, fun counter hcounter => ?_⟩
  obtain ⟨f, -, rfl⟩ := List.mem_map.mp hcounter
  exact ⟨f, _, rfl⟩

/-- A port is printed as its number. -/
theorem intText_portKey (i : Fin portMax) :
    intText (portKey i).toInt32.toInt = CText.digits i := by
  have hi := i.isLt
  have hmax : portMax = 65536 := rfl
  have hkey : (portKey i).toNat = i := by
    rw [portKey, UInt32.toNat_ofNat', Nat.mod_eq_of_lt (by omega)]
  have hint : (portKey i).toInt32.toInt = (i.val : ℤ) := by
    rw [← hkey]
    exact KernelInt.intOfU32_eq (by omega)
  rw [hint, intText, if_neg (by omega), Int.natAbs_natCast]

/-- What is printed for the protocols is an object, unless there are none. -/
theorem tokens_protoPrints (m : Maps C) (i : Fin portMax) (value : UInt64) :
    (protoPrints m i value false [.tcp, .udp]).flatMap Print.tokens =
      if counters m i value = [] then [] else (Json.Value.obj (counters m i value)).tokens := by
  by_cases htcp : portBit .tcp value <;> by_cases hudp : portBit .udp value <;>
    simp only [protoPrints, counters, htcp, hudp, List.filter, if_true, if_false,
      Bool.false_eq_true] <;> rfl

/-- The tokens of what is printed of a port. -/
theorem tokens_portPrints (m : Maps C) (i : Fin portMax) (value : UInt64) :
    (portPrints m i value).flatMap Print.tokens = .str (CText.digits i) :: .colon ::
      if counters m i value = [] then [] else (portMember m i value).2.tokens := by
  rw [portPrints, List.flatMap_cons, tokens_protoPrints, Print.tokens, intText_portKey]
  rfl

/-- A comma if a port has been printed. -/
theorem tokens_started (started : Bool) : (Print.str (if started then "," else "").toList).tokens =
    if started then [.comma] else [] := by
  cases started <;> rfl

/-- The ports of a list that are printed. -/
def printedPorts (m : Maps C) (cpu : Fin C) (is : List (Fin portMax)) :
    List (List Char × Json.Value) :=
  (is.filter fun i => m.portBlacklist i cpu ≠ 0).map fun i =>
    portMember m i (m.portBlacklist i cpu)

/-- **The ports are members of an object** if each of them has a protocol. -/
theorem tokens_listPrints (m : Maps 1) {is : List (Fin portMax)}
    (h : ∀ i ∈ is, m.portBlacklist i 0 ≠ 0 → ∃ f, portBit f (m.portBlacklist i 0))
    (started : Bool) :
    (listPrints m started is).flatMap Print.tokens =
      if started then Json.commaMembers (printedPorts m 0 is)
      else Json.membersTokens (printedPorts m 0 is) := by
  induction is generalizing started with
  | nil => cases started <;> rfl
  | cons i is ih =>
    obtain ⟨hi, his⟩ := List.forall_mem_cons.mp h
    rw [listPrints]
    by_cases hvalue : m.portBlacklist i 0 ≠ 0
    · have hcounters : counters m i (m.portBlacklist i 0) ≠ [] :=
        fun hnil => counters_eq_nil_iff.mp hnil (hi hvalue)
      have hprinted : printedPorts m 0 (i :: is) =
          portMember m i (m.portBlacklist i 0) :: printedPorts m 0 is := by
        rw [printedPorts, List.filter_cons_of_pos (by simpa using hvalue), List.map_cons,
          printedPorts]
      rw [if_pos hvalue, hprinted, List.flatMap_cons, List.flatMap_append, tokens_portPrints,
        if_neg hcounters, ih his true, if_pos rfl, tokens_started, Json.membersTokens_cons]
      cases started <;> rfl
    · have hprinted : printedPorts m 0 (i :: is) = printedPorts m 0 is := by
        rw [printedPorts, List.filter_cons_of_neg (by simpa using hvalue), printedPorts]
      rw [if_neg hvalue, hprinted]
      exact ih his started

/-- What comes behind a port without a protocol is not a value. -/
theorem listPrints_not_value (m : Maps 1) (is : List (Fin portMax)) :
    ∃ u post, (listPrints m true is).flatMap Print.tokens ++ [.rbrace] = u :: post ∧
      ¬ Json.Token.colon.Before u := by
  induction is with
  | nil => exact ⟨.rbrace, [], rfl, id⟩
  | cons i is ih =>
    rw [listPrints]
    split
    · exact ⟨.comma, _, rfl, id⟩
    · exact ih

/-- A port without a protocol. -/
theorem listPrints_bad_port (m : Maps 1) {is : List (Fin portMax)} {i : Fin portMax} (hi : i ∈ is)
    (hvalue : m.portBlacklist i 0 ≠ 0) (hbit : ¬ ∃ f, portBit f (m.portBlacklist i 0))
    (started : Bool) :
    ∃ pre u post, (listPrints m started is).flatMap Print.tokens ++ [.rbrace] =
      pre ++ .colon :: u :: post ∧ ¬ Json.Token.colon.Before u := by
  induction is generalizing started with
  | nil => cases hi
  | cons j is ih =>
    rw [listPrints]
    by_cases hj : i = j
    · obtain ⟨u, post, hrest, hbad⟩ := listPrints_not_value m is
      refine ⟨(Print.str (if started then "," else "").toList).tokens ++ [.str (CText.digits i)],
        u, post, ?_, hbad⟩
      rw [← hj, if_pos hvalue, List.flatMap_cons, List.flatMap_append, tokens_portPrints,
        if_pos (counters_eq_nil_iff.mpr hbit), List.append_assoc, List.append_assoc, hrest]
      simp
    · have hi' : i ∈ is := (List.mem_cons.mp hi).resolve_left hj
      split
      · obtain ⟨pre, u, post, hrest, hbad⟩ := ih hi' true
        refine ⟨(Print.str (if started then "," else "").toList).tokens ++
          ((portPrints m j (m.portBlacklist j 0)).flatMap Print.tokens ++ pre), u, post, ?_, hbad⟩
        rw [List.flatMap_cons, List.flatMap_append, List.append_assoc, List.append_assoc, hrest]
        simp
      · exact ih hi' started

/-! ## The object -/

/-- The texts between the addresses are punctuation. -/
theorem isPunctuation_ipv4Prints (m : Maps C) (key : UInt32) (ips : List UInt32) :
    ∀ p ∈ ipv4Prints m key ips, p.IsPunctuation := by
  induction ips generalizing key with
  | nil => exact nofun
  | cons ip ips ih =>
    rw [ipv4Prints, List.forall_mem_cons, List.forall_mem_cons]
    exact ⟨by split <;> simp [Print.IsPunctuation], trivial, ih ip⟩

/-- The texts between the protocols are punctuation. -/
theorem isPunctuation_protoPrints (m : Maps C) (i : Fin portMax) (value : UInt64) (started : Bool)
    (fs : List Filter) : ∀ p ∈ protoPrints m i value started fs, p.IsPunctuation := by
  induction fs generalizing started with
  | nil => cases started <;> simp [protoPrints, Print.IsPunctuation]
  | cons f fs ih =>
    rw [protoPrints]
    split
    · rw [List.forall_mem_cons, List.forall_mem_cons]
      exact ⟨by cases started <;> simp [Print.IsPunctuation], trivial, ih true⟩
    · exact ih started

/-- The texts between the ports are punctuation. -/
theorem isPunctuation_listPrints (m : Maps 1) (started : Bool) (is : List (Fin portMax)) :
    ∀ p ∈ listPrints m started is, p.IsPunctuation := by
  induction is generalizing started with
  | nil => exact nofun
  | cons i is ih =>
    rw [listPrints]
    split
    · rw [List.forall_mem_cons, List.forall_mem_append, portPrints, List.forall_mem_cons]
      exact ⟨by cases started <;> simp [Print.IsPunctuation],
        ⟨trivial, isPunctuation_protoPrints m i _ false _⟩, ih true⟩
    · exact ih started

/-- What is printed for `--list` with one CPU. -/
def listingPrints (host : Host) (m : Maps 1) : List Print :=
  .str "\x7b".toList :: ((ipv4Prints m 0 host.visited ++
      [.str (if host.visited.getLast?.getD 0 ≠ 0 then "," else "").toList]) ++
    (listPrints m false (List.finRange portMax).dropLast ++ [.str "\n\x7d\n".toList]))

/-- **What the tool prints for `--list` with one CPU.** -/
theorem outputs_listAll {host : Host} {m : Maps 1} (horder : KernelOrder host m)
    (hopens : ∀ file, host.opens file) {fuel : ℕ} (hipv4 : host.visited.length < fuel)
    (hports : portMax ≤ fuel) : Outputs (listAll host m fuel) (listingPrints host m) () := by
  rw [listAll_of_opens hopens]
  exact (outputs_printf _).bind ((outputs_listAllIpv4 horder hipv4).bind
    ((outputs_listAllPorts host m hports).bind (outputs_printf _)))

/-- The texts of a listing are punctuation. -/
theorem isPunctuation_listingPrints (host : Host) (m : Maps 1) :
    ∀ p ∈ listingPrints host m, p.IsPunctuation := by
  rw [listingPrints, List.forall_mem_cons, List.forall_mem_append, List.forall_mem_append,
    List.forall_mem_append]
  refine ⟨by simp [Print.IsPunctuation], ⟨isPunctuation_ipv4Prints m 0 _, ?_⟩,
    isPunctuation_listPrints m false _, by simp [Print.IsPunctuation]⟩
  split <;> simp [Print.IsPunctuation]

/-- The tokens of the listing: behind each address there is a comma. -/
theorem tokens_listingPrints {host : Host} {m : Maps 1} (h : KernelOrder host m) :
    (listingPrints host m).flatMap Print.tokens =
      .lbrace :: (Json.membersComma (host.visited.map (ipv4Member m)) ++
        ((listPrints m false (List.finRange portMax).dropLast).flatMap Print.tokens ++
          [.rbrace])) := by
  rw [listingPrints, List.flatMap_cons, List.flatMap_append,
    tokens_ipv4Prints m (fun ip hip => h.ne_zero_of_visited hip) 0, if_neg (by simp),
    List.flatMap_append]
  rfl

/-- **When the listing closes**: each port that is printed has a protocol, and behind addresses
there is a port. -/
structure ListingClosed (host : Host) (m : Maps C) (cpu : Fin C) : Prop where
  bits : ∀ i, i ≠ lastPort → m.portBlacklist i cpu ≠ 0 →
    ∃ f, portBit f (m.portBlacklist i cpu)
  port : host.visited = [] ∨ ∃ i, i ≠ lastPort ∧ m.portBlacklist i cpu ≠ 0

/-- No port is printed. -/
theorem listPrints_eq_nil {m : Maps 1} {is : List (Fin portMax)}
    (h : ∀ i ∈ is, m.portBlacklist i 0 = 0) (started : Bool) : listPrints m started is = [] := by
  induction is with
  | nil => rfl
  | cons i is ih =>
    obtain ⟨hi, his⟩ := List.forall_mem_cons.mp h
    rw [listPrints, if_neg (not_not_intro hi)]
    exact ih his

/-- **A closed listing is an object** of the addresses and the ports. -/
theorem tokens_of_listingClosed {host : Host} {m : Maps 1} (h : KernelOrder host m)
    (hclosed : ListingClosed host m 0) :
    (listingPrints host m).flatMap Print.tokens = (Json.Value.obj
      (host.visited.map (ipv4Member m) ++
        printedPorts m 0 (List.finRange portMax).dropLast)).tokens := by
  have hports := tokens_listPrints m
    (fun i hi => hclosed.bits i (mem_dropLast_finRange.mp hi)) false
  rw [if_neg (by decide)] at hports
  rw [tokens_listingPrints h, hports, Json.Value.tokens]
  by_cases hnil : printedPorts m 0 (List.finRange portMax).dropLast = []
  · have hvisited : host.visited = [] := by
      refine hclosed.port.resolve_right ?_
      rintro ⟨i, hi, hvalue⟩
      have hfilter := List.filter_eq_nil_iff.mp (List.map_eq_nil_iff.mp hnil)
      exact hfilter i (mem_dropLast_finRange.mpr hi) (by simpa using hvalue)
    rw [hnil, hvisited]
    rfl
  · rw [Json.membersTokens_append _ hnil, List.append_assoc]

/-- Addresses without a port behind them. -/
theorem tokens_of_no_port {host : Host} {m : Maps 1} (h : KernelOrder host m)
    (hvisited : host.visited ≠ []) (hzero : ∀ i, i ≠ lastPort → m.portBlacklist i 0 = 0) :
    ∃ pre, (listingPrints host m).flatMap Print.tokens = pre ++ [.comma, .rbrace] := by
  have hports : listPrints m false (List.finRange portMax).dropLast = [] :=
    listPrints_eq_nil (fun i hi => hzero i (mem_dropLast_finRange.mp hi)) false
  have hne : host.visited.map (ipv4Member m) ≠ [] := mt List.map_eq_nil_iff.mp hvisited
  obtain ⟨ts, hts⟩ := Json.membersComma_eq_concat hne
  refine ⟨.lbrace :: ts, ?_⟩
  rw [tokens_listingPrints h, hports, hts]
  simp

/-- **A listing that does not close is not an object**: there is a token that cannot stand behind
the one before it. -/
theorem tokens_of_not_listingClosed {host : Host} {m : Maps 1} (h : KernelOrder host m)
    (hclosed : ¬ ListingClosed host m 0) :
    ∃ pre t u post, (listingPrints host m).flatMap Print.tokens = pre ++ t :: u :: post ∧
      ¬ Json.Token.Before t u := by
  by_cases hbits : ∀ i, i ≠ lastPort → m.portBlacklist i 0 ≠ 0 →
      ∃ f, portBit f (m.portBlacklist i 0)
  · have hport : ¬ (host.visited = [] ∨ ∃ i, i ≠ lastPort ∧ m.portBlacklist i 0 ≠ 0) :=
      fun hport => hclosed ⟨hbits, hport⟩
    rw [not_or] at hport
    obtain ⟨pre, htokens⟩ := tokens_of_no_port h hport.1 fun i hi => by
      by_contra hvalue
      exact hport.2 ⟨i, hi, hvalue⟩
    exact ⟨pre, .comma, .rbrace, [], htokens, id⟩
  · simp only [not_forall] at hbits
    obtain ⟨i, hi, hvalue, hbit⟩ := hbits
    obtain ⟨pre, u, post, htokens, hbad⟩ :=
      listPrints_bad_port m (mem_dropLast_finRange.mpr hi) hvalue hbit false
    refine ⟨.lbrace :: (Json.membersComma (host.visited.map (ipv4Member m)) ++ pre), .colon, u,
      post, ?_, hbad⟩
    rw [tokens_listingPrints h, htokens, List.cons_append, List.append_assoc]

/-- What is printed is an object exactly when the listing closes. -/
theorem isListing_iff {host : Host} {m : Maps 1} (h : KernelOrder host m) :
    IsListing (outputText (listingPrints host m)) ↔ ListingClosed host m 0 := by
  have hlex := lex_outputText (isPunctuation_listingPrints host m)
  constructor
  · rintro ⟨members, hmembers, -⟩
    by_contra hclosed
    obtain ⟨pre, t, u, post, htokens, hbad⟩ := tokens_of_not_listingClosed h hclosed
    rw [hlex, htokens, Option.some.injEq] at hmembers
    exact hbad (Json.Value.before_of_tokens hmembers.symm)
  · intro hclosed
    refine ⟨_, by rw [hlex, tokens_of_listingClosed h hclosed], fun member hmember => ?_⟩
    rcases List.mem_append.mp hmember with hmember | hmember
    · obtain ⟨ip, -, rfl⟩ := List.mem_map.mp hmember
      exact .inl ⟨ip, _, rfl⟩
    · obtain ⟨i, -, rfl⟩ := List.mem_map.mp hmember
      exact .inr (isPortMember_portMember m i _)

/-- With one CPU the listing is what is printed then. -/
theorem listingWellFormed_iff_isListing {host : Host} {m : Maps 1} (h : KernelOrder host m)
    (hopens : ∀ file, host.opens file) :
    ListingWellFormed host m ↔ IsListing (outputText (listingPrints host m)) := by
  constructor
  · rintro ⟨bound, hall⟩
    have hlisting := (hall (max bound (max (host.visited.length + 1) portMax)) (by omega)).2
    rwa [(outputs_listAll h hopens (by omega) (by omega)).2] at hlisting
  · intro hlisting
    refine ⟨max (host.visited.length + 1) portMax, fun fuel hfuel => ?_⟩
    have houtputs : Outputs (listAll host m fuel) (listingPrints host m) () :=
      outputs_listAll h hopens (by omega) (by omega)
    exact ⟨houtputs.1, houtputs.2 ▸ hlisting⟩

/-- **The listing is well formed exactly when there is one CPU and the listing closes.** -/
theorem listingWellFormed_iff {host : Host} {m : Maps C} (h : KernelOrder host m)
    (hopens : ∀ file, host.opens file) (cpu : Fin C) :
    ListingWellFormed host m ↔ C = 1 ∧ ListingClosed host m cpu := by
  rcases Nat.lt_or_ge 1 C with hC | hC
  · -- the ports overwrite the stack
    refine iff_of_false ?_ fun hone => by omega
    rintro ⟨bound, hall⟩
    have hresult := (hall (bound + 1) (Nat.le_succ bound)).1
    rw [listAll_of_opens hopens] at hresult
    obtain ⟨_, -, hresult⟩ := Logged.result_bind_eq_ok.mp hresult
    obtain ⟨_, -, hresult⟩ := Logged.result_bind_eq_ok.mp hresult
    obtain ⟨_, hports, -⟩ := Logged.result_bind_eq_ok.mp hresult
    rw [listAllPorts_crash host m hC (Nat.succ_pos bound)] at hports
    cases hports
  · obtain rfl : C = 1 := by
      have := cpu.isLt
      omega
    obtain rfl : cpu = 0 := Subsingleton.elim _ _
    rw [and_iff_right rfl, listingWellFormed_iff_isListing h hopens, isListing_iff h]

/-- Two addresses and a port. -/
def dnsAndTwoAddresses : Maps 1 :=
  { Maps.ofAddresses 1 [0x0100000A, 0x0200000A] with portBlacklist := udpDns.portBlacklist }

/-- The listing of one port and two addresses. -/
theorem listingWellFormed_dnsAndTwoAddresses :
    ListingWellFormed (.sample [0x0100000A, 0x0200000A]) dnsAndTwoAddresses := by
  have horder : KernelOrder (.sample [0x0100000A, 0x0200000A])
      (.ofAddresses 1 [0x0100000A, 0x0200000A]) := kernelOrder_ofAddresses (by decide)
  have hdns : dnsAndTwoAddresses.portBlacklist ⟨53, by decide⟩ 0 = 2 := rfl
  refine (listingWellFormed_iff (m := dnsAndTwoAddresses) ⟨horder.nodup, horder.mem_iff⟩
    (fun _ => rfl) 0).mpr ⟨rfl, fun i _ hvalue => ⟨.udp, ?_⟩,
      .inr ⟨⟨53, by decide⟩, by decide, by rw [hdns]; decide⟩⟩
  have htwo : dnsAndTwoAddresses.portBlacklist i 0 = 2 := by
    by_contra hne
    exact hvalue (if_neg fun hi => hne (if_pos hi))
  rw [htwo]
  decide

/-- **An address without a port behind it**: there is a comma before the closing brace. -/
theorem not_listingWellFormed_oneAddress :
    (listAll (.sample [0x0100000A]) (.ofAddresses 1 [0x0100000A]) portMax).result = .ok () ∧
      outputText (prints (listAll (.sample [0x0100000A]) (.ofAddresses 1 [0x0100000A]) portMax)) =
        "\x7b\n \"10.0.0.1\" : 0,\n\x7d\n".toList ∧
      ¬ ListingWellFormed (.sample [0x0100000A]) (.ofAddresses 1 [0x0100000A]) := by
  have horder : KernelOrder (.sample [0x0100000A]) (.ofAddresses 1 [0x0100000A]) :=
    kernelOrder_ofAddresses (by decide)
  have houtputs : Outputs (listAll (.sample [0x0100000A]) (.ofAddresses 1 [0x0100000A]) portMax)
      (listingPrints (.sample [0x0100000A]) (.ofAddresses 1 [0x0100000A])) () :=
    outputs_listAll horder (fun _ => rfl) (by decide) le_rfl
  refine ⟨houtputs.1, ?_, fun hwell => ?_⟩
  · rw [houtputs.2, listingPrints, listPrints_eq_nil fun _ _ => rfl]
    decide
  · have hclosed := (isListing_iff horder).mp
      ((listingWellFormed_iff_isListing horder fun _ => rfl).mp hwell)
    rcases hclosed.port with hnil | ⟨i, -, hvalue⟩
    · exact absurd hnil (by decide)
    · exact hvalue rfl

end DdosBlacklist
