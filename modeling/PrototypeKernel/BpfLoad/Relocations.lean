import Mathlib.Tactic.IntervalCases
import PrototypeKernel.BpfLoad.Marking

/-! # The relocations of a load

`load_bpf_file` is to replace every reference to a map by the descriptor of the map. It does when
every relocation refers to a map in a way that the loader understands; a relocation that it does not
understand is patched wrongly or left alone, and the load still returns 0. -/

namespace BpfLoad

/-! ## The relocations of an object -/

/-- Entry `k` of section `i`, which is an `SHT_REL` section for an executable `PROGBITS` section. -/
structure IsRelocation (elf : Elf) (i k : ℕ) (scn : ElfScn) : Prop where
  mem : i ∈ elf.indices
  scn_eq : elf[i]? = some scn
  type : scn.shdr.shType = shtRel
  target : ∃ prog, elf[scn.shdr.shInfo]? = some prog ∧ prog.shdr.shType = shtProgbits ∧
    prog.shdr.shFlags &&& shfExecinstr ≠ 0
  entry : k < scn.shdr.shSize / scn.shdr.shEntsize

/-- What `gelf_getrel` returns for an entry of the section. -/
def ElfScn.rel (scn : ElfScn) (k : ℕ) : Option GElfRel := scn.data.bind fun data => data.rels[k]?

/-- The instruction a relocation refers to. -/
def refInsn (rel : GElfRel) : ℕ := rel.rOffset / sizeofBpfInsn

/-- The symbol a relocation names, in the symbol table that its section links to. -/
def namedSymbol (elf : Elf) (scn : ElfScn) (rel : GElfRel) : Option GElfSym := do
  let symtab ← elf[scn.shdr.shLink]?
  let symbols ← symtab.data
  symbols.syms[rel.rSym]?

/-- The relocation names a symbol that is defined in the maps section. -/
def NamesMap (elf : Elf) (scn : ElfScn) (rel : GElfRel) : Prop :=
  ∃ sym i data, namedSymbol elf scn rel = some sym ∧ mapsSection elf = some (i, data) ∧
    sym.stShndx = i

/-- The map was recorded for the symbol that the relocation names. -/
def IsMapOf (elf : Elf) (scn : ElfScn) (rel : GElfRel) (m : BpfMapData) : Prop :=
  (symtabSection elf).map Prod.fst = some scn.shdr.shLink ∧ m.symIdx = rel.rSym

/-- Relocation `k` of section `i` has been applied: it left its mark on the instruction it refers
to, which loads the map that it names. -/
structure IsApplied (elf : Elf) (s : LoadState) (i k : ℕ) (scn : ElfScn) (rel : GElfRel) :
    Prop where
  mark : ∃ e ∈ s.applied, e.sec = i ∧ e.rel = k ∧ e.prog = scn.shdr.shInfo ∧ e.insnIdx = refInsn rel
  names : NamesMap elf scn rel
  insn : ∃ insn, s.text.insn scn.shdr.shInfo (refInsn rel) = some insn ∧
    insn.srcReg = bpfPseudoMapFd ∧ ∃ m ∈ s.mapData, IsMapOf elf scn rel m ∧ insn.imm = m.fd

/-- Every relocation has been applied, and no instruction is marked for one that names no map. -/
structure RelocationsApplied (elf : Elf) (s : LoadState) : Prop where
  applied : ∀ i k scn, IsRelocation elf i k scn →
    ∃ rel, scn.rel k = some rel ∧ IsApplied elf s i k scn rel
  onlyMaps : ∀ e ∈ s.applied, ∃ scn rel, elf[e.sec]? = some scn ∧ scn.rel e.rel = some rel ∧
    NamesMap elf scn rel

/-! ## When the loader understands a relocation -/

/-- The loader understands the relocation: its section is not the license, version or maps section,
it and its target can be read, the counter `nrels` reaches it and the index `insn_idx` does not
wrap, it is on an instruction that loads an immediate, and of the symbols of the maps section the
one it names is the first with its value. -/
structure IsResolvable (env : Env) (elf : Elf) (i k : ℕ) (scn : ElfScn) (rel : GElfRel) : Prop where
  notSetAside : ¬isSetAside elf i
  read : (getSec elf i).isSome
  readTarget : (getSec elf scn.shdr.shInfo).isSome
  counted : (k : ℤ) < nrels scn.shdr
  offset : refInsn rel < 2 ^ 32
  code : (elf.text.insn scn.shdr.shInfo (refInsn rel)).map BpfInsn.code = some bpfLdImmDw
  linked : (symtabSection elf).map Prod.fst = some scn.shdr.shLink
  first : ∃ sym, namedSymbol elf scn rel = some sym ∧
    (sortedMapSymbols env elf).find? (fun s => s.sym.stValue = sym.stValue) = some ⟨rel.rSym, sym⟩

/-- The loader understands every relocation, and two relocations on one instruction name the same
symbol. -/
structure RelocationsResolvable (env : Env) (elf : Elf) : Prop where
  resolvable : ∀ i k scn, IsRelocation elf i k scn →
    ∃ rel, scn.rel k = some rel ∧ IsResolvable env elf i k scn rel
  consistent : ∀ i k scn rel i' k' scn' rel', IsRelocation elf i k scn →
    IsRelocation elf i' k' scn' → scn.rel k = some rel → scn'.rel k' = some rel' →
    scn.shdr.shInfo = scn'.shdr.shInfo → refInsn rel = refInsn rel' → rel.rSym = rel'.rSym

/-! ## The sections behind a mark -/

/-- A relocation section is one whose `sh_info` names an executable section. -/
theorem reloSection_eq_some {elf : Elf} {i : ℕ} {sec prog : Sec} :
    reloSection elf i = some (sec, prog) ↔ getSec elf i = some sec ∧ sec.shdr.shType = shtRel ∧
      getSec elf sec.shdr.shInfo = some prog ∧ prog.shdr.shType = shtProgbits ∧
      prog.shdr.shFlags &&& shfExecinstr ≠ 0 := by
  unfold reloSection
  constructor
  · intro h
    obtain ⟨sec', hsec, h⟩ := Option.bind_eq_some_iff.mp h
    by_cases htype : sec'.shdr.shType = shtRel
    · rw [if_neg (not_not.mpr htype)] at h
      obtain ⟨prog', hprog, h⟩ := Option.bind_eq_some_iff.mp h
      split_ifs at h with hexec
      cases h
      rw [not_or, not_not] at hexec
      exact ⟨hsec, htype, hprog, hexec⟩
    · rw [if_pos htype] at h
      cases h
  · rintro ⟨hsec, htype, hprog, hbits, hexec⟩
    simp [hsec, htype, hprog, hbits, hexec]

/-- The section behind a mark, and its relocation. -/
theorem IsSite.isRelocation {elf : Elf} {symbols : ElfData} {maps : List BpfMapData} {e : Applied}
    {sec : Sec} {rel : GElfRel} {sym : GElfSym} (h : IsSite elf symbols maps e sec rel sym) :
    ∃ scn, IsRelocation elf e.sec e.rel scn ∧ scn.shdr = sec.shdr ∧ scn.rel e.rel = some rel := by
  obtain ⟨target, hrelo⟩ := h.relo
  obtain ⟨hsec, htype, htarget, hbits, hexec⟩ := reloSection_eq_some.mp hrelo
  refine ⟨_, ⟨h.mem, (getSec_eq_some hsec).1, htype, ⟨_, (getSec_eq_some htarget).1, hbits, hexec⟩,
    ?_⟩, rfl, h.rel_eq⟩
  have hle := KernelInt.intOfSize_le (sec.shdr.shSize / sec.shdr.shEntsize)
  have hcounted := h.counted
  rw [nrels] at hcounted
  exact Int.ofNat_lt.mp (lt_of_lt_of_le hcounted hle)

/-- A relocation whose sections can be read. -/
theorem IsRelocation.reloSection {elf : Elf} {i k : ℕ} {scn : ElfScn}
    (h : IsRelocation elf i k scn) (hread : (getSec elf i).isSome)
    (htarget : (getSec elf scn.shdr.shInfo).isSome) :
    ∃ sec target, reloSection elf i = some (sec, target) ∧ sec.shdr = scn.shdr ∧
      scn.data = some sec.data := by
  obtain ⟨sec, hsec⟩ := Option.isSome_iff_exists.mp hread
  obtain ⟨target, htarget⟩ := Option.isSome_iff_exists.mp htarget
  obtain ⟨prog, hprog, hbits, hexec⟩ := h.target
  have hscn := h.scn_eq
  rw [(getSec_eq_some hsec).1] at hscn
  cases hscn
  rw [(getSec_eq_some htarget).1] at hprog
  cases hprog
  exact ⟨sec, target, reloSection_eq_some.mpr ⟨hsec, h.type, htarget, hbits, hexec⟩, rfl, rfl⟩

/-- The symbol table of the loader, for a section that links to it. -/
theorem namedSymbol_eq {elf : Elf} {symtab : ℕ} {symbols : ElfData} {scn : ElfScn} {rel : GElfRel}
    (hsymtab : symtabSection elf = some (symtab, symbols))
    (hlinked : (symtabSection elf).map Prod.fst = some scn.shdr.shLink) :
    namedSymbol elf scn rel = symbols.syms[rel.rSym]? := by
  rw [hsymtab] at hlinked
  cases hlinked
  obtain ⟨sec, hsec, -, rfl⟩ := exists_of_lastSec hsymtab
  rw [namedSymbol, (getSec_eq_some hsec).1]
  rfl

/-- The symbol behind a map. -/
theorem MapsLoaded.exists_symbol {env : Env} {elf : Elf} {maps : List BpfMapData}
    (h : MapsLoaded env elf maps) {m : BpfMapData} (hm : m ∈ maps) :
    ∃ s ∈ sortedMapSymbols env elf, s.key = m.key := by
  have hkey : m.key ∈ maps.map BpfMapData.key := List.mem_map_of_mem hm
  rw [h.keys] at hkey
  obtain ⟨s, hs, hskey⟩ := List.mem_map.mp hkey
  exact ⟨s, hs, hskey⟩

/-! ## The state of a load that returns 0 -/

/-- Loading a program changes no instruction. -/
theorem loadSection_frame {env : Env} {elf : Elf} {s s' : LoadState} {i : ℕ}
    (h : loadSection env elf s i = .ok s') :
    s'.text = s.text ∧ s'.applied = s.applied ∧ s'.mapData = s.mapData := by
  unfold loadSection at h
  split at h
  · cases h
  · cases h
    exact ⟨rfl, rfl, rfl⟩
  · split at h
    · cases h
      exact ⟨rfl, rfl, rfl⟩
    · split_ifs at h
      · unfold loadAndAttach at h
        split at h
        · cases h
          exact ⟨rfl, rfl, rfl⟩
        · split_ifs at h <;> (cases h; exact ⟨rfl, rfl, rfl⟩)
      · cases h
        exact ⟨rfl, rfl, rfl⟩

/-- **The maps, the instructions and the marks after a load that returns 0.** -/
theorem marked_of_load {env : Env} {elf : Elf} {s : LoadState} (h : loadBpfFile env elf = .ok s) :
    ∃ symtab symbols, symtabSection elf = some (symtab, symbols) ∧ MapsLoaded env elf s.mapData ∧
      Marked elf symbols s.mapData s ∧ ∀ i ∈ elf.indices, ¬isSetAside elf i →
        SectionDone elf i s ∨ SectionFails elf symbols s.mapData i := by
  obtain ⟨symtab, symbols, s₁, s₂, s₃, hsymtab, hscanned, hmaps, hrelo, hload⟩ :=
    loadBpfFile_eq_ok h
  have hloaded := mapsLoaded_of_load hsymtab hscanned hmaps
  have hmapData := (relocated_of_scan hrelo).mapData
  obtain ⟨hmarked, hdone⟩ := marked_of_scan (hscanned.prepared hmaps) hrelo
  have hframe := ForLoop.foldlM_rule
    (P := fun _ t => t.text = s₃.text ∧ t.applied = s₃.applied ∧ t.mapData = s₃.mapData) hload
    ⟨rfl, rfl, rfl⟩ fun _ _ t t' _ ht hstep => by
      obtain ⟨htext, happlied, hmap⟩ := loadSection_frame hstep
      exact ⟨htext.trans ht.1, happlied.trans ht.2.1, hmap.trans ht.2.2⟩
  obtain ⟨htext, happlied, hmap⟩ := hframe
  rw [← hmapData, ← hmap] at hloaded hmarked hdone
  refine ⟨symtab, symbols, hsymtab, hloaded, ⟨?_, ?_, ?_⟩, fun i hi haside => ?_⟩
  · rw [htext]
    exact hmarked.codes
  · rw [happlied]
    exact hmarked.sites
  · rw [htext, happlied]
    exact hmarked.insns
  · refine (hdone i hi haside).imp_left fun hdone => ?_
    unfold SectionDone
    rw [happlied]
    exact hdone

/-! ## Resolvable relocations are applied -/

/-- A resolvable relocation names a symbol of the maps section. -/
theorem IsResolvable.namesMap {env : Env} {elf : Elf} {i k : ℕ} {scn : ElfScn} {rel : GElfRel}
    (h : IsResolvable env elf i k scn rel) : NamesMap elf scn rel := by
  obtain ⟨sym, hnamed, hfirst⟩ := h.first
  obtain ⟨j, data, symtab', symbols', hsection, -, -, hshndx⟩ :=
    mem_sortedMapSymbols (List.mem_of_find?_eq_some hfirst)
  exact ⟨sym, j, data, hnamed, hsection, hshndx⟩

section

variable {env : Env} {elf : Elf} {symtab : ℕ} {symbols : ElfData} {s : LoadState}
  (hsymtab : symtabSection elf = some (symtab, symbols)) (hmaps : MapsLoaded env elf s.mapData)
  (hmarked : Marked elf symbols s.mapData s)

include hsymtab hmaps

/-- A resolvable relocation finds the map of the symbol it names. -/
theorem IsResolvable.matchMap {i k : ℕ} {scn : ElfScn} {rel : GElfRel} {sym : GElfSym}
    (h : IsResolvable env elf i k scn rel) (hsym : symbols.syms[rel.rSym]? = some sym) :
    ∃ m ∈ s.mapData, matchMap s.mapData sym = some m ∧ m.symIdx = rel.rSym := by
  obtain ⟨sym', hnamed, hfirst⟩ := h.first
  rw [namedSymbol_eq hsymtab h.linked, hsym] at hnamed
  cases hnamed
  have hkey := hmaps.matchMap_key sym
  rw [hfirst] at hkey
  obtain ⟨m, hm, hmkey⟩ := Option.map_eq_some_iff.mp hkey
  exact ⟨m, List.mem_of_find?_eq_some hm, hm, congrArg Prod.fst hmkey⟩

/-- A section whose relocations are resolvable has none that fails. -/
theorem RelocationsResolvable.not_sectionFails (h : RelocationsResolvable env elf) {i : ℕ}
    (hi : i ∈ elf.indices) : ¬SectionFails elf symbols s.mapData i := by
  rintro ⟨sec, target, k, rel, hrelo, hcounted, hrel, hfails⟩
  obtain ⟨hsec, htype, htarget, hbits, hexec⟩ := reloSection_eq_some.mp hrelo
  have hentry : k < sec.shdr.shSize / sec.shdr.shEntsize :=
    Int.ofNat_lt.mp (lt_of_lt_of_le hcounted (KernelInt.intOfSize_le _))
  obtain ⟨rel', hrel', hres⟩ := h.resolvable i k _
    ⟨hi, (getSec_eq_some hsec).1, htype, ⟨_, (getSec_eq_some htarget).1, hbits, hexec⟩, hentry⟩
  cases hrel.symm.trans hrel'
  rcases hfails with hcode | ⟨sym, hsym, hnone⟩
  · have hidx : insnIdx rel = refInsn rel := Nat.mod_eq_of_lt hres.offset
    rw [hidx] at hcode
    exact hcode hres.code
  · obtain ⟨m, -, hm, -⟩ := hres.matchMap hsymtab hmaps hsym
    rw [hnone] at hm
    cases hm

/-- What is known of a mark when the relocations are resolvable. -/
theorem RelocationsResolvable.site (h : RelocationsResolvable env elf) {e : Applied} {sec : Sec}
    {rel : GElfRel} {sym : GElfSym} (hsite : IsSite elf symbols s.mapData e sec rel sym) :
    ∃ scn m, IsRelocation elf e.sec e.rel scn ∧ scn.rel e.rel = some rel ∧
      IsResolvable env elf e.sec e.rel scn rel ∧ e.prog = scn.shdr.shInfo ∧
      e.insnIdx = refInsn rel ∧ m ∈ s.mapData ∧ e.found = some m ∧ m.symIdx = rel.rSym := by
  obtain ⟨scn, hscn, hshdr, hrel⟩ := hsite.isRelocation
  obtain ⟨rel', hrel', hres⟩ := h.resolvable _ _ _ hscn
  cases hrel.symm.trans hrel'
  obtain ⟨m, hmem, hm, hidx⟩ := hres.matchMap hsymtab hmaps hsite.sym_eq
  exact ⟨scn, m, hscn, hrel, hres, by rw [hshdr]; exact hsite.prog,
    hsite.insnIdx_eq.trans (Nat.mod_eq_of_lt hres.offset), hmem, hsite.found.trans hm, hidx⟩

include hmarked

/-- The instruction of a mark loads the map that its relocation names. -/
theorem RelocationsResolvable.insn (h : RelocationsResolvable env elf) {e : Applied} {sec : Sec}
    {rel : GElfRel} {sym : GElfSym} (he : e ∈ s.applied)
    (hsite : IsSite elf symbols s.mapData e sec rel sym) :
    ∃ insn, s.text.insn e.prog e.insnIdx = some insn ∧ insn.srcReg = bpfPseudoMapFd ∧
      ∃ m ∈ s.mapData, m.symIdx = rel.rSym ∧ insn.imm = m.fd := by
  obtain ⟨scn, m, hscn, hrel, -, hprog, hidx, -, hfound, -⟩ := h.site hsymtab hmaps hsite
  obtain ⟨insn, hinsn, hsrc, himm⟩ := hmarked.insns e he
  obtain ⟨e', he', hsame, m', hfound', himm⟩ := himm (by rw [hfound]; rfl)
  obtain ⟨sec', rel', sym', hsite'⟩ := hmarked.sites e' he'
  obtain ⟨scn', m'', hscn', hrel', -, hprog', hidx', hmem, hfound'', hname'⟩ :=
    h.site hsymtab hmaps hsite'
  cases hfound'.symm.trans hfound''
  -- the last mark on the instruction may be another one, but it names the same symbol
  have hsym : rel.rSym = rel'.rSym := h.consistent _ _ _ _ _ _ _ _ hscn hscn' hrel hrel'
    (by rw [← hprog, ← hprog', hsame.1]) (by rw [← hidx, ← hidx', hsame.2])
  exact ⟨insn, hinsn, hsrc, m', hmem, hname'.trans hsym.symm, himm⟩

/-- Resolvable relocations are applied. -/
theorem RelocationsResolvable.relocationsApplied (h : RelocationsResolvable env elf)
    (hdone : ∀ i ∈ elf.indices, ¬isSetAside elf i →
      SectionDone elf i s ∨ SectionFails elf symbols s.mapData i) : RelocationsApplied elf s := by
  constructor
  · intro i k scn hscn
    obtain ⟨rel, hrel, hres⟩ := h.resolvable i k scn hscn
    refine ⟨rel, hrel, ?_⟩
    obtain ⟨sec, target, hrelo, hshdr, -⟩ := hscn.reloSection hres.read hres.readTarget
    have hmark : ∃ e ∈ s.applied, e.sec = i ∧ e.rel = k := by
      rcases hdone i hscn.mem hres.notSetAside with hdone | hfails
      · exact hdone sec target hrelo k (by rw [hshdr]; exact hres.counted)
      · exact absurd hfails (h.not_sectionFails hsymtab hmaps hscn.mem)
    obtain ⟨e, he, rfl, rfl⟩ := hmark
    obtain ⟨sec', rel', sym, hsite⟩ := hmarked.sites e he
    obtain ⟨scn', -, hscn', hrel', -, hprog, hidx, -⟩ := h.site hsymtab hmaps hsite
    cases hscn.scn_eq.symm.trans hscn'.scn_eq
    cases hrel.symm.trans hrel'
    obtain ⟨insn, hinsn, hsrc, m, hm, hname, himm⟩ := h.insn hsymtab hmaps hmarked he hsite
    rw [hprog, hidx] at hinsn
    exact
      { mark := ⟨e, he, rfl, rfl, hprog, hidx⟩
        names := hres.namesMap
        insn := ⟨insn, hinsn, hsrc, m, hm, ⟨hres.linked, hname⟩, himm⟩ }
  · intro e he
    obtain ⟨sec, rel, sym, hsite⟩ := hmarked.sites e he
    obtain ⟨scn, -, hscn, hrel, hres, -⟩ := h.site hsymtab hmaps hsite
    exact ⟨scn, rel, hscn.scn_eq, hrel, hres.namesMap⟩

/-! ## Applied relocations are resolvable -/

/-- The instruction of a mark, when its relocation has been applied. -/
theorem RelocationsApplied.insn (h : RelocationsApplied elf s) {e : Applied} {sec : Sec}
    {rel : GElfRel} {sym : GElfSym} (hsite : IsSite elf symbols s.mapData e sec rel sym) :
    e.insnIdx = refInsn rel ∧ ∃ insn, s.text.insn e.prog e.insnIdx = some insn ∧
      ∃ m ∈ s.mapData, m.symIdx = rel.rSym ∧ m.elfOffset = sym.stValue ∧ insn.imm = m.fd := by
  obtain ⟨scn, hscn, hshdr, hrel⟩ := hsite.isRelocation
  obtain ⟨rel', hrel', happlied⟩ := h.applied _ _ _ hscn
  cases hrel.symm.trans hrel'
  obtain ⟨e₁, he₁, hsec₁, hrel₁, -, hidx₁⟩ := happlied.mark
  obtain ⟨insn, hinsn, -, m, hm, ⟨hlinked, hname⟩, himm⟩ := happlied.insn
  -- the mark `e` has the relocation that the mark `e₁` was made for
  have hidx : e.insnIdx = refInsn rel := by
    obtain ⟨sec₂, rel₂, sym₂, hsite₂⟩ := hmarked.sites e₁ he₁
    obtain ⟨scn₂, hscn₂, -, hrel₂⟩ := hsite₂.isRelocation
    have heq := hscn₂.scn_eq
    rw [hsec₁, hscn.scn_eq] at heq
    cases heq
    rw [hrel₁, hrel] at hrel₂
    cases hrel₂
    rw [hsite.insnIdx_eq, ← hsite₂.insnIdx_eq, hidx₁]
  have hprog : e.prog = scn.shdr.shInfo := by rw [hshdr]; exact hsite.prog
  rw [← hprog, ← hidx] at hinsn
  refine ⟨hidx, insn, hinsn, m, hm, hname, ?_, himm⟩
  -- the map was recorded with the value of its symbol
  obtain ⟨sm, hsm, hkey⟩ := hmaps.exists_symbol hm
  obtain ⟨-, -, symtab', symbols', -, hsymtab', hsym', -⟩ := mem_sortedMapSymbols hsm
  cases hsymtab.symm.trans hsymtab'
  have hidx' : sm.idx = rel.rSym := (congrArg Prod.fst hkey).trans hname
  rw [hidx', hsite.sym_eq] at hsym'
  rw [Option.some.inj hsym']
  exact (congrArg Prod.snd hkey).symm

/-- The map found for a mark is the one its relocation names, when the relocations have been
applied. -/
theorem RelocationsApplied.found (h : RelocationsApplied elf s) {e : Applied} (he : e ∈ s.applied)
    {sec : Sec} {rel : GElfRel} {sym : GElfSym}
    (hsite : IsSite elf symbols s.mapData e sec rel sym) :
    ∃ m, matchMap s.mapData sym = some m ∧ m.symIdx = rel.rSym := by
  obtain ⟨-, insn, hinsn, m, hm, hname, hoffset, himm⟩ := h.insn hsymtab hmaps hmarked hsite
  have hfound : e.found.isSome := by
    rw [hsite.found, matchMap, List.find?_isSome]
    exact ⟨m, hm, decide_eq_true hoffset⟩
  obtain ⟨insn', hinsn', -, himm'⟩ := hmarked.insns e he
  cases hinsn.symm.trans hinsn'
  obtain ⟨e', he', hsame, m', hfound', hfd⟩ := himm' hfound
  obtain ⟨sec', rel', sym', hsite'⟩ := hmarked.sites e' he'
  obtain ⟨-, insn'', hinsn'', m'', hm'', hname'', -, himm''⟩ :=
    h.insn hsymtab hmaps hmarked hsite'
  rw [hsame.1, hsame.2, hinsn] at hinsn''
  cases hinsn''
  -- the three maps have the descriptor that the instruction loads
  rw [hsite'.found] at hfound'
  have hm' : m' ∈ s.mapData := List.mem_of_find?_eq_some hfound'
  obtain rfl : m' = m := hmaps.fd_inj m' hm' m hm (hfd.symm.trans himm)
  obtain rfl : m' = m'' := hmaps.fd_inj m' hm' m'' hm'' (hfd.symm.trans himm'')
  have hsym : some sym = some sym' := by
    rw [← hsite.sym_eq, ← hsite'.sym_eq, ← hname, ← hname'']
  rw [Option.some.inj hsym]
  exact ⟨m', hfound', hname⟩

/-- Applied relocations are resolvable. -/
theorem RelocationsApplied.relocationsResolvable (h : RelocationsApplied elf s) :
    RelocationsResolvable env elf := by
  -- the mark of a relocation, with the site it belongs to
  have hmark : ∀ i k scn, IsRelocation elf i k scn → ∃ rel, scn.rel k = some rel ∧
      IsApplied elf s i k scn rel ∧ ∃ e ∈ s.applied, e.sec = i ∧ e.rel = k ∧
        e.prog = scn.shdr.shInfo ∧ ∃ sec sym, IsSite elf symbols s.mapData e sec rel sym ∧
          sec.shdr = scn.shdr := by
    intro i k scn hscn
    obtain ⟨rel, hrel, happlied⟩ := h.applied i k scn hscn
    obtain ⟨e, he, rfl, rfl, hprog, -⟩ := happlied.mark
    obtain ⟨sec, rel', sym, hsite⟩ := hmarked.sites e he
    obtain ⟨scn', hscn', hshdr, hrel'⟩ := hsite.isRelocation
    cases hscn.scn_eq.symm.trans hscn'.scn_eq
    cases hrel.symm.trans hrel'
    exact ⟨rel, hrel, happlied, e, he, rfl, rfl, hprog, sec, sym, hsite, hshdr.symm⟩
  constructor
  · intro i k scn hscn
    obtain ⟨rel, hrel, happlied, e, he, rfl, rfl, hprog, sec, sym, hsite, hshdr⟩ :=
      hmark i k scn hscn
    obtain ⟨hidx, -⟩ := h.insn hsymtab hmaps hmarked hsite
    obtain ⟨m, hfound, hname⟩ := h.found hsymtab hmaps hmarked he hsite
    obtain ⟨target, hrelo⟩ := hsite.relo
    obtain ⟨hsec, -, htarget, -⟩ := reloSection_eq_some.mp hrelo
    obtain ⟨-, -, -, m₁, -, ⟨hlinked, -⟩, -⟩ := happlied.insn
    have hnamed : namedSymbol elf scn rel = some sym :=
      (namedSymbol_eq hsymtab hlinked).trans hsite.sym_eq
    refine ⟨rel, hrel, hsite.notSetAside, by rw [hsec]; rfl, by rw [← hshdr, htarget]; rfl,
      by rw [← hshdr]; exact hsite.counted, ?_, ?_, hlinked, sym, hnamed, ?_⟩
    · rw [← hidx, hsite.insnIdx_eq]
      exact Nat.mod_lt _ (by decide)
    · rw [← hprog, ← hidx]
      exact hsite.code
    · -- the first symbol with this value is the one of the map that was found
      have hkey := hmaps.matchMap_key sym
      rw [hfound] at hkey
      obtain ⟨sm, hsm, hsmkey⟩ := Option.map_eq_some_iff.mp hkey.symm
      obtain ⟨-, -, symtab', symbols', -, hsymtab', hsym', -⟩ :=
        mem_sortedMapSymbols (List.mem_of_find?_eq_some hsm)
      cases hsymtab.symm.trans hsymtab'
      have hidx' : sm.idx = rel.rSym := (congrArg Prod.fst hsmkey).trans hname
      rw [hidx', hsite.sym_eq] at hsym'
      rw [hsm, ← hidx', Option.some.inj hsym']
  · intro i k scn rel i' k' scn' rel' hscn hscn' hrel hrel' hprogs hrefs
    obtain ⟨rel₁, hrel₁, -, e, he, rfl, rfl, hprog, sec, sym, hsite, -⟩ := hmark i k scn hscn
    obtain ⟨rel₂, hrel₂, -, e', he', rfl, rfl, hprog', sec', sym', hsite', -⟩ :=
      hmark i' k' scn' hscn'
    cases hrel.symm.trans hrel₁
    cases hrel'.symm.trans hrel₂
    obtain ⟨hidx, insn, hinsn, m, hm, hname, -, himm⟩ := h.insn hsymtab hmaps hmarked hsite
    obtain ⟨hidx', insn', hinsn', m', hm', hname', -, himm'⟩ := h.insn hsymtab hmaps hmarked hsite'
    rw [hprog', ← hprogs, hidx', ← hrefs, ← hprog, ← hidx, hinsn] at hinsn'
    cases hinsn'
    rw [← hname, ← hname', hmaps.fd_inj m hm m' hm' (himm.symm.trans himm')]

end

/-- **The relocations of a load**: after a load that returns 0, every relocation has been applied,
and no instruction is marked for a symbol outside of the maps section, exactly when the loader
understands every relocation. -/
theorem relocations_applied_iff {env : Env} {elf : Elf} {s : LoadState}
    (h : loadBpfFile env elf = .ok s) :
    RelocationsApplied elf s ↔ RelocationsResolvable env elf := by
  obtain ⟨symtab, symbols, hsymtab, hmaps, hmarked, hdone⟩ := marked_of_load h
  constructor
  · intro happlied
    exact happlied.relocationsResolvable hsymtab hmaps hmarked
  · intro hresolvable
    exact hresolvable.relocationsApplied hsymtab hmaps hmarked hdone

/-! ## An object with a map -/

/-- A section with data. -/
def dataScn (shname : List Char) (shdr : GElfShdr) (data : ElfData) : ElfScn :=
  ⟨some shname, shdr, some data⟩

/-- An object with one map, one variable in `.rodata`, and an xdp program of two 64-bit loads and a
call, with the given relocations. -/
def mapObject (rels : List GElfRel) : Elf :=
  [⟨some [], ⟨0, 0, 0, 0, 0, 0⟩, none⟩,
    dataScn ".symtab".toList ⟨shtSymtab, 0, 72, 0, 0, 24⟩
      ⟨.replicate 72 0, [],
        [⟨some [], 0, 0⟩, ⟨some "map".toList, 2, 0⟩, ⟨some "var".toList, 3, 0⟩], []⟩,
    dataScn "maps".toList ⟨shtProgbits, 3, 24, 0, 0, 0⟩ ⟨.replicate 24 0, [], [], []⟩,
    dataScn ".rodata".toList ⟨shtProgbits, 2, 4, 0, 0, 0⟩ ⟨.replicate 4 0, [], [], []⟩,
    dataScn "xdp".toList ⟨shtProgbits, 6, 40, 0, 0, 0⟩
      ⟨.replicate 40 0, [], [], [⟨bpfLdImmDw, 1, 0, 0, 0⟩, ⟨0, 0, 0, 0, 0⟩,
        ⟨bpfLdImmDw, 2, 0, 0, 0⟩, ⟨0, 0, 0, 0, 0⟩, ⟨0x85, 0, 0, 0, 1⟩]⟩,
    dataScn ".relxdp".toList ⟨shtRel, 0, 16 * rels.length, 1, 4, 16⟩
      ⟨.replicate (16 * rels.length) 0, rels, [], []⟩]

/-- The relocations of the object are those of its last section. -/
theorem isRelocation_mapObject {rels : List GElfRel} {i k : ℕ} {scn : ElfScn}
    (h : IsRelocation (mapObject rels) i k scn) :
    i = 5 ∧ k < rels.length ∧ (mapObject rels)[5]? = some scn := by
  have hscn := h.scn_eq
  have htype := h.type
  have hi : i < 6 := (Elf.mem_indices.mp h.mem).2
  have hi' : i = 5 := by
    interval_cases i <;> cases hscn <;> first | rfl | exact absurd htype (by decide)
  subst hi'
  refine ⟨rfl, ?_, hscn⟩
  have hentry := h.entry
  cases hscn
  exact lt_of_lt_of_eq hentry (Nat.mul_div_cancel_left _ (by decide))

/-- An object with one relocation, for a map. -/
theorem relocations_applied_iff_mapObject :
    ∃ s, loadBpfFile (.sample fun i => i) (mapObject [⟨0, 1⟩]) = .ok s ∧
      RelocationsApplied (mapObject [⟨0, 1⟩]) s := by
  obtain ⟨s, hs, -⟩ := exists_ok_of_any (p := fun _ => true)
    (x := loadBpfFile (.sample fun i => i) (mapObject [⟨0, 1⟩])) (by decide +kernel)
  refine ⟨s, hs, (relocations_applied_iff hs).mpr ⟨fun i k scn h => ?_, ?_⟩⟩
  · obtain ⟨rfl, hk, hscn⟩ := isRelocation_mapObject h
    obtain rfl : k = 0 := Nat.lt_one_iff.mp hk
    cases hscn
    have haside : ¬isSetAside (mapObject [⟨0, 1⟩]) 5 := by
      rintro (hinfo | ⟨data, hmaps⟩)
      · exact absurd hinfo (by decide)
      · have hidx : (mapsSection (mapObject [⟨0, 1⟩])).map Prod.fst = some 5 := by rw [hmaps]; rfl
        exact absurd hidx (by decide)
    exact ⟨⟨0, 1⟩, rfl, haside, by decide, by decide, by decide, by decide, by decide, by decide,
      ⟨some "map".toList, 2, 0⟩, by decide, by decide⟩
  · rintro i k scn rel i' k' scn' rel' h h' hrel hrel' - -
    obtain ⟨-, hk, hscn⟩ := isRelocation_mapObject h
    obtain ⟨-, hk', hscn'⟩ := isRelocation_mapObject h'
    obtain rfl : k = 0 := Nat.lt_one_iff.mp hk
    obtain rfl : k' = 0 := Nat.lt_one_iff.mp hk'
    cases hscn.symm.trans hscn'
    cases hrel.symm.trans hrel'
    rfl

/-- A relocation for the variable in `.rodata` is given the descriptor of the map, which has the
same value. The one on the call is refused and ends the scan of its section, so the relocation for
the map behind it is not applied. The load returns 0. -/
theorem relocations_misapplied_mapObject :
    ∃ s, loadBpfFile (.sample fun i => i) (mapObject [⟨0, 2⟩, ⟨32, 1⟩, ⟨16, 1⟩]) = .ok s ∧
      s.text.insn 4 0 = some ⟨bpfLdImmDw, 1, bpfPseudoMapFd, 0, 3⟩ ∧
      s.text.insn 4 2 = some ⟨bpfLdImmDw, 2, 0, 0, 0⟩ ∧
      ¬RelocationsApplied (mapObject [⟨0, 2⟩, ⟨32, 1⟩, ⟨16, 1⟩]) s := by
  obtain ⟨s, hs, hp⟩ := exists_ok_of_any
    (p := fun s => s.text.insn 4 0 = some ⟨bpfLdImmDw, 1, bpfPseudoMapFd, 0, 3⟩ &&
      s.text.insn 4 2 = some ⟨bpfLdImmDw, 2, 0, 0, 0⟩ && s.applied.all (·.rel ≠ 2))
    (x := loadBpfFile (.sample fun i => i) (mapObject [⟨0, 2⟩, ⟨32, 1⟩, ⟨16, 1⟩]))
    (by decide +kernel)
  rw [Bool.and_eq_true, Bool.and_eq_true, decide_eq_true_eq, decide_eq_true_eq] at hp
  refine ⟨s, hs, hp.1.1, hp.1.2, fun h => ?_⟩
  obtain ⟨rel, -, happlied⟩ :=
    h.applied 5 2 _ ⟨by decide, rfl, rfl, ⟨_, rfl, rfl, by decide⟩, by decide⟩
  obtain ⟨e, he, -, hrel, -⟩ := happlied.mark
  exact of_decide_eq_true (List.all_eq_true.mp hp.2 e he) hrel

end BpfLoad
