import PrototypeKernel.BpfLoad.Scan

/-! # The maps and the marked instructions

`map_data` lists the symbols of the maps section in the order of `qsort`. Every instruction that
`parse_relo_and_apply` marks belongs to a relocation of the object, and its immediate is the
descriptor of the first map at the offset of a symbol named for it. -/

namespace BpfLoad

/-! ## The maps -/

/-- The symbols of the maps section in the order in which the maps are recorded. -/
def sortedMapSymbols (env : Env) (elf : Elf) : List MapSym :=
  match mapsSection elf, symtabSection elf with
  | some (i, _), some (_, symbols) => env.qsort (mapSymbols i symbols)
  | _, _ => []

/-- A map symbol is one of the symbol table, for the maps section. -/
theorem mem_mapSymbols {mapsShndx : ℕ} {symbols : ElfData} {s : MapSym}
    (h : s ∈ mapSymbols mapsShndx symbols) :
    symbols.syms[s.idx]? = some s.sym ∧ s.sym.stShndx = mapsShndx := by
  obtain ⟨i, -, hi⟩ := List.mem_filterMap.mp h
  obtain ⟨sym, hsym, hi⟩ := Option.bind_eq_some_iff.mp hi
  split_ifs at hi with hshndx
  cases hi
  exact ⟨hsym, hshndx⟩

/-- A symbol that is sorted is one of the symbol table, for the maps section. -/
theorem mem_sortedMapSymbols {env : Env} {elf : Elf} {s : MapSym}
    (h : s ∈ sortedMapSymbols env elf) :
    ∃ i data symtab symbols, mapsSection elf = some (i, data) ∧
      symtabSection elf = some (symtab, symbols) ∧ symbols.syms[s.idx]? = some s.sym ∧
      s.sym.stShndx = i := by
  unfold sortedMapSymbols at h
  split at h
  · rename_i i data symtab symbols hmaps hsymtab
    obtain ⟨hsym, hshndx⟩ := mem_mapSymbols ((env.qsort_perm _).mem_iff.mp h)
    exact ⟨i, data, symtab, symbols, hmaps, hsymtab, hsym, hshndx⟩
  · cases h

/-- What `map_data` keeps of a symbol. -/
def MapSym.key (s : MapSym) : ℕ × ℕ := (s.idx, s.sym.stValue)

/-- The symbol that an entry of `map_data` was made for, and its offset. -/
def BpfMapData.key (m : BpfMapData) : ℕ × ℕ := (m.symIdx, m.elfOffset)

/-- `map_data` lists the symbols of the maps section, and no two of its descriptors are equal. -/
structure MapsLoaded (env : Env) (elf : Elf) (maps : List BpfMapData) : Prop where
  keys : maps.map BpfMapData.key = (sortedMapSymbols env elf).map MapSym.key
  fd_inj : ∀ m ∈ maps, ∀ m' ∈ maps, m.fd = m'.fd → m = m'

/-- An entry of `map_data` is made for the symbol that is copied. -/
theorem copyMapDef_eq_ok {dataMaps : ElfData} {mapSzElf : ℤ} {s : MapSym} {m : BpfMapData}
    (h : copyMapDef dataMaps mapSzElf s = .ok m) : m.key = s.key := by
  unfold copyMapDef at h
  dsimp only at h
  split at h
  · cases h
  · split_ifs at h
    cases h
    rfl

/-- A map that is loaded has the descriptor of its creation. -/
theorem loadMap_eq_ok {env : Env} {m m' : BpfMapData} {i : ℕ}
    (h : loadMap env (m, i) = .ok m') :
    0 ≤ env.createMap i ∧ m' = { m with fd := env.createMap i } := by
  unfold loadMap at h
  dsimp only at h
  split_ifs at h with hinner hfd
  cases h
  exact ⟨not_lt.mp hfd, rfl⟩

/-- The maps after `load_maps`, one by one. -/
theorem loadMaps_eq_ok {env : Env} {maps₀ maps : List BpfMapData}
    (h : loadMaps env maps₀ = .ok maps) :
    maps.length = maps₀.length ∧ ∀ i (hi : i < maps.length), ∃ m₀, maps₀[i]? = some m₀ ∧
      0 ≤ env.createMap i ∧ maps[i] = { m₀ with fd := env.createMap i } := by
  have hall := ForLoop.mapM_eq_ok.mp h
  have hlength := hall.length_eq
  rw [List.length_zipIdx] at hlength
  refine ⟨hlength.symm, fun i hi => ?_⟩
  have hi₀ : i < maps₀.length := by omega
  have hpair := hall.get (i := i) (by rw [List.length_zipIdx]; exact hi₀) hi
  simp only [List.get_eq_getElem, List.getElem_zipIdx, Nat.zero_add] at hpair
  exact ⟨maps₀[i], List.getElem?_eq_getElem hi₀, loadMap_eq_ok hpair⟩

/-- **The maps of a load.** -/
theorem mapsLoaded_of_load {env : Env} {elf : Elf} {symtab : ℕ} {symbols : ElfData}
    {s s' : LoadState} (hsymtab : symtabSection elf = some (symtab, symbols))
    (h : Scanned elf elf.indices s) (hload : loadMapsSection env symbols s = .ok s') :
    MapsLoaded env elf s'.mapData := by
  have hsection : s.maps = mapsSection elf := h.maps
  rcases loadMapsSection_eq_ok hload with ⟨hnone, rfl⟩ |
    ⟨i, dataMaps, maps₀, maps, hsome, hread, hmaps, -, rfl⟩
  · rw [hsection] at hnone
    rw [h.mapData]
    exact ⟨by rw [sortedMapSymbols, hnone]; rfl, fun m hm => by cases hm⟩
  · rw [hsection] at hsome
    unfold loadElfMapsSection at hread
    dsimp only at hread
    split_ifs at hread
    have hkeys₀ : maps₀.map BpfMapData.key = (sortedMapSymbols env elf).map MapSym.key := by
      rw [sortedMapSymbols, hsome, hsymtab]
      exact ForLoop.map_eq_of_mapM hread fun _ _ hm => copyMapDef_eq_ok hm
    obtain ⟨hlength, hmaps⟩ := loadMaps_eq_ok hmaps
    refine ⟨?_, fun m hm m' hm' hfd => ?_⟩
    · rw [← hkeys₀]
      refine List.ext_getElem (by simp [hlength]) fun k hk hk₀ => ?_
      rw [List.length_map] at hk hk₀
      obtain ⟨m₀, hm₀, -, hm⟩ := hmaps k hk
      rw [List.getElem?_eq_getElem hk₀] at hm₀
      cases hm₀
      rw [List.getElem_map, List.getElem_map, hm]
      rfl
    · obtain ⟨k, hk, rfl⟩ := List.mem_iff_getElem.mp hm
      obtain ⟨k', hk', rfl⟩ := List.mem_iff_getElem.mp hm'
      obtain ⟨m₀, -, hnonneg, hm₀⟩ := hmaps k hk
      obtain ⟨m₀', -, -, hm₀'⟩ := hmaps k' hk'
      rw [hm₀, hm₀'] at hfd
      have hkk : k = k' := env.createMap_inj k k' hnonneg hfd
      subst hkk
      rfl

/-- The map that a symbol value finds is the one of the first symbol with this value. -/
theorem MapsLoaded.matchMap_key {env : Env} {elf : Elf} {maps : List BpfMapData}
    (h : MapsLoaded env elf maps) (sym : GElfSym) :
    (matchMap maps sym).map BpfMapData.key =
      ((sortedMapSymbols env elf).find? fun s => s.sym.stValue = sym.stValue).map MapSym.key := by
  have hfind := congrArg (List.find? fun key => key.2 = sym.stValue) h.keys
  rwa [List.find?_map, List.find?_map] at hfind

/-! ## The marks -/

/-- The mark `e` belongs to the relocation `rel` of section `sec`, which names `sym`. -/
structure IsSite (elf : Elf) (symbols : ElfData) (maps : List BpfMapData) (e : Applied) (sec : Sec)
    (rel : GElfRel) (sym : GElfSym) : Prop where
  mem : e.sec ∈ elf.indices
  notSetAside : ¬isSetAside elf e.sec
  relo : ∃ target, reloSection elf e.sec = some (sec, target)
  prog : e.prog = sec.shdr.shInfo
  counted : (e.rel : ℤ) < nrels sec.shdr
  rel_eq : sec.data.rels[e.rel]? = some rel
  insnIdx_eq : e.insnIdx = insnIdx rel
  code : (elf.text.insn e.prog e.insnIdx).map BpfInsn.code = some bpfLdImmDw
  sym_eq : symbols.syms[rel.rSym]? = some sym
  found : e.found = matchMap maps sym

/-- Two marks are on the same instruction. -/
def Applied.SamePlace (e e' : Applied) : Prop := e'.prog = e.prog ∧ e'.insnIdx = e.insnIdx

/-- The instructions and the marks fit together: the marks belong to relocations, and a marked
instruction loads the map of one of its marks. -/
structure Marked (elf : Elf) (symbols : ElfData) (maps : List BpfMapData) (s : LoadState) :
    Prop where
  codes : ∀ sec idx, (s.text.insn sec idx).map BpfInsn.code =
    (elf.text.insn sec idx).map BpfInsn.code
  sites : ∀ e ∈ s.applied, ∃ sec rel sym, IsSite elf symbols maps e sec rel sym
  insns : ∀ e ∈ s.applied, ∃ insn, s.text.insn e.prog e.insnIdx = some insn ∧
    insn.srcReg = bpfPseudoMapFd ∧
    (e.found.isSome → ∃ e' ∈ s.applied, e.SamePlace e' ∧ ∃ m, e'.found = some m ∧ insn.imm = m.fd)

/-- A mark keeps the instructions and the marks together. -/
theorem Marked.mark {elf : Elf} {symbols : ElfData} {maps : List BpfMapData} {s : LoadState}
    (h : Marked elf symbols maps s) {e : Applied} {sec : Sec} {rel : GElfRel} {sym : GElfSym}
    (hsite : IsSite elf symbols maps e sec rel sym) {insn : BpfInsn}
    (hinsn : s.text.insn e.prog e.insnIdx = some insn) :
    Marked elf symbols maps (s.mark e (fixup insn e.found)) := by
  have htext : ∀ prog idx, (s.mark e (fixup insn e.found)).text.insn prog idx =
      if e.prog = prog ∧ e.insnIdx = idx then some (fixup insn e.found)
      else s.text.insn prog idx := by
    intro prog idx
    rw [LoadState.mark, Text.insn_store, hinsn]
    rfl
  refine ⟨fun prog idx => ?_, fun e' he' => ?_, fun e' he' => ?_⟩
  · rw [htext, ← h.codes]
    split_ifs with hplace
    · rw [← hplace.1, ← hplace.2, hinsn]
      rfl
    · rfl
  · rcases List.mem_append.mp he' with he' | he'
    · exact h.sites e' he'
    · rw [List.mem_singleton.mp he']
      exact ⟨sec, rel, sym, hsite⟩
  · have hnew : e ∈ s.applied ++ [e] := List.mem_append_right _ (List.mem_singleton_self e)
    rw [htext]
    split_ifs with hplace
    · refine ⟨_, rfl, rfl, fun hfound' => ?_⟩
      cases hfound : e.found with
      | some m => exact ⟨e, hnew, hplace, m, hfound, rfl⟩
      | none =>
        -- the new mark found no map, so the immediate is still that of an older mark
        rcases List.mem_append.mp he' with he' | he'
        · obtain ⟨insn', hinsn', -, himm⟩ := h.insns e' he'
          rw [← hplace.1, ← hplace.2, hinsn] at hinsn'
          cases hinsn'
          obtain ⟨e'', he'', hsame, m, hm, hfd⟩ := himm hfound'
          exact ⟨e'', List.mem_append_left _ he'', hsame, m, hm, hfd⟩
        · rw [List.mem_singleton.mp he', hfound] at hfound'
          cases hfound'
    · rcases List.mem_append.mp he' with he' | he'
      · obtain ⟨insn', hinsn', hsrc, himm⟩ := h.insns e' he'
        refine ⟨insn', hinsn', hsrc, fun hfound' => ?_⟩
        obtain ⟨e'', he'', hsame, m, hm, hfd⟩ := himm hfound'
        exact ⟨e'', List.mem_append_left _ he'', hsame, m, hm, hfd⟩
      · rw [List.mem_singleton.mp he'] at hplace
        exact absurd ⟨rfl, rfl⟩ hplace

/-! ## A relocation section -/

/-- Every relocation of section `i` left its mark. -/
def SectionDone (elf : Elf) (i : ℕ) (s : LoadState) : Prop :=
  ∀ sec target, reloSection elf i = some (sec, target) → ∀ k : ℕ, (k : ℤ) < nrels sec.shdr →
    ∃ e ∈ s.applied, e.sec = i ∧ e.rel = k

/-- A relocation of section `i` is on an instruction that loads no immediate, or names a symbol for
which no map is recorded. -/
def SectionFails (elf : Elf) (symbols : ElfData) (maps : List BpfMapData) (i : ℕ) : Prop :=
  ∃ sec target k rel, reloSection elf i = some (sec, target) ∧ ((k : ℕ) : ℤ) < nrels sec.shdr ∧
    sec.data.rels[k]? = some rel ∧
    ((elf.text.insn sec.shdr.shInfo (insnIdx rel)).map BpfInsn.code ≠ some bpfLdImmDw ∨
      ∃ sym, symbols.syms[rel.rSym]? = some sym ∧ matchMap maps sym = none)

/-- One relocation keeps the instructions and the marks together. It is marked, unless it fails. -/
theorem Marked.reloEntry {elf : Elf} {symbols : ElfData} {maps : List BpfMapData}
    {s s' : LoadState} {i k : ℕ} {sec target : Sec} {r : Option ℤ}
    (h : Marked elf symbols maps s) (hi : i ∈ elf.indices) (haside : ¬isSetAside elf i)
    (hrelo : reloSection elf i = some (sec, target)) (hk : k ∈ List.range (nrels sec.shdr).toNat)
    (hstep : reloEntry symbols maps sec.data i sec.shdr.shInfo s k = .ok (r, s')) :
    Marked elf symbols maps s' ∧ s.applied ⊆ s'.applied ∧
      (r = none ∧ (∃ e ∈ s'.applied, e.sec = i ∧ e.rel = k) ∨
        SectionFails elf symbols maps i) := by
  have hcounted : (k : ℤ) < nrels sec.shdr := by
    have := List.mem_range.mp hk
    omega
  obtain ⟨rel, insn, hrel, hinsn, ⟨hcode, -, rfl⟩ | ⟨hcode, sym, hsym, rfl, hr⟩⟩ :=
    reloEntry_cases hstep
  · refine ⟨h, List.Subset.refl _, .inr ⟨sec, target, k, rel, hrelo, hcounted, hrel, .inl ?_⟩⟩
    rw [← h.codes, hinsn]
    exact fun h => hcode (Option.some.inj h)
  · have hsite : IsSite elf symbols maps
        ⟨i, k, sec.shdr.shInfo, insnIdx rel, matchMap maps sym⟩ sec rel sym :=
      { mem := hi
        notSetAside := haside
        relo := ⟨target, hrelo⟩
        prog := rfl
        counted := hcounted
        rel_eq := hrel
        insnIdx_eq := rfl
        code := by rw [← h.codes, hinsn, Option.map_some, hcode]
        sym_eq := hsym
        found := rfl }
    refine ⟨h.mark hsite hinsn, List.subset_append_left _ _, ?_⟩
    rcases hr with rfl | hnone
    · exact .inl ⟨rfl, _, List.mem_append_right _ (List.mem_singleton_self _), rfl, rfl⟩
    · exact .inr ⟨sec, target, k, rel, hrelo, hcounted, hrel, .inr ⟨sym, hsym, hnone⟩⟩

/-- `parse_relo_and_apply` keeps the instructions and the marks together. It marks every relocation,
unless one of them fails. -/
theorem parseReloAndApply_marked {elf : Elf} {symbols : ElfData} {maps : List BpfMapData}
    {s s' : LoadState} {i : ℕ} {sec target : Sec} {r : ℤ} (hs : Marked elf symbols maps s)
    (hi : i ∈ elf.indices) (haside : ¬isSetAside elf i)
    (hrelo : reloSection elf i = some (sec, target))
    (h : parseReloAndApply symbols maps sec.shdr sec.data i sec.shdr.shInfo s = .ok (r, s')) :
    Marked elf symbols maps s' ∧ s.applied ⊆ s'.applied ∧
      (SectionDone elf i s' ∨ SectionFails elf symbols maps i) := by
  obtain ⟨ret, hloop⟩ := parseReloAndApply_eq_ok h
  have hrun := ForLoop.forReturn_rule
    (P := fun is t => Marked elf symbols maps t ∧ s.applied ⊆ t.applied ∧
      ((∀ k ∈ is, ∃ e ∈ t.applied, e.sec = i ∧ e.rel = k) ∨ SectionFails elf symbols maps i))
    (Q := fun t => Marked elf symbols maps t ∧ s.applied ⊆ t.applied ∧
      SectionFails elf symbols maps i) hloop
    ⟨hs, List.Subset.refl _, .inl fun k hk => by cases hk⟩ ?_ ?_
  · rcases hrun with ⟨-, hmarked, hsub, hall | hfails⟩ | ⟨-, hmarked, hsub, hfails⟩
    · refine ⟨hmarked, hsub, .inl fun sec' target' hrelo' k hk => hall k ?_⟩
      cases hrelo.symm.trans hrelo'
      exact List.mem_range.mpr (by omega)
    · exact ⟨hmarked, hsub, .inr hfails⟩
    · exact ⟨hmarked, hsub, .inr hfails⟩
  · rintro is k t t' hk ⟨ht, hsub, hall⟩ hstep
    obtain ⟨ht', hsub', ⟨-, hdone⟩ | hfails⟩ := ht.reloEntry hi haside hrelo hk hstep
    · refine ⟨ht', List.Subset.trans hsub hsub', hall.imp_left fun hall k' hk' => ?_⟩
      rcases List.mem_append.mp hk' with hk' | hk'
      · obtain ⟨e, he, hek⟩ := hall k' hk'
        exact ⟨e, hsub' he, hek⟩
      · rw [List.mem_singleton.mp hk']
        exact hdone
    · exact ⟨ht', List.Subset.trans hsub hsub', .inr hfails⟩
  · rintro is k t r t' hk ⟨ht, hsub, -⟩ hstep
    obtain ⟨ht', hsub', ⟨hr, -⟩ | hfails⟩ := ht.reloEntry hi haside hrelo hk hstep
    · cases hr
    · exact ⟨ht', List.Subset.trans hsub hsub', hfails⟩

/-! ## All relocation sections -/

/-- **The scan for the relocations** keeps the instructions and the marks together, and marks every
relocation of a section that was not set aside and has no failing relocation. -/
theorem marked_of_scan {elf : Elf} {symbols : ElfData} {s₀ s : LoadState}
    (hprepared : Prepared elf s₀)
    (hs : elf.indices.foldlM (relocateSection elf symbols) s₀ = .ok s) :
    Marked elf symbols s₀.mapData s ∧ ∀ i ∈ elf.indices, ¬isSetAside elf i →
      SectionDone elf i s ∨ SectionFails elf symbols s₀.mapData i := by
  have hrun := ForLoop.foldlM_rule
    (P := fun is t => Relocated elf s₀ is t ∧ Marked elf symbols s₀.mapData t ∧
      ∀ i ∈ is, i ∈ elf.indices → ¬isSetAside elf i →
        SectionDone elf i t ∨ SectionFails elf symbols s₀.mapData i) hs ?_ ?_
  · exact ⟨hrun.2.1, fun i hi => hrun.2.2 i hi hi⟩
  · refine ⟨relocated_nil elf s₀,
      ⟨fun _ _ => by rw [hprepared.text], fun e he => ?_, fun e he => ?_⟩,
      fun i hi => by cases hi⟩ <;> (rw [hprepared.applied] at he; cases he)
  · rintro is i t t' hi ⟨hrelocated, hmarked, hall⟩ hstep
    refine ⟨hrelocated.step hstep, ?_⟩
    rcases relocateSection_eq_ok hstep with ⟨hskip, rfl⟩ | ⟨hflag, sec, target, r, hrelo, -, hparse⟩
    · refine ⟨hmarked, fun j hj hmem haside => ?_⟩
      rcases List.mem_append.mp hj with hj | hj
      · exact hall j hj hmem haside
      · rw [List.mem_singleton.mp hj] at haside hmem ⊢
        rcases hskip with hdone | hnone
        · -- the section was processed by this scan, as it was not set aside before it
          rcases (hrelocated.processed i).mp hdone with hdone | ⟨hvisited, -⟩
          · exact absurd ((hprepared.processed i hmem).mp hdone) haside
          · exact hall i hvisited hmem haside
        · exact .inl fun sec target hsome => by rw [hnone] at hsome; cases hsome
    · have haside : ¬isSetAside elf i := fun h => by
        have hflag' := (hrelocated.processed i).mpr (.inl ((hprepared.processed i hi).mpr h))
        rw [hflag] at hflag'
        cases hflag'
      rw [← hrelocated.mapData] at hmarked hall ⊢
      obtain ⟨hmarked', hsub, hdone⟩ := parseReloAndApply_marked
        (s := { t with processedSec := t.processedSec.set i true })
        ⟨hmarked.codes, hmarked.sites, hmarked.insns⟩ hi haside hrelo hparse
      refine ⟨hmarked', fun j hj hmem haside => ?_⟩
      rcases List.mem_append.mp hj with hj | hj
      · refine (hall j hj hmem haside).imp_left fun hdone sec target hrelo k hk => ?_
        obtain ⟨e, he, hek⟩ := hdone sec target hrelo k hk
        exact ⟨e, hsub he, hek⟩
      · rw [List.mem_singleton.mp hj]
        exact hdone

end BpfLoad
