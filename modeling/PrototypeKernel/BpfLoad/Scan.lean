import PrototypeKernel.BpfLoad.Loader

/-! # What the scans leave

The specification of every step of `do_load_bpf_file`, in terms of the object alone: which sections
are set aside, which one holds the maps and which one the symbols. -/

namespace BpfLoad

/-! ## Sections with a meaning of their own -/

/-- The license and version sections. -/
def isInfoName (shname : List Char) : Bool :=
  shname = "license".toList || shname = "version".toList

/-- The maps section. -/
def isMapsName (shname : List Char) : Bool := shname = "maps".toList

/-- The section that the first scan takes for the symbols. -/
def isSymtabSec (sec : Sec) : Bool :=
  !isInfoName sec.shname && !isMapsName sec.shname && sec.shdr.shType = shtSymtab

/-- The license and version sections are set aside by the first scan. -/
def isInfoSec (elf : Elf) (i : ℕ) : Bool := (getSec elf i).any fun sec => isInfoName sec.shname

/-- The last of the sections `is` with the property, and its data. -/
def lastSec (elf : Elf) (p : Sec → Bool) (is : List ℕ) : Option (ℕ × ElfData) :=
  (is.filterMap fun i => ((getSec elf i).filter p).map fun sec => (i, sec.data)).getLast?

/-- The maps section of the object. -/
def mapsSection (elf : Elf) : Option (ℕ × ElfData) :=
  lastSec elf (fun sec => isMapsName sec.shname) elf.indices

/-- The symbol table of the object. -/
def symtabSection (elf : Elf) : Option (ℕ × ElfData) := lastSec elf isSymtabSec elf.indices

/-- The sections that the scan for the relocations passes over. -/
def isSetAside (elf : Elf) (i : ℕ) : Prop :=
  isInfoSec elf i ∨ ∃ data, mapsSection elf = some (i, data)

/-- A name that is searched for literally is not the name of a program. -/
theorem isProgName_eq_false {shname : List Char} (h : isInfoName shname ∨ isMapsName shname) :
    isProgName shname = false := by
  simp only [isInfoName, isMapsName, Bool.or_eq_true, decide_eq_true_eq] at h
  rcases h with (rfl | rfl) | rfl <;> decide

/-- Looking at one more section. -/
theorem lastSec_append (elf : Elf) (p : Sec → Bool) (is : List ℕ) (i : ℕ) :
    lastSec elf p (is ++ [i]) =
      (((getSec elf i).filter p).map fun sec => (i, sec.data)).or (lastSec elf p is) := by
  rw [lastSec, List.filterMap_append, List.getLast?_append, lastSec]
  cases h : (getSec elf i).filter p <;> simp [h]

/-- A section that `get_sec` refuses is not the last of a kind. -/
theorem lastSec_append_of_none {elf : Elf} {i : ℕ} (h : getSec elf i = none) (p : Sec → Bool)
    (is : List ℕ) : lastSec elf p (is ++ [i]) = lastSec elf p is := by
  rw [lastSec_append, h]
  rfl

/-- A section of another kind is not the last of a kind. -/
theorem lastSec_append_of_false {elf : Elf} {i : ℕ} {sec : Sec} (h : getSec elf i = some sec)
    {p : Sec → Bool} (hp : p sec = false) (is : List ℕ) :
    lastSec elf p (is ++ [i]) = lastSec elf p is := by
  rw [lastSec_append, h, Option.filter_some, hp]
  rfl

/-- A section of the kind is the last one so far. -/
theorem lastSec_append_of_true {elf : Elf} {i : ℕ} {sec : Sec} (h : getSec elf i = some sec)
    {p : Sec → Bool} (hp : p sec) (is : List ℕ) :
    lastSec elf p (is ++ [i]) = some (i, sec.data) := by
  rw [lastSec_append, h, Option.filter_some, hp]
  rfl

/-- The last section of a kind is a section of the kind. -/
theorem exists_of_lastSec {elf : Elf} {p : Sec → Bool} {is : List ℕ} {i : ℕ} {data : ElfData}
    (h : lastSec elf p is = some (i, data)) :
    ∃ sec, getSec elf i = some sec ∧ p sec ∧ sec.data = data := by
  obtain ⟨j, -, hj⟩ := List.mem_filterMap.mp (List.mem_of_getLast? h)
  obtain ⟨sec, hsec, hpair⟩ := Option.map_eq_some_iff.mp hj
  cases hpair
  obtain ⟨hget, hp⟩ := Option.filter_eq_some_iff.mp hsec
  exact ⟨sec, hget, hp, rfl⟩

/-! ## The first scan -/

/-- A successful `processed_sec[i] = true`. -/
theorem process_eq_ok {s s' : LoadState} {i : ℕ} :
    s.process i = .ok s' ↔
      i < s.processedSec.length ∧ s' = { s with processedSec := s.processedSec.set i true } := by
  unfold LoadState.process
  split
  · rename_i h
    simp only [Except.ok.injEq, h, true_and]
    exact eq_comm
  · rename_i h
    simp only [reduceCtorEq, h, false_and]

/-- The flags after one more section is processed. -/
theorem getElem?_set_true {flags : List Bool} {i : ℕ} (hi : i < flags.length) (j : ℕ) :
    (flags.set i true)[j]? = some true ↔ j = i ∨ flags[j]? = some true := by
  rw [List.getElem?_set]
  by_cases hij : i = j
  · subst hij
    simp [hi]
  · simp [hij, Ne.symm hij]

/-- What the first scan has left after the sections `is`. -/
structure Scanned (elf : Elf) (is : List ℕ) (s : LoadState) : Prop where
  processed : ∀ j, s.processedSec[j]? = some true ↔ j ∈ is ∧ isInfoSec elf j
  maps : s.maps = lastSec elf (fun sec => isMapsName sec.shname) is
  symbols : s.symbols = lastSec elf isSymtabSec is
  mapData : s.mapData = []
  progFd : s.progFd = []
  text : s.text = elf.text
  applied : s.applied = []

/-- Before the first section nothing is found. -/
theorem scanned_init (elf : Elf) : Scanned elf [] (.init elf) where
  processed j := by
    constructor
    · intro h
      exact absurd (List.eq_of_mem_replicate (List.mem_of_getElem? h)) Bool.noConfusion
    · rintro ⟨h, -⟩
      cases h
  maps := rfl
  symbols := rfl
  mapData := rfl
  progFd := rfl
  text := rfl
  applied := rfl

/-- A section that the first scan does not mark. -/
private theorem Scanned.skip {elf : Elf} {is : List ℕ} {s : LoadState} (h : Scanned elf is s)
    {i : ℕ} (hi : isInfoSec elf i = false) {maps symbols : Option (ℕ × ElfData)}
    (hmaps : maps = lastSec elf (fun sec => isMapsName sec.shname) (is ++ [i]))
    (hsymbols : symbols = lastSec elf isSymtabSec (is ++ [i])) :
    Scanned elf (is ++ [i]) { s with maps := maps, symbols := symbols } where
  processed j := by
    rw [h.processed, List.mem_append, List.mem_singleton]
    constructor
    · rintro ⟨hj, hinfo⟩
      exact ⟨.inl hj, hinfo⟩
    · rintro ⟨hj | rfl, hinfo⟩
      · exact ⟨hj, hinfo⟩
      · rw [hi] at hinfo
        cases hinfo
  maps := hmaps
  symbols := hsymbols
  mapData := h.mapData
  progFd := h.progFd
  text := h.text
  applied := h.applied

/-- The license or version section is marked. -/
private theorem Scanned.mark {elf : Elf} {is : List ℕ} {s s' : LoadState} (h : Scanned elf is s)
    {i : ℕ} {sec : Sec} (hsec : getSec elf i = some sec) (hname : isInfoName sec.shname)
    {license kernVersion : List UInt8}
    (hs : { s with license := license, kernVersion := kernVersion }.process i = .ok s') :
    Scanned elf (is ++ [i]) s' := by
  obtain ⟨hi, rfl⟩ := process_eq_ok.mp hs
  have hinfo : isInfoSec elf i := by rw [isInfoSec, hsec]; exact hname
  have hmaps : isMapsName sec.shname = false := by
    simp only [isInfoName, Bool.or_eq_true, decide_eq_true_eq] at hname
    rcases hname with hname | hname <;> rw [hname] <;> decide
  exact
    { processed := fun j => by
        rw [getElem?_set_true hi, h.processed, List.mem_append, List.mem_singleton]
        constructor
        · rintro (rfl | ⟨hj, hj'⟩)
          · exact ⟨.inr rfl, hinfo⟩
          · exact ⟨.inl hj, hj'⟩
        · rintro ⟨hj | rfl, hj'⟩
          · exact .inr ⟨hj, hj'⟩
          · exact .inl rfl
      maps := h.maps.trans (lastSec_append_of_false hsec hmaps is).symm
      symbols :=
        h.symbols.trans (lastSec_append_of_false hsec (by simp [isSymtabSec, hname]) is).symm
      mapData := h.mapData
      progFd := h.progFd
      text := h.text
      applied := h.applied }

/-- One step of the first scan. -/
theorem Scanned.step {elf : Elf} {is : List ℕ} {s s' : LoadState} (h : Scanned elf is s) {i : ℕ}
    (hs : scanSection elf s i = .ok s') : Scanned elf (is ++ [i]) s' := by
  unfold scanSection at hs
  cases hsec : getSec elf i with
  | none =>
    rw [hsec] at hs
    cases hs
    exact h.skip (by rw [isInfoSec, hsec]; rfl)
      (h.maps.trans (lastSec_append_of_none hsec _ is).symm)
      (h.symbols.trans (lastSec_append_of_none hsec _ is).symm)
  | some sec =>
    rw [hsec] at hs
    dsimp only at hs
    split_ifs at hs with hlicense hsize hversion hsize hmaps htype
    · exact h.mark hsec (by rw [isInfoName, hlicense]; rfl) hs
    · exact h.mark hsec (by rw [isInfoName, hversion]; rfl) hs
    all_goals
      cases hs
      have hinfo : isInfoName sec.shname = false := by
        rw [isInfoName, decide_eq_false hlicense, decide_eq_false hversion]
        rfl
      refine h.skip (by rw [isInfoSec, hsec]; exact hinfo) ?_ ?_
    · exact (lastSec_append_of_true hsec (decide_eq_true hmaps) is).symm
    · exact h.symbols.trans
        (lastSec_append_of_false hsec (by simp only [isSymtabSec, isMapsName, hmaps]; simp) is).symm
    · exact h.maps.trans (lastSec_append_of_false hsec (decide_eq_false hmaps) is).symm
    · refine (lastSec_append_of_true hsec ?_ is).symm
      simp only [isSymtabSec, isMapsName, hinfo, hmaps, htype]
      rfl
    · exact h.maps.trans (lastSec_append_of_false hsec (decide_eq_false hmaps) is).symm
    · exact h.symbols.trans (lastSec_append_of_false hsec (by simp [isSymtabSec, htype]) is).symm

/-- **The first scan.** -/
theorem scanned_of_scan {elf : Elf} {s : LoadState}
    (hs : elf.indices.foldlM (scanSection elf) (.init elf) = .ok s) :
    Scanned elf elf.indices s :=
  ForLoop.foldlM_rule hs (scanned_init elf) fun _ _ _ _ _ h hstep => h.step hstep

/-! ## The maps -/

/-- Changing the error keeps the results. -/
theorem mapError_eq_ok {α : Type*} {f : Stop → Stop} {x : Except Stop α} {a : α} :
    x.mapError f = .ok a ↔ x = .ok a := by
  cases x <;> simp [Except.mapError]

/-- What loading the maps does to the state. -/
theorem loadMapsSection_eq_ok {env : Env} {symbols : ElfData} {s s' : LoadState}
    (h : loadMapsSection env symbols s = .ok s') :
    (s.maps = none ∧ s' = s) ∨
      ∃ i dataMaps maps₀ maps, s.maps = some (i, dataMaps) ∧
        loadElfMapsSection env i dataMaps symbols = .ok maps₀ ∧ loadMaps env maps₀ = .ok maps ∧
        i < s.processedSec.length ∧
        s' = { s with mapData := maps, processedSec := s.processedSec.set i true } := by
  unfold loadMapsSection at h
  split at h
  · rename_i hmaps
    cases h
    exact .inl ⟨hmaps, rfl⟩
  · rename_i i dataMaps hmaps
    obtain ⟨maps₀, hread, h⟩ := ForLoop.bind_eq_ok.mp h
    obtain ⟨maps, hload, h⟩ := ForLoop.bind_eq_ok.mp h
    obtain ⟨hi, rfl⟩ := process_eq_ok.mp h
    exact .inr ⟨i, dataMaps, maps₀, maps, hmaps, mapError_eq_ok.mp hread, mapError_eq_ok.mp hload,
      hi, rfl⟩

/-- The state before the scan for the relocations. -/
structure Prepared (elf : Elf) (s : LoadState) : Prop where
  processed : ∀ i ∈ elf.indices, s.processedSec[i]? = some true ↔ isSetAside elf i
  progFd : s.progFd = []
  text : s.text = elf.text
  applied : s.applied = []

/-- After the maps are loaded, all is ready for the relocations. -/
theorem Scanned.prepared {env : Env} {elf : Elf} {symbols : ElfData} {s s' : LoadState}
    (h : Scanned elf elf.indices s) (hmaps : loadMapsSection env symbols s = .ok s') :
    Prepared elf s' := by
  have hsection : s.maps = mapsSection elf := h.maps
  rcases loadMapsSection_eq_ok hmaps with ⟨hnone, rfl⟩ |
    ⟨m, dataMaps, maps₀, maps, hsome, -, -, hm, rfl⟩
  · refine ⟨fun i hi => ?_, h.progFd, h.text, h.applied⟩
    rw [h.processed, isSetAside, ← hsection, hnone]
    simp [hi]
  · refine ⟨fun i hi => ?_, h.progFd, h.text, h.applied⟩
    rw [getElem?_set_true hm, h.processed, isSetAside, ← hsection, hsome, or_comm]
    refine or_congr (and_iff_right hi) ?_
    constructor
    · rintro rfl
      exact ⟨dataMaps, rfl⟩
    · rintro ⟨data, hdata⟩
      cases hdata
      rfl

/-! ## The scan for the relocations -/

/-- What a relocation makes of an instruction. -/
def fixup (insn : BpfInsn) (found : Option BpfMapData) : BpfInsn :=
  { insn with srcReg := bpfPseudoMapFd, imm := (found.map BpfMapData.fd).getD insn.imm }

/-- What one iteration of `parse_relo_and_apply` does. -/
theorem reloEntry_cases {symbols : ElfData} {maps : List BpfMapData} {data : ElfData}
    {sec prog : ℕ} {s s' : LoadState} {i : ℕ} {r : Option ℤ}
    (h : reloEntry symbols maps data sec prog s i = .ok (r, s')) :
    ∃ rel insn, data.rels[i]? = some rel ∧ s.text.insn prog (insnIdx rel) = some insn ∧
      (insn.code ≠ bpfLdImmDw ∧ r = some 1 ∧ s' = s ∨
        insn.code = bpfLdImmDw ∧ ∃ sym, symbols.syms[rel.rSym]? = some sym ∧
          s' = s.mark ⟨sec, i, prog, insnIdx rel, matchMap maps sym⟩
            (fixup insn (matchMap maps sym)) ∧
          (r = none ∨ matchMap maps sym = none)) := by
  unfold reloEntry at h
  split at h
  · cases h
  · rename_i rel hrel
    split at h
    · cases h
    · rename_i insn hinsn
      refine ⟨rel, insn, hrel, hinsn, ?_⟩
      split_ifs at h with hcode
      · cases h
        exact .inl ⟨hcode, rfl, rfl⟩
      · rw [ne_eq, not_not] at hcode
        split at h
        · cases h
        · rename_i sym hsym
          split at h
          · rename_i hfound
            cases h
            exact .inr ⟨hcode, sym, hsym, by rw [hfound]; rfl, .inr hfound⟩
          · rename_i m hfound
            cases h
            exact .inr ⟨hcode, sym, hsym, by rw [hfound]; rfl, .inl rfl⟩

/-- A relocation changes instructions, and nothing else. -/
theorem reloEntry_frame {symbols : ElfData} {maps : List BpfMapData} {data : ElfData}
    {sec prog : ℕ} {s s' : LoadState} {i : ℕ} {r : Option ℤ}
    (h : reloEntry symbols maps data sec prog s i = .ok (r, s')) :
    s' = { s with text := s'.text, applied := s'.applied } := by
  obtain ⟨-, -, -, -, ⟨-, -, rfl⟩ | ⟨-, sym, -, rfl, -⟩⟩ := reloEntry_cases h <;> rfl

/-- The loop over the relocations of a section. -/
theorem parseReloAndApply_eq_ok {symbols : ElfData} {maps : List BpfMapData} {shdr : GElfShdr}
    {data : ElfData} {sec prog : ℕ} {s s' : LoadState} {r : ℤ}
    (h : parseReloAndApply symbols maps shdr data sec prog s = .ok (r, s')) :
    ∃ ret, ForLoop.forReturn (reloEntry symbols maps data sec prog) (.range (nrels shdr).toNat) s =
      .ok (ret, s') := by
  unfold parseReloAndApply at h
  split_ifs at h
  split at h
  · cases h
  · rename_i ret s₁ hloop
    cases h
    exact ⟨ret, hloop⟩

/-- `parse_relo_and_apply` changes the instructions and the marks only. -/
theorem parseReloAndApply_frame {symbols : ElfData} {maps : List BpfMapData} {shdr : GElfShdr}
    {data : ElfData} {sec prog : ℕ} {s s' : LoadState} {r : ℤ}
    (h : parseReloAndApply symbols maps shdr data sec prog s = .ok (r, s')) :
    s' = { s with text := s'.text, applied := s'.applied } := by
  obtain ⟨ret, hloop⟩ := parseReloAndApply_eq_ok h
  -- every iteration keeps the frame, whether it returns or not
  have hframe := ForLoop.forReturn_rule
    (P := fun _ t => t = { s with text := t.text, applied := t.applied })
    (Q := fun t => t = { s with text := t.text, applied := t.applied }) hloop rfl
    (fun _ _ t t' _ ht hstep => by rw [reloEntry_frame hstep, ht])
    (fun _ _ t _ t' _ ht hstep => by rw [reloEntry_frame hstep, ht])
  rcases hframe with ⟨-, hs⟩ | ⟨-, hs⟩ <;> exact hs

/-- What the scan for the relocations does to one section. -/
theorem relocateSection_eq_ok {elf : Elf} {symbols : ElfData} {s s' : LoadState} {i : ℕ}
    (h : relocateSection elf symbols s i = .ok s') :
    (s.processedSec[i]? = some true ∨ reloSection elf i = none) ∧ s' = s ∨
      s.processedSec[i]? = some false ∧ ∃ sec prog r, reloSection elf i = some (sec, prog) ∧
        i < s.processedSec.length ∧
        parseReloAndApply symbols s.mapData sec.shdr sec.data i sec.shdr.shInfo
          { s with processedSec := s.processedSec.set i true } = .ok (r, s') := by
  unfold relocateSection at h
  split at h
  · cases h
  · rename_i hflag
    cases h
    exact .inl ⟨.inl hflag, rfl⟩
  · rename_i hflag
    split at h
    · rename_i hrelo
      cases h
      exact .inl ⟨.inr hrelo, rfl⟩
    · rename_i sec prog hrelo
      obtain ⟨s₁, hprocess, h⟩ := ForLoop.bind_eq_ok.mp h
      obtain ⟨hi, rfl⟩ := process_eq_ok.mp hprocess
      obtain ⟨⟨r, s₂⟩, hparse, h⟩ := ForLoop.bind_eq_ok.mp h
      cases h
      exact .inr ⟨hflag, sec, prog, r, hrelo, hi, hparse⟩

/-- What the scan for the relocations has left after the sections `is`, when it started in `s₀`. -/
structure Relocated (elf : Elf) (s₀ : LoadState) (is : List ℕ) (s : LoadState) : Prop where
  processed : ∀ j, s.processedSec[j]? = some true ↔
    s₀.processedSec[j]? = some true ∨ (j ∈ is ∧ (reloSection elf j).isSome)
  mapData : s.mapData = s₀.mapData
  progFd : s.progFd = s₀.progFd

/-- Before the first relocation section nothing is marked. -/
theorem relocated_nil (elf : Elf) (s : LoadState) : Relocated elf s [] s where
  processed j := by simp
  mapData := rfl
  progFd := rfl

/-- One section of the scan for the relocations. -/
theorem Relocated.step {elf : Elf} {symbols : ElfData} {s₀ s s' : LoadState} {is : List ℕ} {i : ℕ}
    (h : Relocated elf s₀ is s) (hs : relocateSection elf symbols s i = .ok s') :
    Relocated elf s₀ (is ++ [i]) s' := by
  rcases relocateSection_eq_ok hs with ⟨hskip, rfl⟩ | ⟨-, sec, prog, r, hrelo, hi, hparse⟩
  · refine ⟨fun j => ?_, h.mapData, h.progFd⟩
    rw [h.processed, List.mem_append, List.mem_singleton, or_and_right, ← or_assoc]
    refine (or_iff_left_of_imp ?_).symm
    rintro ⟨rfl, hj⟩
    -- the section that is passed over was already processed, or is no relocation section
    rcases hskip with hdone | hnone
    · exact (h.processed j).mp hdone
    · rw [hnone] at hj
      cases hj
  · have hframe := parseReloAndApply_frame hparse
    refine ⟨fun j => ?_, by rw [hframe]; exact h.mapData, by rw [hframe]; exact h.progFd⟩
    have hflags : s'.processedSec = s.processedSec.set i true := by rw [hframe]
    rw [hflags, getElem?_set_true hi, h.processed, List.mem_append, List.mem_singleton]
    constructor
    · rintro (rfl | hdone | ⟨hj, hsome⟩)
      · exact .inr ⟨.inr rfl, by rw [hrelo]; rfl⟩
      · exact .inl hdone
      · exact .inr ⟨.inl hj, hsome⟩
    · rintro (hdone | ⟨hj | rfl, hsome⟩)
      · exact .inr (.inl hdone)
      · exact .inr (.inr ⟨hj, hsome⟩)
      · exact .inl rfl

/-- **The scan for the relocations** processes the relocation sections of programs. -/
theorem relocated_of_scan {elf : Elf} {symbols : ElfData} {s₀ s : LoadState}
    (hs : elf.indices.foldlM (relocateSection elf symbols) s₀ = .ok s) :
    Relocated elf s₀ elf.indices s :=
  ForLoop.foldlM_rule hs (relocated_nil elf s₀) fun _ _ _ _ _ h hstep => h.step hstep

/-! ## The whole load -/

/-- **The three scans of a load that returns 0.** -/
theorem loadBpfFile_eq_ok {env : Env} {elf : Elf} {s : LoadState}
    (h : loadBpfFile env elf = .ok s) :
    ∃ symtab symbols s₁ s₂ s₃, symtabSection elf = some (symtab, symbols) ∧
      Scanned elf elf.indices s₁ ∧ loadMapsSection env symbols s₁ = .ok s₂ ∧
      elf.indices.foldlM (relocateSection elf symbols) s₂ = .ok s₃ ∧
      elf.indices.foldlM (loadSection env elf) s₃ = .ok s := by
  obtain ⟨s₁, hscan, h⟩ := ForLoop.bind_eq_ok.mp h
  have hscanned := scanned_of_scan hscan
  split at h
  · cases h
  · rename_i symtab symbols hsymbols
    obtain ⟨s₂, hmaps, h⟩ := ForLoop.bind_eq_ok.mp h
    obtain ⟨s₃, hrelo, h⟩ := ForLoop.bind_eq_ok.mp h
    exact ⟨symtab, symbols, s₁, s₂, s₃, hscanned.symbols.symm.trans hsymbols, hscanned, hmaps,
      hrelo, h⟩

end BpfLoad
