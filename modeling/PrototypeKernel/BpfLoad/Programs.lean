import PrototypeKernel.BpfLoad.Scan

/-! # The file descriptors of the programs

The users of the loader take `prog_fd[k]` for the program of the `k`-th program section. The last
scan keeps this numbering as long as it passes over none of these sections. -/

namespace BpfLoad

/-- A section with the name of a program. -/
def isProgSection (elf : Elf) (i : ℕ) : Bool := (elf[i]?.bind ElfScn.name).any isProgName

/-- The program sections, in section order. -/
def progSections (elf : Elf) : List ℕ := elf.indices.filter (isProgSection elf)

/-- The entries of `prog_fd[]`: the section each was loaded from, and the descriptor. -/
def LoadState.progFds (s : LoadState) : List (ℕ × ℤ) := s.progFd.map fun p => (p.sec, p.fd)

/-- `prog_fd[k]` is the descriptor of the `k`-th program section, for every program section, and
`prog_fd[]` is not overrun. -/
def ProgFdComplete (env : Env) (elf : Elf) (s : LoadState) : Prop :=
  s.progFds = ((progSections elf).map fun i => (i, env.loadProgram i)) ∧
    s.progFd.length ≤ maxProgs

instance (env : Env) (elf : Elf) (s : LoadState) : Decidable (ProgFdComplete env elf s) :=
  inferInstanceAs (Decidable (_ ∧ _))

/-- A program section is loaded when `get_sec` reads it, it is not itself a relocation section of a
program, its name has a program type and the system call succeeds. -/
def loadsProg (env : Env) (elf : Elf) (i : ℕ) : Bool :=
  (getSec elf i).any (fun sec => (progType env.linux410 sec.shname).isSome) &&
    (reloSection elf i).isNone && decide (0 ≤ env.loadProgram i)

/-- Every program section is loaded, and there are at most `MAX_PROGS`. -/
def LoadsEveryProg (env : Env) (elf : Elf) : Prop :=
  (∀ i ∈ progSections elf, loadsProg env elf i) ∧ (progSections elf).length ≤ maxProgs

instance (env : Env) (elf : Elf) : Decidable (LoadsEveryProg env elf) :=
  inferInstanceAs (Decidable (_ ∧ _))

/-! ## The last scan -/

/-- The sections from which the last scan loads a program, with the flags of `s`. -/
def isLoaded (env : Env) (elf : Elf) (s : LoadState) (i : ℕ) : Bool :=
  decide (s.processedSec[i]? ≠ some true) &&
    (getSec elf i).any (fun sec =>
      isProgName sec.shname && (progType env.linux410 sec.shname).isSome) &&
    decide (0 ≤ env.loadProgram i)

/-- `load_and_attach` adds at most one entry. -/
theorem loadAndAttach_eq_ok {env : Env} {sec : ℕ} {event : List Char} {size : ℕ}
    {s s' : LoadState} (h : loadAndAttach env sec event size s = .ok s') :
    s'.processedSec = s.processedSec ∧ s'.progFds = s.progFds ++
      if (progType env.linux410 event).isSome ∧ 0 ≤ env.loadProgram sec then
        [(sec, env.loadProgram sec)]
      else [] := by
  unfold loadAndAttach at h
  split at h
  · rename_i htype
    cases h
    simp [htype]
  · rename_i type htype
    split_ifs at h with hfd hpath
    · cases h
      simp [hfd]
    · cases h
      simp [LoadState.progFds, htype, not_lt.mp hfd]

/-- One section of the last scan. -/
theorem loadSection_eq_ok {env : Env} {elf : Elf} {s s' : LoadState} {i : ℕ}
    (h : loadSection env elf s i = .ok s') :
    s'.processedSec = s.processedSec ∧
      s'.progFds = s.progFds ++ if isLoaded env elf s i then [(i, env.loadProgram i)] else [] := by
  unfold loadSection at h
  split at h
  · cases h
  · rename_i hflag
    cases h
    simp [isLoaded, hflag]
  · rename_i hflag
    split at h
    · rename_i hsec
      cases h
      simp [isLoaded, hsec]
    · rename_i sec hsec
      split_ifs at h with hname
      · have hload := loadAndAttach_eq_ok h
        simpa [isLoaded, hflag, hsec, hname] using hload
      · cases h
        simp [isLoaded, hsec, hname]

/-- **The last scan** makes one entry for each section it loads, in section order. -/
theorem progFds_of_scan {env : Env} {elf : Elf} {s₀ s : LoadState} (hnil : s₀.progFds = [])
    (hs : elf.indices.foldlM (loadSection env elf) s₀ = .ok s) :
    s.progFds = (elf.indices.filter (isLoaded env elf s₀)).map fun i => (i, env.loadProgram i) := by
  refine (ForLoop.foldlM_rule (P := fun is t => t.processedSec = s₀.processedSec ∧
    t.progFds = (is.filter (isLoaded env elf s₀)).map fun i => (i, env.loadProgram i)) hs
    ⟨rfl, hnil⟩ ?_).2
  rintro is i t t' - ⟨hflags, hfds⟩ hstep
  obtain ⟨hflags', hfds'⟩ := loadSection_eq_ok hstep
  have hloaded : isLoaded env elf t i = isLoaded env elf s₀ i := by rw [isLoaded, hflags, isLoaded]
  refine ⟨hflags'.trans hflags, ?_⟩
  rw [hfds', hfds, hloaded, List.filter_append, List.map_append]
  by_cases hi : isLoaded env elf s₀ i <;> simp [hi]

/-! ## The whole load -/

/-- A section with the name of a program is not set aside by the first scan. -/
theorem not_isSetAside {elf : Elf} {i : ℕ} {sec : Sec} (hsec : getSec elf i = some sec)
    (hname : isProgName sec.shname) : ¬isSetAside elf i := by
  rintro (hinfo | ⟨data, hmaps⟩)
  · rw [isInfoSec, hsec] at hinfo
    rw [isProgName_eq_false (.inl hinfo)] at hname
    cases hname
  · obtain ⟨sec', hsec', hmaps, -⟩ := exists_of_lastSec hmaps
    cases hsec.symm.trans hsec'
    rw [isProgName_eq_false (.inr hmaps)] at hname
    cases hname

/-- The sections the last scan loads are the program sections that can be loaded. -/
theorem isLoaded_eq {env : Env} {elf : Elf} {s₂ s₃ : LoadState} (hprepared : Prepared elf s₂)
    (hrelocated : Relocated elf s₂ elf.indices s₃) {i : ℕ} (hi : i ∈ elf.indices) :
    isLoaded env elf s₃ i = (isProgSection elf i && loadsProg env elf i) := by
  cases hsec : getSec elf i with
  | none => simp [isLoaded, loadsProg, hsec]
  | some sec =>
    have hname : isProgSection elf i = isProgName sec.shname := by
      rw [isProgSection, (getSec_eq_some hsec).1]
      rfl
    rw [Bool.eq_iff_iff, isLoaded, loadsProg, hsec, hname]
    simp only [hrelocated.processed, hprepared.processed i hi, Option.any_some, Bool.and_eq_true,
      decide_eq_true_eq, ne_eq, hi, true_and, Option.isNone_iff_eq_none, not_or,
      Option.not_isSome_iff_eq_none]
    constructor
    · rintro ⟨⟨⟨-, hrelo⟩, hprog, htype⟩, hfd⟩
      exact ⟨hprog, ⟨htype, hrelo⟩, hfd⟩
    · rintro ⟨hprog, ⟨htype, hrelo⟩, hfd⟩
      exact ⟨⟨⟨not_isSetAside hsec hprog, hrelo⟩, hprog, htype⟩, hfd⟩

/-- **The numbering of the programs**: after a load that returns 0, `prog_fd[]` lists every program
section in its place exactly when every one of them is loaded and they fit. -/
theorem progFd_complete_iff {env : Env} {elf : Elf} {s : LoadState}
    (h : loadBpfFile env elf = .ok s) : ProgFdComplete env elf s ↔ LoadsEveryProg env elf := by
  obtain ⟨symtab, symbols, s₁, s₂, s₃, -, hscanned, hmaps, hrelo, hload⟩ := loadBpfFile_eq_ok h
  have hprepared := hscanned.prepared hmaps
  have hrelocated := relocated_of_scan hrelo
  have hnil : s₃.progFds = [] := by
    rw [LoadState.progFds, hrelocated.progFd, hprepared.progFd]
    rfl
  have hfds := progFds_of_scan hnil hload
  have hlength : s.progFd.length = s.progFds.length := (List.length_map _).symm
  have hinj : Function.Injective fun i : ℕ => (i, env.loadProgram i) :=
    fun i j hij => congrArg Prod.fst hij
  unfold ProgFdComplete LoadsEveryProg
  rw [hlength, hfds, List.length_map, (List.map_injective_iff.mpr hinj).eq_iff, progSections]
  -- the two lists agree when every program section is loaded; then so do their lengths
  constructor
  · rintro ⟨hlist, hle⟩
    refine ⟨fun i hi => ?_, hlist ▸ hle⟩
    rw [← hlist] at hi
    obtain ⟨hmem, hloaded⟩ := List.mem_filter.mp hi
    rw [isLoaded_eq hprepared hrelocated hmem, Bool.and_eq_true] at hloaded
    exact hloaded.2
  · rintro ⟨hall, hle⟩
    have hlist : elf.indices.filter (isLoaded env elf s₃) =
        elf.indices.filter (isProgSection elf) := by
      refine List.filter_congr fun i hi => ?_
      rw [isLoaded_eq hprepared hrelocated hi]
      by_cases hprog : isProgSection elf i
      · rw [hall i (List.mem_filter.mpr ⟨hi, hprog⟩), Bool.and_true]
      · rw [Bool.not_eq_true] at hprog
        rw [hprog, Bool.false_and]
    exact ⟨hlist, hlist ▸ hle⟩

/-! ## A load that fails in the middle -/

/-- A symbol table with the null symbol. -/
def emptySymtab : ElfScn where
  name := some ".symtab".toList
  shdr := ⟨shtSymtab, 0, 24, 1, 0, 24⟩
  data := some ⟨.replicate 24 0, [], [⟨some [], 0, 0⟩], []⟩

/-- A program section with one `exit`. -/
def exitProgram (shname : List Char) : ElfScn where
  name := some shname
  shdr := ⟨shtProgbits, shfExecinstr, 8, 0, 0, 0⟩
  data := some ⟨.replicate 8 0, [], [], [⟨0x95, 0, 0, 0, 0⟩]⟩

/-- An object with two programs, in sections 2 and 3. -/
def twoPrograms : Elf :=
  [⟨some [], ⟨0, 0, 0, 0, 0, 0⟩, none⟩, emptySymtab, exitProgram "xdp".toList,
    exitProgram "xdp_5".toList]

/-- Two programs that the kernel accepts. -/
theorem progFd_complete_iff_twoPrograms :
    ∃ s, loadBpfFile (.sample fun i => i + 10) twoPrograms = .ok s ∧
      ProgFdComplete (.sample fun i => i + 10) twoPrograms s := by
  have hload : ∃ s, loadBpfFile (.sample fun i => i + 10) twoPrograms = .ok s := ⟨_, rfl⟩
  obtain ⟨s, hs⟩ := hload
  exact ⟨s, hs, (progFd_complete_iff hs).mpr (by decide)⟩

/-- When the kernel rejects the first program, `prog_fd[0]` is the second one, and the load still
returns 0. -/
theorem progFd_shifted_twoPrograms :
    ∃ s, loadBpfFile (.sample fun i => if i = 2 then -1 else 7) twoPrograms = .ok s ∧
      s.progFds = [(3, 7)] ∧
      ¬ProgFdComplete (.sample fun i => if i = 2 then -1 else 7) twoPrograms s :=
  ⟨_, rfl, by decide, by decide⟩

end BpfLoad
