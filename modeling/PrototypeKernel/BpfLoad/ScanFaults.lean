import PrototypeKernel.BpfLoad.MapsSection
import PrototypeKernel.BpfLoad.Scan

/-! # Faults of the section scan

The scan of the sections and `load_elf_maps_section()` once more, with the kind of fault wherever
the code leaves defined behaviour. Of the sizes and counts that come from the file, the scan tests
the one of the version section only. -/

namespace BpfLoad

/-! ## How a function stops -/

/-- A division by zero, or an access outside of an array. -/
inductive Fault where
  | divideByZero
  | writeLicense
  | writeProcessedSec
  | writeMapData
  | writeSym
  | readMaps
  deriving DecidableEq, Repr

/-- How a function stops before its end. -/
inductive Halt where
  | fault (f : Fault)
  /-- A failed `assert`. -/
  | abort
  /-- A null pointer that is read through. -/
  | null
  | ret (code : ℤ)
  deriving DecidableEq, Repr

/-- The halts that are accesses outside of an array, or divisions by zero. -/
def Halt.IsFault : Halt → Prop
  | .fault _ => True
  | _ => False

/-- `SHT_NOBITS`. -/
def shtNobits : ℕ := 8

/-- `sizeof(license)`. -/
def licenseSize : ℕ := 128

/-- `sizeof(processed_sec)`. -/
def processedSecSize : ℕ := 128

/-- What can be read through `d_buf`, which is null for a section without bytes in the file. -/
def readable (shdr : GElfShdr) (data : ElfData) : List UInt8 :=
  if shdr.shType = shtNobits then [] else data.dBuf

/-! ## The scan -/

/-- `processed_sec[i] = true`. -/
def LoadState.setProcessed (s : LoadState) (i : ℕ) : Except Halt LoadState :=
  if i < processedSecSize then .ok { s with processedSec := s.processedSec.set i true }
  else .error (.fault .writeProcessedSec)

/-- The body of the scan for the license and the maps. -/
def scanStep (elf : Elf) (s : LoadState) (i : ℕ) : Except Halt LoadState :=
  match getSec elf i with
  | none => .ok s
  | some sec =>
    let buf := readable sec.shdr sec.data
    let dSize := sec.data.dBuf.length
    if sec.shname = "license".toList then do
      let s ← s.setProcessed i
      if buf.length < dSize then .error .null
      else if licenseSize < dSize then .error (.fault .writeLicense)
      else .ok (s.copyLicense buf)
    else if sec.shname = "version".toList then do
      let s ← s.setProcessed i
      if dSize ≠ 4 then .error (.ret 1)
      else if buf.length < dSize then .error .null
      else .ok { s with kernVersion := buf }
    else if sec.shname = "maps".toList then
      .ok { s with maps := some (i, sec.data) }
    else if sec.shdr.shType = shtSymtab then
      .ok { s with symbols := some (i, sec.data) }
    else
      .ok s

/-! ## The maps -/

/-- The body of the loop over the symbols. The temporary array has a slot more than `map_data`. -/
def symStep (mapsShndx : ℕ) (symbols : ElfData) (sym : List MapSym) (i : ℕ) :
    Except Halt (List MapSym) :=
  if sym.length < maxMaps + 1 then
    match symbols.syms[i]? with
    | none => .ok sym
    | some s =>
      if maxMaps + 1 ≤ sym.length then .error (.fault .writeSym)
      else if s.stShndx = mapsShndx then .ok (sym ++ [⟨i, s⟩])
      else .ok sym
  else
    -- `assert(nr_maps < MAX_MAPS+1)`
    .error .abort

/-- The body of the loop that verifies that no newer features are requested. -/
def zeroStep (buf : List UInt8) (offset : ℕ) (_ : Unit) (k : ℕ) : Except Halt Unit :=
  match buf[offset + k]? with
  | none => .error (.fault .readMaps)
  | some b => if b ≠ 0 then .error (.ret (-KernelInt.efbig)) else .ok ()

/-- The copy of a definition, and the test of what is behind the known part. -/
def copyDef (buf : List UInt8) (mapSzElf : ℤ) (offset : ℕ) : Except Halt BpfMapDef :=
  let mapSzCopy := min mapSzElf sizeofBpfMapDef
  if mapSzCopy < 0 ∨ 0 < mapSzCopy ∧ (buf.length : ℤ) < offset + mapSzCopy then
    .error (.fault .readMaps)
  else do
    (List.range' sizeofBpfMapDef (mapSzElf.toNat - sizeofBpfMapDef)).foldlM (zeroStep buf offset) ()
    .ok (.ofBytes ((buf.drop offset).take mapSzCopy.toNat))

/-- The body of the copy loop, for the symbol `x.1` at place `x.2`. -/
def copyStep (strdup : ℕ → Bool) (buf : List UInt8) (mapSzElf : ℤ) (maps : List BpfMapData)
    (x : MapSym × ℕ) : Except Halt (List BpfMapData) :=
  match x.1.sym.stName with
  | none => .error .null
  | some name =>
    if maxMaps ≤ x.2 then .error (.fault .writeMapData)
    else if strdup x.2 then do
      let mapDef ← copyDef buf mapSzElf x.1.sym.stValue
      .ok (maps ++ [⟨-1, name, x.1.sym.stValue, mapDef, x.1.idx⟩])
    else .error (.ret (-KernelInt.enomem))

/-- `load_elf_maps_section`, for a maps section with a header and data. -/
def loadElfMaps (env : Env) (strdup : ℕ → Bool) (mapsShndx : ℕ) (shdr : GElfShdr)
    (dataMaps symbols : ElfData) : Except Halt (List BpfMapData) := do
  let sym ← (List.range (symbols.dBuf.length / sizeofGElfSym)).foldlM (symStep mapsShndx symbols) []
  if sym.length = 0 then .error (.fault .divideByZero)
  else
    let mapSzElf := KernelInt.intOfSize (dataMaps.dBuf.length / sym.length)
    (env.qsort sym).zipIdx.foldlM (copyStep strdup (readable shdr dataMaps) mapSzElf) []

/-- The call of `load_elf_maps_section` after the scan. -/
def loadScannedMaps (env : Env) (strdup : ℕ → Bool) (elf : Elf) (s : LoadState) :
    Except Halt LoadState :=
  match s.symbols, s.maps with
  | none, _ => .error (.ret 1)
  | some _, none => .ok s
  | some (_, symbols), some (mapsShndx, _) =>
    -- the section is looked up by its index again
    match elf[mapsShndx]?, (elf[mapsShndx]?).bind ElfScn.data with
    | some scn, some dataMaps => do
      let maps ← loadElfMaps env strdup mapsShndx scn.shdr dataMaps symbols
      .ok { s with mapData := maps }
    | _, _ => .error (.ret (-KernelInt.einval))

/-- The scan and `load_elf_maps_section` in `do_load_bpf_file`. `strdup` tells which of the names
can be copied. -/
def scanAndLoadElfMaps (env : Env) (strdup : ℕ → Bool) (elf : Elf) : Except Halt LoadState := do
  let s ← elf.indices.foldlM (scanStep elf) (.init elf)
  loadScannedMaps env strdup elf s

/-! ## When there is no fault -/

section Conditions

/-- The scan stops at a section without a fault: its bytes are not in the file, or it is a version
section of another size than 4. -/
def Sec.Ends (sec : Sec) : Prop :=
  isInfoName sec.shname ∧ (readable sec.shdr sec.data).length < sec.data.dBuf.length ∨
    sec.shname = "version".toList ∧ sec.data.dBuf.length ≠ 4

/-- Section `i` has a flag, and a license fits in its array. -/
def Sec.Fits (sec : Sec) (i : ℕ) : Prop :=
  (isInfoName sec.shname → i < processedSecSize) ∧
    (sec.shname = "license".toList →
      sec.data.dBuf.length ≤ (readable sec.shdr sec.data).length →
        sec.data.dBuf.length ≤ licenseSize)

/-- The scan stops at section `i` without a fault. -/
def ScanEnds (elf : Elf) (i : ℕ) : Prop := ∃ sec, getSec elf i = some sec ∧ sec.Ends

/-- The scan has no fault at section `i`. -/
def SectionFits (elf : Elf) (i : ℕ) : Prop := ∀ sec, getSec elf i = some sec → sec.Fits i

/-- **The scan**: every section that is reached fits. -/
def ScanFits (elf : Elf) : Prop :=
  ∀ i ∈ elf.indices, (∀ j ∈ elf.indices, j < i → ¬ ScanEnds elf j) → SectionFits elf i

/-- Behind the known part of a definition there is a byte that is not zero. -/
def CopyEnds (buf : List UInt8) (mapSzElf : ℤ) (offset : ℕ) : Prop :=
  ∃ k : ℕ, sizeofBpfMapDef ≤ k ∧ (k : ℤ) < mapSzElf ∧ buf.getD (offset + k) 0 ≠ 0

/-- A definition is in the data: the known part, and what is behind it up to the first byte that is
not zero. -/
structure CopyFits (buf : List UInt8) (mapSzElf : ℤ) (offset : ℕ) : Prop where
  nonneg : 0 ≤ mapSzElf
  known : 0 < mapSzElf → offset + min mapSzElf sizeofBpfMapDef ≤ buf.length
  rest : ∀ k : ℕ, sizeofBpfMapDef ≤ k → (k : ℤ) < mapSzElf →
    (∀ j, sizeofBpfMapDef ≤ j → j < k → buf.getD (offset + j) 0 = 0) → offset + k < buf.length

variable (strdup : ℕ → Bool) (buf : List UInt8) (mapSzElf : ℤ)

/-- The copy loop stops at a symbol without a fault. -/
def MapEnds (x : MapSym × ℕ) : Prop :=
  x.1.sym.stName = none ∨ strdup x.2 = false ∨ CopyEnds buf mapSzElf x.1.sym.stValue

/-- A symbol has a place in `map_data`, and its definition is in the data. -/
def MapFits (x : MapSym × ℕ) : Prop :=
  x.1.sym.stName ≠ none →
    x.2 < maxMaps ∧ (strdup x.2 = true → CopyFits buf mapSzElf x.1.sym.stValue)

/-- The map symbols among the first `k` symbols. -/
def mapSymbolsBelow (mapsShndx : ℕ) (symbols : ElfData) (k : ℕ) : List MapSym :=
  (List.range k).filterMap fun i => do
    let sym ← symbols.syms[i]?
    if sym.stShndx = mapsShndx then some ⟨i, sym⟩ else none

/-- The temporary array is full when there is a symbol left: the `assert` fails. -/
def AssertFails (mapsShndx : ℕ) (symbols : ElfData) : Prop :=
  maxMaps + 1 ≤
    (mapSymbolsBelow mapsShndx symbols (symbols.dBuf.length / sizeofGElfSym - 1)).length

/-- **The maps section**: the `assert` fails, or there are map symbols and every one that is reached
fits. -/
def MapsFit (env : Env) (strdup : ℕ → Bool) (mapsShndx : ℕ) (shdr : GElfShdr)
    (dataMaps symbols : ElfData) : Prop :=
  let sym := mapSymbols mapsShndx symbols
  let buf := readable shdr dataMaps
  let mapSzElf := KernelInt.intOfSize (dataMaps.dBuf.length / sym.length)
  AssertFails mapsShndx symbols ∨ sym ≠ [] ∧ ∀ x ∈ (env.qsort sym).zipIdx,
    (∀ y ∈ (env.qsort sym).zipIdx, y.2 < x.2 → ¬ MapEnds strdup buf mapSzElf y) →
      MapFits strdup buf mapSzElf x

end Conditions

/-! ## One section -/

open ForLoop

/-- The sections that are set aside are the license and the version. -/
theorem isInfoName_iff {shname : List Char} :
    isInfoName shname ↔ shname = "license".toList ∨ shname = "version".toList := by
  rw [isInfoName, Bool.or_eq_true, decide_eq_true_eq, decide_eq_true_eq]

/-- A license does not end the scan as a version does. -/
theorem Sec.license_iff {sec : Sec} (h : sec.shname = "license".toList) (i : ℕ) :
    (sec.Ends ↔ (readable sec.shdr sec.data).length < sec.data.dBuf.length) ∧
      (sec.Fits i ↔ i < processedSecSize ∧
        (sec.data.dBuf.length ≤ (readable sec.shdr sec.data).length →
          sec.data.dBuf.length ≤ licenseSize)) := by
  have hinfo : isInfoName sec.shname := isInfoName_iff.mpr (.inl h)
  have hversion : sec.shname ≠ "version".toList := by
    rw [h]
    decide
  unfold Sec.Ends Sec.Fits
  rw [and_iff_right hinfo, imp_iff_right hinfo, imp_iff_right h,
    or_iff_left fun hboth => hversion hboth.1]
  exact ⟨Iff.rfl, Iff.rfl⟩

/-- When the scan stops at a version section, and when it fits. -/
theorem Sec.version_iff {sec : Sec} (h : sec.shname = "version".toList) (i : ℕ) :
    (sec.Ends ↔ (readable sec.shdr sec.data).length < sec.data.dBuf.length ∨
      sec.data.dBuf.length ≠ 4) ∧ (sec.Fits i ↔ i < processedSecSize) := by
  have hinfo : isInfoName sec.shname := isInfoName_iff.mpr (.inr h)
  have hlicense : sec.shname ≠ "license".toList := by
    rw [h]
    decide
  unfold Sec.Ends Sec.Fits
  rw [and_iff_right hinfo, and_iff_right h, imp_iff_right hinfo,
    and_iff_left fun heq => absurd heq hlicense]
  exact ⟨Iff.rfl, Iff.rfl⟩

/-- The scan goes on at every other section. -/
theorem Sec.other_iff {sec : Sec} (hlicense : sec.shname ≠ "license".toList)
    (hversion : sec.shname ≠ "version".toList) (i : ℕ) : ¬ sec.Ends ∧ sec.Fits i := by
  have hinfo : ¬ isInfoName sec.shname := fun h => (isInfoName_iff.mp h).elim hlicense hversion
  refine ⟨?_, fun h => absurd h hinfo, fun h => absurd h hlicense⟩
  rintro (⟨h, -⟩ | ⟨h, -⟩)
  · exact hinfo h
  · exact hversion h

/-- A flag that is set. -/
theorem setProcessed_bind {β : Type} (f : LoadState → Except Halt β) (s : LoadState) (i : ℕ) :
    s.setProcessed i >>= f =
      if i < processedSecSize then f { s with processedSec := s.processedSec.set i true }
      else .error (.fault .writeProcessedSec) := by
  unfold LoadState.setProcessed
  split <;> rfl

/-- **What the scan does with a section.** -/
theorem scanStep_outcome (elf : Elf) (s : LoadState) (i : ℕ) :
    Outcome Halt.IsFault (scanStep elf s i) (ScanEnds elf i) (SectionFits elf i) := by
  unfold scanStep ScanEnds SectionFits
  cases hsec : getSec elf i with
  | none => exact outcome_ok s (by simp) (by simp)
  | some sec =>
    simp only [Option.some.injEq, exists_eq_left', forall_eq', setProcessed_bind]
    by_cases hlicense : sec.shname = "license".toList
    · obtain ⟨hends, hfits⟩ := Sec.license_iff hlicense i
      rw [if_pos hlicense, hends, hfits]
      split_ifs with hi hnull hlong
      · exact outcome_error not_false hnull ⟨hi, fun hle => absurd hnull (not_lt.mpr hle)⟩
      · exact outcome_bad trivial fun h => absurd (h.2 (not_lt.mp hnull)) (not_le.mpr hlong)
      · exact outcome_ok _ hnull ⟨hi, fun _ => not_lt.mp hlong⟩
      · exact outcome_bad trivial fun h => hi h.1
    · rw [if_neg hlicense]
      by_cases hversion : sec.shname = "version".toList
      · obtain ⟨hends, hfits⟩ := Sec.version_iff hversion i
        rw [if_pos hversion, hends, hfits]
        split_ifs with hi hsize hnull
        · exact outcome_error not_false (.inr hsize) hi
        · exact outcome_error not_false (.inl hnull) hi
        · exact outcome_ok _ (not_or.mpr ⟨hnull, hsize⟩) hi
        · exact outcome_bad trivial hi
      · obtain ⟨hends, hfits⟩ := Sec.other_iff hlicense hversion i
        rw [if_neg hversion]
        split_ifs
        all_goals exact outcome_ok _ hends hfits

/-! ## One map -/

/-- The test of a byte behind the known part. -/
theorem zeroStep_outcome (buf : List UInt8) (offset : ℕ) (u : Unit) (k : ℕ) :
    Outcome Halt.IsFault (zeroStep buf offset u k) (buf.getD (offset + k) 0 ≠ 0)
      (offset + k < buf.length) := by
  unfold zeroStep
  cases hget : buf[offset + k]? with
  | none =>
    exact outcome_bad trivial (not_lt.mpr (List.getElem?_eq_none_iff.mp hget))
  | some b =>
    have hin := (List.getElem?_eq_some_iff.mp hget).1
    have hb : buf.getD (offset + k) 0 = b := by
      rw [List.getD_eq_getElem?_getD, hget]
      rfl
    rw [hb]
    dsimp only
    split_ifs with hne
    · exact outcome_error not_false hne hin
    · exact outcome_ok () hne hin

/-- The places behind the known part of a definition. -/
theorem mem_rest_iff {mapSzElf : ℤ} {k : ℕ} :
    k ∈ List.range' sizeofBpfMapDef (mapSzElf.toNat - sizeofBpfMapDef) ↔
      sizeofBpfMapDef ≤ k ∧ (k : ℤ) < mapSzElf := by
  rw [List.mem_range'_1]
  omega

/-- **What the copy of a definition does.** -/
theorem copyDef_outcome (buf : List UInt8) (mapSzElf : ℤ) (offset : ℕ) :
    Outcome Halt.IsFault (copyDef buf mapSzElf offset) (CopyEnds buf mapSzElf offset)
      (CopyFits buf mapSzElf offset) := by
  have hsize : (sizeofBpfMapDef : ℤ) = 24 := rfl
  unfold copyDef
  dsimp only
  split_ifs with hout
  · refine outcome_bad trivial fun hfits => ?_
    have hnonneg := hfits.nonneg
    have hknown := hfits.known
    omega
  · refine Outcome.map ?_ _
    have hstep (u : Unit) (k : ℕ)
        (_ : k ∈ List.range' sizeofBpfMapDef (mapSzElf.toNat - sizeofBpfMapDef)) :=
      zeroStep_outcome buf offset u k
    constructor
    case ok_iff =>
      rw [exists_foldlM_eq_ok_iff hstep]
      simp only [mem_rest_iff]
      constructor
      · intro hall
        refine ⟨?_, by omega, by omega, fun k hlo hhi _ => (hall k ⟨hlo, hhi⟩).2⟩
        rintro ⟨k, hlo, hhi, hne⟩
        exact (hall k ⟨hlo, hhi⟩).1 hne
      · rintro ⟨hends, hfits⟩ k ⟨hlo, hhi⟩
        refine ⟨fun hne => hends ⟨k, hlo, hhi, hne⟩, hfits.rest k hlo hhi fun j hj hjk => ?_⟩
        by_contra hne
        exact hends ⟨j, hj, by omega, hne⟩
    case avoids_iff =>
      rw [avoids_foldlM_iff id List.pairwise_lt_range' hstep]
      simp only [mem_rest_iff]
      constructor
      · intro hall
        refine ⟨by omega, by omega, fun k hlo hhi hzero => hall k ⟨hlo, hhi⟩ fun j hj hjk => ?_⟩
        exact not_not.mpr (hzero j hj.1 hjk)
      · rintro hfits k ⟨hlo, hhi⟩ hbefore
        refine hfits.rest k hlo hhi fun j hj hjk => ?_
        exact not_not.mp (hbefore j ⟨hj, by omega⟩ hjk)

/-- **What the copy loop does with a symbol.** -/
theorem copyStep_outcome (strdup : ℕ → Bool) (buf : List UInt8) (mapSzElf : ℤ)
    (maps : List BpfMapData) (x : MapSym × ℕ) :
    Outcome Halt.IsFault (copyStep strdup buf mapSzElf maps x) (MapEnds strdup buf mapSzElf x)
      (MapFits strdup buf mapSzElf x) := by
  unfold copyStep MapEnds MapFits
  cases hname : x.1.sym.stName with
  | none => exact outcome_error not_false (.inl rfl) fun hne => absurd rfl hne
  | some name =>
    have hsome : (some name : Option (List Char)) ≠ none := Option.some_ne_none name
    rw [imp_iff_right hsome, or_iff_right hsome]
    dsimp only
    split_ifs with hroom hdup
    · exact outcome_bad trivial fun h => absurd h.1 (not_lt.mpr hroom)
    · rw [and_iff_right (not_le.mp hroom), imp_iff_right hdup, or_iff_right (by simp [hdup])]
      exact (copyDef_outcome buf mapSzElf x.1.sym.stValue).map _
    · exact outcome_error not_false (.inl (Bool.eq_false_iff.mpr hdup))
        ⟨not_le.mp hroom, fun h => absurd h hdup⟩

/-! ## The symbols -/

/-- The next symbol of the table is a map symbol or is passed over. -/
theorem mapSymbolsBelow_succ (mapsShndx : ℕ) (symbols : ElfData) (k : ℕ) :
    mapSymbolsBelow mapsShndx symbols (k + 1) = mapSymbolsBelow mapsShndx symbols k ++
      (symbols.syms[k]?.bind fun sym =>
        if sym.stShndx = mapsShndx then some (⟨k, sym⟩ : MapSym) else none).toList := by
  rw [mapSymbolsBelow, List.range_succ, List.filterMap_append]
  rfl

/-- A symbol is looked at while there is room. -/
theorem symStep_eq (mapsShndx : ℕ) (symbols : ElfData) (k : ℕ) :
    symStep mapsShndx symbols (mapSymbolsBelow mapsShndx symbols k) k =
      if maxMaps + 1 ≤ (mapSymbolsBelow mapsShndx symbols k).length then .error .abort
      else .ok (mapSymbolsBelow mapsShndx symbols (k + 1)) := by
  rw [mapSymbolsBelow_succ]
  unfold symStep
  by_cases hroom : (mapSymbolsBelow mapsShndx symbols k).length < maxMaps + 1
  · rw [if_pos hroom, if_neg (not_le.mpr hroom)]
    cases symbols.syms[k]? with
    | none => exact congrArg Except.ok (List.append_nil _).symm
    | some sym =>
      dsimp only [Option.bind_some]
      rw [if_neg (not_le.mpr hroom)]
      split
      · rfl
      · exact congrArg Except.ok (List.append_nil _).symm
  · rw [if_neg hroom, if_pos (not_lt.mp hroom)]

/-- **The loop over the symbols.** It writes nothing outside of the temporary array. -/
theorem symLoop_eq (mapsShndx : ℕ) (symbols : ElfData) (k : ℕ) :
    (List.range k).foldlM (symStep mapsShndx symbols) [] =
      if maxMaps + 1 ≤ (mapSymbolsBelow mapsShndx symbols (k - 1)).length then .error .abort
      else .ok (mapSymbolsBelow mapsShndx symbols k) := by
  induction k with
  | zero => rfl
  | succ k ih =>
    rw [List.range_succ, List.foldlM_append, ih, Nat.add_sub_cancel]
    by_cases hfull : maxMaps + 1 ≤ (mapSymbolsBelow mapsShndx symbols (k - 1)).length
    · -- an array that is full stays full
      have hfull' : maxMaps + 1 ≤ (mapSymbolsBelow mapsShndx symbols k).length := by
        cases k with
        | zero => exact hfull
        | succ k =>
          rw [mapSymbolsBelow_succ, List.length_append]
          exact Nat.le_add_right_of_le hfull
      rw [if_pos hfull, if_pos hfull']
      rfl
    · rw [if_neg hfull]
      show (symStep mapsShndx symbols (mapSymbolsBelow mapsShndx symbols k) k >>= pure) = _
      rw [bind_pure, symStep_eq]

/-- The loop over the symbols ends in the `assert`. -/
theorem symLoop_of_assertFails {mapsShndx : ℕ} {symbols : ElfData}
    (h : AssertFails mapsShndx symbols) :
    (List.range (symbols.dBuf.length / sizeofGElfSym)).foldlM (symStep mapsShndx symbols) [] =
      .error .abort := (symLoop_eq ..).trans (if_pos h)

/-- The loop over the symbols finds the map symbols. -/
theorem symLoop_of_not_assertFails {mapsShndx : ℕ} {symbols : ElfData}
    (h : ¬ AssertFails mapsShndx symbols) :
    (List.range (symbols.dBuf.length / sizeofGElfSym)).foldlM (symStep mapsShndx symbols) [] =
      .ok (mapSymbols mapsShndx symbols) := (symLoop_eq ..).trans (if_neg h)

/-! ## The section -/

/-- The places of a list are in their order. -/
theorem pairwise_zipIdx {α : Type*} (xs : List α) :
    xs.zipIdx.Pairwise fun x y => x.2 < y.2 := by
  have hsnd : (xs.zipIdx.map Prod.snd).Pairwise (· < ·) := by
    rw [List.zipIdx_map_snd]
    exact List.pairwise_lt_range'
  exact List.pairwise_map.mp hsnd

/-- **When `load_elf_maps_section` has no fault.** -/
theorem avoids_loadElfMaps_iff (env : Env) (strdup : ℕ → Bool) (mapsShndx : ℕ) (shdr : GElfShdr)
    (dataMaps symbols : ElfData) :
    Avoids Halt.IsFault (loadElfMaps env strdup mapsShndx shdr dataMaps symbols) ↔
      MapsFit env strdup mapsShndx shdr dataMaps symbols := by
  unfold loadElfMaps MapsFit
  by_cases habort : AssertFails mapsShndx symbols
  · rw [symLoop_of_assertFails habort]
    exact iff_of_true (avoids_error_iff.mpr not_false) (.inl habort)
  · rw [symLoop_of_not_assertFails habort]
    dsimp only
    rw [or_iff_right habort]
    show Avoids Halt.IsFault
      (if (mapSymbols mapsShndx symbols).length = 0 then .error (.fault .divideByZero) else _) ↔ _
    by_cases hnone : mapSymbols mapsShndx symbols = []
    · rw [hnone, if_pos List.length_nil]
      exact iff_of_false (fun h => avoids_error_iff.mp h trivial) fun h => h.1 rfl
    · rw [if_neg fun h => hnone (List.length_eq_zero_iff.mp h), and_iff_right hnone]
      exact avoids_foldlM_iff Prod.snd (pairwise_zipIdx _)
        (fun maps x _ => copyStep_outcome strdup _ _ maps x) []

/-! ## The loader without the kinds of faults -/

/-- What can be read of data is all of it, unless it is null. -/
theorem readable_cases (shdr : GElfShdr) (data : ElfData) :
    readable shdr data = [] ∨ readable shdr data = data.dBuf := by
  unfold readable
  split
  · exact .inl rfl
  · exact .inr rfl

/-- A buffer that is all there is the data. -/
theorem readable_eq_of_le {shdr : GElfShdr} {data : ElfData}
    (h : data.dBuf.length ≤ (readable shdr data).length) : readable shdr data = data.dBuf := by
  obtain hnull | hall := readable_cases shdr data
  · rw [hnull, List.length_nil, Nat.le_zero, List.length_eq_zero_iff] at h
    rw [hnull, h]
  · exact hall

/-- A definition that fits is all in the data, when there is no byte that ends the copy. -/
theorem CopyFits.le_length {buf : List UInt8} {mapSzElf : ℤ} {offset : ℕ}
    (h : CopyFits buf mapSzElf offset) (hends : ¬ CopyEnds buf mapSzElf offset)
    (hpos : 0 < mapSzElf) : offset + mapSzElf.toNat ≤ buf.length := by
  have hsize : (sizeofBpfMapDef : ℤ) = 24 := rfl
  have hknown := h.known hpos
  by_cases hbehind : mapSzElf ≤ sizeofBpfMapDef
  · omega
  · have hlast := h.rest (mapSzElf.toNat - 1) (by omega) (by omega) fun j hlo hj => by
      by_contra hne
      exact hends ⟨j, hlo, by omega, hne⟩
    omega

/-- A section that is scanned without a halt. -/
theorem scanSection_of_scanStep {elf : Elf} {i : ℕ} {s s' : LoadState}
    (hs : s.processedSec.length = processedSecSize) (h : scanStep elf s i = .ok s') :
    scanSection elf s i = .ok s' ∧ s'.processedSec.length = processedSecSize := by
  unfold scanStep at h
  unfold scanSection LoadState.process
  cases hsec : getSec elf i with
  | none =>
    rw [hsec] at h
    cases h
    exact ⟨rfl, hs⟩
  | some sec =>
    simp only [hsec, setProcessed_bind] at h ⊢
    split_ifs at h with hlicense hi hnull hlong hversion hi hsize hnull hmaps htype
    · cases h
      have hbuf := readable_eq_of_le (not_lt.mp hnull)
      rw [if_pos hlicense, if_neg (show ¬ 128 < sec.data.dBuf.length from hlong),
        if_pos (by rw [LoadState.copyLicense_processedSec, hs]; exact hi), hbuf]
      exact ⟨rfl, by rw [LoadState.copyLicense_processedSec, List.length_set]; exact hs⟩
    · cases h
      have hbuf := readable_eq_of_le (not_lt.mp hnull)
      rw [if_neg hlicense, if_pos hversion, if_neg hsize, if_pos (by rw [hs]; exact hi), hbuf]
      exact ⟨rfl, by rw [List.length_set]; exact hs⟩
    · cases h
      rw [if_neg hlicense, if_neg hversion, if_pos hmaps]
      exact ⟨rfl, hs⟩
    · cases h
      rw [if_neg hlicense, if_neg hversion, if_neg hmaps, if_pos htype]
      exact ⟨rfl, hs⟩
    · cases h
      rw [if_neg hlicense, if_neg hversion, if_neg hmaps, if_neg htype]
      exact ⟨rfl, hs⟩

/-- A scan without a halt is the scan of `load_bpf_file`. -/
theorem scan_of_scanStep {elf : Elf} {s : LoadState}
    (h : elf.indices.foldlM (scanStep elf) (.init elf) = .ok s) :
    elf.indices.foldlM (scanSection elf) (.init elf) = .ok s :=
  (foldlM_of_imp (P := fun s => s.processedSec.length = processedSecSize)
    (fun _ _ _ _ hs hstep => scanSection_of_scanStep hs hstep) h List.length_replicate).1

/-- A definition that is copied without a halt is all in the data, and zero behind the known part.
-/
theorem copyMapDef_of_copyDef {shdr : GElfShdr} {dataMaps : ElfData} {mapSzElf : ℤ} {s : MapSym}
    {name : List Char} {d : BpfMapDef} (hname : s.sym.stName = some name)
    (h : copyDef (readable shdr dataMaps) mapSzElf s.sym.stValue = .ok d) :
    copyMapDef dataMaps mapSzElf s = .ok ⟨-1, name, s.sym.stValue, d, s.idx⟩ := by
  obtain ⟨hends, hfits⟩ := (copyDef_outcome _ _ _).ok_iff.mp ⟨d, h⟩
  have hd : d = .ofBytes (((readable shdr dataMaps).drop s.sym.stValue).take
      (min mapSzElf sizeofBpfMapDef).toNat) := by
    unfold copyDef at h
    dsimp only at h
    split_ifs at h
    obtain ⟨-, -, h⟩ := bind_eq_ok.mp h
    cases h
    rfl
  have hsize : (sizeofBpfMapDef : ℤ) = 24 := rfl
  have hnonneg := hfits.nonneg
  have hstored : (dataMaps.dBuf.drop s.sym.stValue).length =
      dataMaps.dBuf.length - s.sym.stValue := List.length_drop
  unfold copyMapDef
  rw [hname]
  dsimp only
  by_cases hzero : mapSzElf = 0
  · subst hzero
    rw [hd]
    simp
  · -- the data is not null, and all of the definition is in it
    have hin := hfits.le_length hends (by omega)
    have hbuf : readable shdr dataMaps = dataMaps.dBuf := by
      obtain hnull | hall := readable_cases shdr dataMaps
      · rw [hnull, List.length_nil] at hin
        omega
      · exact hall
    rw [hbuf] at hends hin hd
    have hzeros : ¬ (((dataMaps.dBuf.drop s.sym.stValue).take mapSzElf.toNat).drop
        (min mapSzElf sizeofBpfMapDef).toNat).any (· ≠ 0) := by
      rw [any_stored_iff dataMaps s hin]
      rintro ⟨k, hk, hlo, hne⟩
      exact hends ⟨k, by omega, by omega, hne⟩
    rw [if_neg (by omega), if_neg hzeros, if_neg (by omega), hd]

/-- A symbol that is copied without a halt. -/
theorem copyMapDef_of_copyStep {strdup : ℕ → Bool} {shdr : GElfShdr} {dataMaps : ElfData}
    {mapSzElf : ℤ} {maps maps' : List BpfMapData} {x : MapSym × ℕ}
    (h : copyStep strdup (readable shdr dataMaps) mapSzElf maps x = .ok maps') :
    ∃ m, copyMapDef dataMaps mapSzElf x.1 = .ok m ∧ maps' = maps ++ [m] := by
  unfold copyStep at h
  split at h
  · cases h
  · rename_i name hname
    split_ifs at h
    obtain ⟨d, hd, h⟩ := bind_eq_ok.mp h
    cases h
    exact ⟨_, copyMapDef_of_copyDef hname hd, rfl⟩

/-- A maps section that is loaded without a halt. -/
theorem loadElfMapsSection_of_loadElfMaps {env : Env} {strdup : ℕ → Bool} {mapsShndx : ℕ}
    {shdr : GElfShdr} {dataMaps symbols : ElfData} {maps : List BpfMapData}
    (h : loadElfMaps env strdup mapsShndx shdr dataMaps symbols = .ok maps) :
    loadElfMapsSection env mapsShndx dataMaps symbols = .ok maps := by
  unfold loadElfMaps at h
  obtain ⟨sym, hsym, h⟩ := bind_eq_ok.mp h
  have hassert : ¬ AssertFails mapsShndx symbols := by
    intro hfails
    rw [symLoop_of_assertFails hfails] at hsym
    cases hsym
  rw [symLoop_of_not_assertFails hassert] at hsym
  cases hsym
  split_ifs at h with hnone
  -- the 33rd symbol has no place in `map_data`
  have hroom : (mapSymbols mapsShndx symbols).length ≤ maxMaps := by
    have hfits := (exists_foldlM_eq_ok_iff
      (fun maps x _ => copyStep_outcome strdup (readable shdr dataMaps) _ maps x) []).mp ⟨maps, h⟩
    by_contra hlong
    rw [not_le, ← (env.qsort_perm (mapSymbols mapsShndx symbols)).length_eq] at hlong
    have hmem : ((env.qsort (mapSymbols mapsShndx symbols))[maxMaps], maxMaps) ∈
        (env.qsort (mapSymbols mapsShndx symbols)).zipIdx :=
      List.mem_zipIdx_iff_getElem?.mpr (List.getElem?_eq_getElem hlong)
    obtain ⟨hends, hfit⟩ := hfits _ hmem
    exact absurd (hfit fun hname => hends (.inl hname)).1 (lt_irrefl _)
  unfold loadElfMapsSection
  dsimp only
  rw [if_neg (by omega)]
  obtain ⟨ms, hms, rfl⟩ :=
    mapM_of_foldlM_append (fun maps x maps' hx => copyMapDef_of_copyStep hx) h
  exact hms

/-! ## When there is no fault -/

/-- The maps that are loaded after the scan fit. -/
theorem avoids_loadScannedMaps_iff (env : Env) (strdup : ℕ → Bool) (elf : Elf) (s : LoadState) :
    Avoids Halt.IsFault (loadScannedMaps env strdup elf s) ↔
      ∀ i symbols j data scn dataMaps, s.symbols = some (i, symbols) → s.maps = some (j, data) →
        elf[j]? = some scn → scn.data = some dataMaps →
          MapsFit env strdup j scn.shdr dataMaps symbols := by
  unfold loadScannedMaps
  cases hsymbols : s.symbols with
  | none => exact iff_of_true (avoids_error_iff.mpr not_false) (by simp)
  | some isym =>
    cases hmaps : s.maps with
    | none => exact iff_of_true (avoids_ok s) (by simp)
    | some jdata =>
      obtain ⟨i, symbols⟩ := isym
      obtain ⟨j, data⟩ := jdata
      simp only [Option.some.injEq, Prod.mk.injEq]
      cases hscn : elf[j]? with
      | none =>
        refine iff_of_true (avoids_error_iff.mpr not_false) ?_
        rintro _ _ _ _ scn _ - ⟨rfl, -⟩ hscn'
        rw [hscn] at hscn'
        cases hscn'
      | some scn =>
        dsimp only [Option.bind_some]
        cases hdata : scn.data with
        | none =>
          refine iff_of_true (avoids_error_iff.mpr not_false) ?_
          rintro _ _ _ _ scn' _ - ⟨rfl, -⟩ hscn' hdata'
          rw [hscn] at hscn'
          cases hscn'
          rw [hdata] at hdata'
          cases hdata'
        | some dataMaps =>
          have hload := avoids_loadElfMaps_iff env strdup j scn.shdr dataMaps symbols
          dsimp only
          rw [avoids_bind_iff, and_iff_left fun maps _ => avoids_ok _, hload]
          constructor
          · rintro hfits _ _ _ _ scn' _ ⟨-, rfl⟩ ⟨rfl, -⟩ hscn' hdata'
            rw [hscn] at hscn'
            cases hscn'
            rw [hdata] at hdata'
            cases hdata'
            exact hfits
          · exact fun hall => hall i symbols j data scn dataMaps ⟨rfl, rfl⟩ ⟨rfl, rfl⟩ hscn hdata

/-- **The maps of the object**: the last symbol table and the last maps section fit. -/
def MapsSectionFits (env : Env) (strdup : ℕ → Bool) (elf : Elf) : Prop :=
  ∀ i symbols j data scn dataMaps, symtabSection elf = some (i, symbols) →
    mapsSection elf = some (j, data) → elf[j]? = some scn → scn.data = some dataMaps →
      MapsFit env strdup j scn.shdr dataMaps symbols

/-- **When the scan and `load_elf_maps_section` have no fault**: every section that is reached fits,
and the maps fit if the scan comes to its end. -/
theorem avoids_scanAndLoadElfMaps_iff (env : Env) (strdup : ℕ → Bool) (elf : Elf) :
    Avoids Halt.IsFault (scanAndLoadElfMaps env strdup elf) ↔
      ScanFits elf ∧ ((∀ i ∈ elf.indices, ¬ ScanEnds elf i) → MapsSectionFits env strdup elf) := by
  have hstep := fun s i (_ : i ∈ elf.indices) => scanStep_outcome elf s i
  have hkey : elf.indices.Pairwise fun i j => id i < id j := List.pairwise_lt_range'
  unfold scanAndLoadElfMaps
  rw [avoids_bind_iff, avoids_foldlM_iff id hkey hstep]
  refine and_congr_right fun hfits => ?_
  -- what the scan leaves
  have hrest {s : LoadState} (hs : elf.indices.foldlM (scanStep elf) (.init elf) = .ok s) :
      Avoids Halt.IsFault (loadScannedMaps env strdup elf s) ↔ MapsSectionFits env strdup elf := by
    have hscanned := scanned_of_scan (scan_of_scanStep hs)
    rw [avoids_loadScannedMaps_iff, hscanned.maps, hscanned.symbols]
    exact Iff.rfl
  constructor
  · intro hall hends
    obtain ⟨s, hs⟩ := (exists_foldlM_eq_ok_iff hstep _).mpr fun i hi =>
      ⟨hends i hi, hfits i hi fun j hj _ => hends j hj⟩
    exact (hrest hs).mp (hall s hs)
  · intro hmaps s hs
    refine (hrest hs).mpr (hmaps fun i hi => ?_)
    exact ((exists_foldlM_eq_ok_iff hstep _).mp ⟨s, hs⟩ i hi).1

/-- Without a halt, the maps are those of `load_bpf_file`. -/
theorem loadElfMapsSection_of_scanAndLoadElfMaps {env : Env} {strdup : ℕ → Bool} {elf : Elf}
    {s : LoadState} (h : scanAndLoadElfMaps env strdup elf = .ok s) :
    ∃ s₀ i symbols, elf.indices.foldlM (scanSection elf) (.init elf) = .ok s₀ ∧
      s₀.symbols = some (i, symbols) ∧ ∀ j dataMaps, s₀.maps = some (j, dataMaps) →
        loadElfMapsSection env j dataMaps symbols = .ok s.mapData := by
  unfold scanAndLoadElfMaps at h
  obtain ⟨s₀, hscan, h⟩ := bind_eq_ok.mp h
  have hscanned := scan_of_scanStep hscan
  unfold loadScannedMaps at h
  cases hsymbols : s₀.symbols with
  | none =>
    rw [hsymbols] at h
    cases h
  | some isym =>
    obtain ⟨i, symbols⟩ := isym
    refine ⟨s₀, i, symbols, hscanned, hsymbols, fun j dataMaps hmaps => ?_⟩
    -- the data that is looked up again is the same
    obtain ⟨sec, hsec, -, rfl⟩ :=
      exists_of_lastSec ((scanned_of_scan hscanned).maps.symm.trans hmaps)
    obtain ⟨hscn, -⟩ := getSec_eq_some hsec
    rw [hsymbols, hmaps] at h
    dsimp only at h
    rw [hscn] at h
    obtain ⟨maps, hload, h⟩ := bind_eq_ok.mp h
    cases h
    exact loadElfMapsSection_of_loadElfMaps hload

/-- A license section of 129 bytes. -/
def longLicenseSec : Sec :=
  ⟨"license".toList, ⟨shtProgbits, 0, 129, 0, 0, 0⟩, ⟨List.replicate 129 65, [], [], []⟩⟩

/-- An object with this section. -/
def longLicense : Elf :=
  [⟨none, ⟨0, 0, 0, 0, 0, 0⟩, none⟩,
    ⟨some longLicenseSec.shname, longLicenseSec.shdr, some longLicenseSec.data⟩]

/-- **A license of 129 bytes is copied over the end of its array.** -/
theorem not_avoids_longLicense :
    scanAndLoadElfMaps (.sample fun _ => 7) (fun _ => true) longLicense =
        .error (.fault .writeLicense) ∧
      ¬ Avoids Halt.IsFault
        (scanAndLoadElfMaps (.sample fun _ => 7) (fun _ => true) longLicense) := by
  have hlength : longLicenseSec.data.dBuf.length = 129 := List.length_replicate
  have hsec : getSec longLicense 1 = some longLicenseSec := rfl
  have hread : readable longLicenseSec.shdr longLicenseSec.data = longLicenseSec.data.dBuf :=
    if_neg (by decide)
  have hname : longLicenseSec.shname = "license".toList := rfl
  have hstep (s : LoadState) : scanStep longLicense s 1 = .error (.fault .writeLicense) := by
    unfold scanStep
    rw [hsec]
    dsimp only
    rw [if_pos hname, setProcessed_bind, if_pos (by decide), hread, hlength,
      if_neg (lt_irrefl 129), if_pos (by decide)]
  have hfault : scanAndLoadElfMaps (.sample fun _ => 7) (fun _ => true) longLicense =
      .error (.fault .writeLicense) := by
    unfold scanAndLoadElfMaps
    rw [show longLicense.indices = [1] from rfl, List.foldlM_cons, hstep]
    rfl
  exact ⟨hfault, fun hsafe => hsafe _ hfault trivial⟩

end BpfLoad
