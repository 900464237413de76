import Mathlib.Data.List.Sort
import PrototypeKernel.BpfLoad.Object
import PrototypeKernel.Foundation.ForLoop
import PrototypeKernel.Foundation.KernelInt

/-! # `load_bpf_file`

The loader of `bpf_load.c` in its source order: the maps, the relocations, the programs and the
three scans of `do_load_bpf_file`. -/

namespace BpfLoad

/-! ## The state of the loader -/

/-- How a function stops before its end: it returns an error code, or it leaves defined behaviour
(an access outside of an array, a division by zero, a failed `assert`). -/
inductive Stop where
  | ret (code : ℤ)
  | crash
  deriving DecidableEq, Repr

/-- `return 1` wherever the callee returned an error. -/
def Stop.inCaller : Stop → Stop
  | .ret _ => .ret 1
  | .crash => .crash

/-- `struct bpf_map_def`. -/
structure BpfMapDef where
  type : ℕ
  keySize : ℕ
  valueSize : ℕ
  maxEntries : ℕ
  mapFlags : ℕ
  innerMapIdx : ℕ
  deriving DecidableEq, Repr

/-- `struct bpf_map_data`, with the place in the symbol table of the symbol it was made for. -/
structure BpfMapData where
  fd : ℤ
  name : List Char
  elfOffset : ℕ
  mapDef : BpfMapDef
  symIdx : ℕ
  deriving DecidableEq, Repr

/-- A `GElf_Sym` in the array `sym` of `load_elf_maps_section`, with its place in the symbol
table. -/
structure MapSym where
  idx : ℕ
  sym : GElfSym
  deriving DecidableEq, Repr

/-- `enum bpf_prog_type`. -/
inductive BpfProgType where
  | socketFilter | kprobe | tracepoint | xdp | perfEvent | cgroupSkb | cgroupSock
  deriving DecidableEq, Repr

/-- An entry of `prog_fd[]`, with the section it was loaded from and the arguments of
`bpf_load_program`. -/
structure ProgFd where
  sec : ℕ
  progType : BpfProgType
  insns : List BpfInsn
  license : List UInt8
  kernVersion : List UInt8
  fd : ℤ
  deriving DecidableEq, Repr

/-- An instruction marked by `parse_relo_and_apply`: relocation `rel` of section `sec` marked
instruction `insnIdx` of section `prog`, for the map `found` if there was one. -/
structure Applied where
  sec : ℕ
  rel : ℕ
  prog : ℕ
  insnIdx : ℕ
  found : Option BpfMapData
  deriving DecidableEq, Repr

/-- The globals of the loader and the locals of `do_load_bpf_file`. -/
structure LoadState where
  processedSec : List Bool
  /-- The bytes copied to `license`; those behind them are zero. -/
  license : List UInt8
  kernVersion : List UInt8
  mapData : List BpfMapData
  progFd : List ProgFd
  /-- `maps_shndx` and `data_maps`, once a maps section is found. -/
  maps : Option (ℕ × ElfData)
  /-- The symbol table section and `symbols`, once it is found. -/
  symbols : Option (ℕ × ElfData)
  text : Text
  /-- Every instruction marked so far. -/
  applied : List Applied
  deriving DecidableEq, Repr

/-- What the loader gets from the build, the C library and the kernel: `qsort`, which leaves equal
elements in an order of its own, and the outcomes of the system calls. -/
structure Env where
  /-- `LINUX_VERSION_CODE >= KERNEL_VERSION(4, 10, 0)`. -/
  linux410 : Bool
  qsort : List MapSym → List MapSym
  qsort_perm : ∀ syms, (qsort syms).Perm syms
  qsort_sorted : ∀ syms, (qsort syms).Pairwise fun l r => l.sym.stValue ≤ r.sym.stValue
  /-- What creating map `i` returns: a file descriptor, or a negative error. -/
  createMap : ℕ → ℤ
  /-- The kernel does not hand out a descriptor that is in use. -/
  createMap_inj : ∀ i j, 0 ≤ createMap i → createMap i = createMap j → i = j
  /-- What `bpf_load_program` returns for the program of section `i`. -/
  loadProgram : ℕ → ℤ

/-- `memcpy(license, data->d_buf, data->d_size)`, which leaves the end of a longer earlier
license. -/
def LoadState.copyLicense (s : LoadState) (buf : List UInt8) : LoadState :=
  { s with license := buf ++ s.license.drop buf.length }

/-- Copying the license sets no section aside. -/
@[simp]
theorem LoadState.copyLicense_processedSec (s : LoadState) (buf : List UInt8) :
    (s.copyLicense buf).processedSec = s.processedSec := rfl

/-! ## The maps -/

/-- A little-endian `unsigned int` at byte `off`. -/
def leU32 (bytes : List UInt8) (off : ℕ) : ℕ :=
  ((bytes.drop off).take 4).foldr (fun b n => b.toNat + 256 * n) 0

/-- The `struct bpf_map_def` in a buffer; bytes that were not copied are zero. -/
def BpfMapDef.ofBytes (bytes : List UInt8) : BpfMapDef where
  type := leU32 bytes 0
  keySize := leU32 bytes 4
  valueSize := leU32 bytes 8
  maxEntries := leU32 bytes 12
  mapFlags := leU32 bytes 16
  innerMapIdx := leU32 bytes 20

/-- The symbols of the maps section, in the order of the symbol table. -/
def mapSymbols (mapsShndx : ℕ) (symbols : ElfData) : List MapSym :=
  (List.range (symbols.dBuf.length / sizeofGElfSym)).filterMap fun i => do
    let sym ← symbols.syms[i]?
    if sym.stShndx = mapsShndx then some ⟨i, sym⟩ else none

/-- The body of the copy loop of `load_elf_maps_section`, with memory for the copy of the name; in
`copyStep` the `strdup` can fail. -/
def copyMapDef (dataMaps : ElfData) (mapSzElf : ℤ) (s : MapSym) : Except Stop BpfMapData :=
  let mapSzCopy := min mapSzElf sizeofBpfMapDef
  let stored := dataMaps.dBuf.drop s.sym.stValue
  match s.sym.stName with
  | none => .error .crash
  | some name =>
    if mapSzElf < 0 ∨ stored.length < mapSzCopy.toNat then
      .error .crash
    else if ((stored.take mapSzElf.toNat).drop mapSzCopy.toNat).any (· ≠ 0) then
      .error (.ret (-KernelInt.efbig))
    else if stored.length < mapSzElf.toNat then
      .error .crash
    else
      .ok ⟨-1, name, s.sym.stValue, .ofBytes (stored.take mapSzCopy.toNat), s.idx⟩

/-- `load_elf_maps_section`. -/
def loadElfMapsSection (env : Env) (mapsShndx : ℕ) (dataMaps symbols : ElfData) :
    Except Stop (List BpfMapData) :=
  let sym := mapSymbols mapsShndx symbols
  let nrMaps := sym.length
  -- the division by `nr_maps`, the `assert` and the room in `map_data`
  if nrMaps = 0 ∨ maxMaps < nrMaps then
    .error .crash
  else
    (env.qsort sym).mapM
      (copyMapDef dataMaps (KernelInt.intOfSize (dataMaps.dBuf.length / nrMaps)))

/-- The body of the loop of `load_maps`, without a callback. -/
def loadMap (env : Env) (m : BpfMapData × ℕ) : Except Stop BpfMapData :=
  let (m, i) := m
  if (m.mapDef.type = bpfMapTypeArrayOfMaps ∨ m.mapDef.type = bpfMapTypeHashOfMaps) ∧
      maxMaps ≤ m.mapDef.innerMapIdx then
    .error .crash
  else if env.createMap i < 0 then
    .error (.ret 1)
  else
    .ok { m with fd := env.createMap i }

/-- `load_maps`. -/
def loadMaps (env : Env) (maps : List BpfMapData) : Except Stop (List BpfMapData) :=
  maps.zipIdx.mapM (loadMap env)

/-! ## The relocations -/

/-- The instruction stored by a relocation, which is recorded. -/
def LoadState.mark (s : LoadState) (e : Applied) (insn : BpfInsn) : LoadState :=
  { s with text := s.text.store e.prog e.insnIdx insn, applied := s.applied ++ [e] }

/-- `insn_idx`, an `unsigned int`. -/
def insnIdx (rel : GElfRel) : ℕ := rel.rOffset / sizeofBpfInsn % 2 ^ 32

/-- The first map recorded for the offset of the symbol. -/
def matchMap (maps : List BpfMapData) (sym : GElfSym) : Option BpfMapData :=
  maps.find? fun m => m.elfOffset = sym.stValue

/-- The body of the loop of `parse_relo_and_apply` over the entries of section `sec`, which change
the instructions of section `prog`. -/
def reloEntry (symbols : ElfData) (maps : List BpfMapData) (data : ElfData) (sec prog : ℕ)
    (s : LoadState) (i : ℕ) : Except Stop (Option ℤ × LoadState) :=
  match data.rels[i]? with
  | none => .error .crash
  | some rel =>
    match s.text.insn prog (insnIdx rel) with
    | none => .error .crash
    | some insn =>
      if insn.code ≠ bpfLdImmDw then
        .ok (some 1, s)
      else
        let insn := { insn with srcReg := bpfPseudoMapFd }
        match symbols.syms[rel.rSym]? with
        | none => .error .crash
        | some sym =>
          match matchMap maps sym with
          | none => .ok (some 1, s.mark ⟨sec, i, prog, insnIdx rel, none⟩ insn)
          | some m =>
            .ok (none, s.mark ⟨sec, i, prog, insnIdx rel, some m⟩ { insn with imm := m.fd })

/-- `nrels` of `parse_relo_and_apply`, for a section with a nonzero `sh_entsize`. -/
def nrels (shdr : GElfShdr) : ℤ := KernelInt.intOfSize (shdr.shSize / shdr.shEntsize)

/-- `parse_relo_and_apply`. -/
def parseReloAndApply (symbols : ElfData) (maps : List BpfMapData) (shdr : GElfShdr)
    (data : ElfData) (sec prog : ℕ) (s : LoadState) : Except Stop (ℤ × LoadState) :=
  if shdr.shEntsize = 0 then
    .error .crash
  else
    match ForLoop.forReturn (reloEntry symbols maps data sec prog) (.range (nrels shdr).toNat)
      s with
    | .error e => .error e
    | .ok (r, s) => .ok (r.getD 0, s)

/-! ## The programs -/

/-- The name tests of `load_and_attach`, in their order. -/
def progType (linux410 : Bool) (event : List Char) : Option BpfProgType :=
  if "socket".toList.isPrefixOf event then
    some .socketFilter
  else if "kprobe/".toList.isPrefixOf event || "kretprobe/".toList.isPrefixOf event then
    some .kprobe
  else if "tracepoint/".toList.isPrefixOf event then
    some .tracepoint
  else if "xdp".toList.isPrefixOf event then
    some .xdp
  else if "perf_event".toList.isPrefixOf event then
    some .perfEvent
  else if linux410 && "cgroup/skb".toList.isPrefixOf event then
    some .cgroupSkb
  else if linux410 && "cgroup/sock".toList.isPrefixOf event then
    some .cgroupSock
  else
    none

/-- The path that `load_and_attach` builds in `buf` for an event that is not a number. -/
def eventPath (event : List Char) : Option (List Char) :=
  let debugfs := "/sys/kernel/debug/tracing/".toList
  let kprobe (name : List Char) :=
    if name.isEmpty || name.head?.any Char.isDigit then none
    else some (debugfs ++ "events/kprobes/".toList ++ name ++ "/id".toList)
  if "kprobe/".toList.isPrefixOf event then
    kprobe (event.drop 7)
  else if "kretprobe/".toList.isPrefixOf event then
    kprobe (event.drop 10)
  else if "tracepoint/".toList.isPrefixOf event then
    let name := event.drop 11
    if name.isEmpty then none else some (debugfs ++ "events/".toList ++ name ++ "/id".toList)
  else
    none

/-- `load_and_attach` for the program in section `sec`. Its caller drops the value it returns; what
the kernel does with the event after the load is left out. -/
def loadAndAttach (env : Env) (sec : ℕ) (event : List Char) (size : ℕ) (s : LoadState) :
    Except Stop LoadState :=
  match progType env.linux410 event with
  | none => .ok s
  | some type =>
    if env.loadProgram sec < 0 then
      .ok s
    else
      let prog : ProgFd :=
        ⟨sec, type, ((s.text[sec]?).getD []).take (size / sizeofBpfInsn), s.license, s.kernVersion,
          env.loadProgram sec⟩
      -- `char buf[256]`
      if (eventPath event).any (256 ≤ ·.length) then
        .error .crash
      else
        .ok { s with progFd := s.progFd ++ [prog] }

/-- The name tests of `do_load_bpf_file`. -/
def isProgName (shname : List Char) : Bool :=
  "kprobe/".toList.isPrefixOf shname || "kretprobe/".toList.isPrefixOf shname ||
    "tracepoint/".toList.isPrefixOf shname || "xdp".toList.isPrefixOf shname ||
    "perf_event".toList.isPrefixOf shname || "socket".toList.isPrefixOf shname ||
    "cgroup/".toList.isPrefixOf shname

/-! ## The scans -/

/-- `processed_sec[i] = true`. -/
def LoadState.process (s : LoadState) (i : ℕ) : Except Stop LoadState :=
  if i < s.processedSec.length then .ok { s with processedSec := s.processedSec.set i true }
  else .error .crash

/-- The scan for the license and the maps. -/
def scanSection (elf : Elf) (s : LoadState) (i : ℕ) : Except Stop LoadState :=
  match getSec elf i with
  | none => .ok s
  | some sec =>
    if sec.shname = "license".toList then
      -- `char license[128]`
      if 128 < sec.data.dBuf.length then .error .crash
      else (s.copyLicense sec.data.dBuf).process i
    else if sec.shname = "version".toList then
      if sec.data.dBuf.length ≠ 4 then .error (.ret 1)
      else { s with kernVersion := sec.data.dBuf }.process i
    else if sec.shname = "maps".toList then
      .ok { s with maps := some (i, sec.data) }
    else if sec.shdr.shType = shtSymtab then
      .ok { s with symbols := some (i, sec.data) }
    else
      .ok s

/-- The maps of the object, loaded and recorded in `map_data`. -/
def loadMapsSection (env : Env) (symbols : ElfData) (s : LoadState) : Except Stop LoadState :=
  match s.maps with
  | none => .ok s
  | some (mapsShndx, dataMaps) => do
    let maps ← (loadElfMapsSection env mapsShndx dataMaps symbols).mapError Stop.inCaller
    let maps ← (loadMaps env maps).mapError Stop.inCaller
    { s with mapData := maps }.process mapsShndx

/-- The relocation section `i` with the program section that needs its map fixup. -/
def reloSection (elf : Elf) (i : ℕ) : Option (Sec × Sec) := do
  let sec ← getSec elf i
  if sec.shdr.shType ≠ shtRel then
    none
  else
    let prog ← getSec elf sec.shdr.shInfo
    if prog.shdr.shType ≠ shtProgbits ∨ prog.shdr.shFlags &&& shfExecinstr = 0 then none
    else return (sec, prog)

/-- The scan for the relocations. A failed `parse_relo_and_apply` is passed over. -/
def relocateSection (elf : Elf) (symbols : ElfData) (s : LoadState) (i : ℕ) :
    Except Stop LoadState :=
  match s.processedSec[i]? with
  | none => .error .crash
  | some true => .ok s
  | some false =>
    match reloSection elf i with
    | none => .ok s
    | some (sec, _) => do
      let s ← s.process i
      let (_, s) ← parseReloAndApply symbols s.mapData sec.shdr sec.data i sec.shdr.shInfo s
      return s

/-- The scan that loads the programs. -/
def loadSection (env : Env) (elf : Elf) (s : LoadState) (i : ℕ) : Except Stop LoadState :=
  match s.processedSec[i]? with
  | none => .error .crash
  | some true => .ok s
  | some false =>
    match getSec elf i with
    | none => .ok s
    | some sec =>
      if isProgName sec.shname then
        loadAndAttach env i sec.shname sec.data.dBuf.length s
      else
        .ok s

/-- The state in which `do_load_bpf_file` starts in a fresh process. -/
def LoadState.init (elf : Elf) : LoadState where
  processedSec := .replicate 128 false
  license := []
  kernVersion := []
  mapData := []
  progFd := []
  maps := none
  symbols := none
  text := elf.text
  applied := []

/-- `load_bpf_file`, for an object that libelf can open. `.ok` is the return value 0. -/
def loadBpfFile (env : Env) (elf : Elf) : Except Stop LoadState := do
  let s ← elf.indices.foldlM (scanSection elf) (.init elf)
  match s.symbols with
  | none => .error (.ret 1)
  | some (_, symbols) => do
    let s ← loadMapsSection env symbols s
    let s ← elf.indices.foldlM (relocateSection elf symbols) s
    elf.indices.foldlM (loadSection env elf) s

/-! ## A host -/

/-- A load that returns 0 in a state with the property. -/
theorem exists_ok_of_any {x : Except Stop LoadState} {p : LoadState → Bool}
    (h : x.toOption.any p) : ∃ s, x = .ok s ∧ p s := by
  cases x with
  | error e => cases h
  | ok s => exact ⟨s, rfl, h⟩

/-- A host with a stable `qsort`, whose map descriptors start at 3. -/
def Env.sample (loadProgram : ℕ → ℤ) : Env where
  linux410 := true
  qsort := List.insertionSort fun l r => l.sym.stValue ≤ r.sym.stValue
  qsort_perm := List.perm_insertionSort _
  qsort_sorted syms :=
    have : Std.Total fun l r : MapSym => l.sym.stValue ≤ r.sym.stValue := ⟨fun _ _ => le_total _ _⟩
    have : IsTrans MapSym fun l r => l.sym.stValue ≤ r.sym.stValue := ⟨fun _ _ _ => le_trans⟩
    List.pairwise_insertionSort _ syms
  createMap i := i + 3
  createMap_inj i j _ h := by omega
  loadProgram := loadProgram

end BpfLoad
