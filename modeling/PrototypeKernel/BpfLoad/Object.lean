import Mathlib.Data.Int.Notation
import Mathlib.Data.List.Basic

/-! # ELF objects of the bpf sample loader

An object file as libelf presents it to `bpf_load.c`, and the memory that holds the instructions of
its sections. -/

namespace BpfLoad

/-! ## What libelf returns -/

/-- `struct bpf_insn`. -/
structure BpfInsn where
  code : UInt8
  dstReg : ℕ
  srcReg : ℕ
  off : ℤ
  imm : ℤ
  deriving DecidableEq, Repr

/-- `GElf_Rel`, with `GELF_R_SYM(r_info)` in place of `r_info`. -/
structure GElfRel where
  rOffset : ℕ
  rSym : ℕ
  deriving DecidableEq, Repr

/-- `GElf_Sym`, with the string behind `st_name` (`none` when `elf_strptr` finds none). -/
structure GElfSym where
  stName : Option (List Char)
  stShndx : ℕ
  stValue : ℕ
  deriving DecidableEq, Repr

/-- `GElf_Shdr`. -/
structure GElfShdr where
  shType : ℕ
  shFlags : ℕ
  shSize : ℕ
  shLink : ℕ
  shInfo : ℕ
  shEntsize : ℕ
  deriving DecidableEq, Repr

/-- `Elf_Data`: the buffer, and what `gelf_getrel`, `gelf_getsym` and a cast to `struct bpf_insn *`
read from it. -/
structure ElfData where
  dBuf : List UInt8
  rels : List GElfRel
  syms : List GElfSym
  insns : List BpfInsn
  deriving DecidableEq, Repr

/-- A section: its name in the section name table, its header, and its data when it has exactly one
buffer. -/
structure ElfScn where
  name : Option (List Char)
  shdr : GElfShdr
  data : Option ElfData
  deriving DecidableEq, Repr

/-- The sections of the object; section 0 is the null section. -/
abbrev Elf := List ElfScn

/-- The values of `for (i = 1; i < ehdr.e_shnum; i++)`. -/
def Elf.indices (elf : Elf) : List ℕ := List.range' 1 (elf.length - 1)

/-- The loops over the sections start at 1. -/
theorem Elf.mem_indices {elf : Elf} {i : ℕ} : i ∈ elf.indices ↔ 1 ≤ i ∧ i < elf.length := by
  rw [Elf.indices, List.mem_range'_1]
  omega

/-- What `get_sec` stores through its pointers. -/
structure Sec where
  shname : List Char
  shdr : GElfShdr
  data : ElfData
  deriving DecidableEq, Repr

/-- `get_sec`; `none` for its error codes. -/
def getSec (elf : Elf) (i : ℕ) : Option Sec := do
  let scn ← elf[i]?
  let shname ← scn.name
  if scn.shdr.shSize = 0 then
    none
  else
    let data ← scn.data
    return ⟨shname, scn.shdr, data⟩

/-- The section behind a successful `get_sec`. -/
theorem getSec_eq_some {elf : Elf} {i : ℕ} {sec : Sec} (h : getSec elf i = some sec) :
    elf[i]? = some ⟨some sec.shname, sec.shdr, some sec.data⟩ ∧ sec.shdr.shSize ≠ 0 := by
  obtain ⟨⟨name, shdr, data⟩, hscn, h⟩ := Option.bind_eq_some_iff.mp h
  obtain ⟨shname, hname, h⟩ := Option.bind_eq_some_iff.mp h
  by_cases hsize : shdr.shSize = 0
  · rw [if_pos hsize] at h
    cases h
  · rw [if_neg hsize] at h
    obtain ⟨buf, hbuf, h⟩ := Option.bind_eq_some_iff.mp h
    cases h
    cases hname
    cases hbuf
    exact ⟨hscn, hsize⟩

/-! ## Constants of `elf.h` and `bpf.h` -/

/-- `SHT_PROGBITS`. -/
def shtProgbits : ℕ := 1

/-- `SHT_SYMTAB`. -/
def shtSymtab : ℕ := 2

/-- `SHT_REL`. -/
def shtRel : ℕ := 9

/-- `SHF_EXECINSTR`. -/
def shfExecinstr : ℕ := 4

/-- `BPF_LD | BPF_IMM | BPF_DW`. -/
def bpfLdImmDw : UInt8 := 0x18

/-- `BPF_PSEUDO_MAP_FD`. -/
def bpfPseudoMapFd : ℕ := 1

/-- `BPF_MAP_TYPE_ARRAY_OF_MAPS`. -/
def bpfMapTypeArrayOfMaps : ℕ := 12

/-- `BPF_MAP_TYPE_HASH_OF_MAPS`. -/
def bpfMapTypeHashOfMaps : ℕ := 13

/-- `sizeof(GElf_Sym)`. -/
def sizeofGElfSym : ℕ := 24

/-- `sizeof(struct bpf_insn)`. -/
def sizeofBpfInsn : ℕ := 8

/-- `sizeof(struct bpf_map_def)`. -/
def sizeofBpfMapDef : ℕ := 24

/-- `MAX_MAPS`. -/
def maxMaps : ℕ := 32

/-- `MAX_PROGS`. -/
def maxProgs : ℕ := 32

/-! ## The instructions of the sections -/

/-- The buffers of all sections, read as instructions. -/
abbrev Text := List (List BpfInsn)

/-- The buffers as they are read from the object. -/
def Elf.text (elf : Elf) : Text := elf.map fun scn => (scn.data.map ElfData.insns).getD []

/-- `insn[idx]` for the buffer of section `sec`; `none` outside of the buffer. -/
def Text.insn (text : Text) (sec idx : ℕ) : Option BpfInsn := text[sec]?.bind fun b => b[idx]?

/-- A store to `insn[idx]`. -/
def Text.store (text : Text) (sec idx : ℕ) (insn : BpfInsn) : Text :=
  text.modify sec fun b => b.set idx insn

/-- What a store leaves at every place. -/
theorem Text.insn_store (text : Text) (sec idx : ℕ) (insn : BpfInsn) (sec' idx' : ℕ) :
    (text.store sec idx insn).insn sec' idx' =
      if sec = sec' ∧ idx = idx' then (text.insn sec idx).map fun _ => insn
      else text.insn sec' idx' := by
  unfold Text.insn Text.store
  rw [List.getElem?_modify]
  by_cases hsec : sec = sec'
  · subst hsec
    by_cases hidx : idx = idx'
    · subst hidx
      cases text[sec]? <;> simp [List.getElem?_set_self', Function.const_def]
    · cases text[sec]? <;> simp [hidx, List.getElem?_set_ne]
  · cases text[sec']? <;> simp [hsec]

end BpfLoad
