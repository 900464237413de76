import PrototypeKernel.BpfLoad.Marking
import Mathlib.Data.List.GetD

/-! # The maps section

`load_elf_maps_section()` takes the size of the section divided by the number of its symbols for the
size of the structures in it. It copies what it knows of each one, and fails when a larger structure
has something else in it. The size is kept in an `int`: with a size that fits the maps are read as
intended, and `sectionLoaded_iff` says when they are with one that does not. -/

namespace BpfLoad

/-! ## Bytes -/

/-- The bytes of an `unsigned int`. -/
def leBytes (n : ℕ) : List UInt8 := (List.range 4).map fun k => UInt8.ofNat (n / 256 ^ k)

/-- The `struct bpf_map_def` in memory. -/
def BpfMapDef.toBytes (d : BpfMapDef) : List UInt8 :=
  leBytes d.type ++ leBytes d.keySize ++ leBytes d.valueSize ++ leBytes d.maxEntries ++
    leBytes d.mapFlags ++ leBytes d.innerMapIdx

/-- A digit of a little-endian number. -/
theorem ofNat_foldr_div (bytes : List UInt8) (k : ℕ) :
    UInt8.ofNat (bytes.foldr (fun b n => b.toNat + 256 * n) 0 / 256 ^ k) = bytes.getD k 0 := by
  induction k generalizing bytes with
  | zero =>
    cases bytes with
    | nil => rfl
    | cons b bytes =>
      apply UInt8.toNat_inj.mp
      have hb := b.toNat_lt
      simp only [List.foldr_cons, pow_zero, Nat.div_one, UInt8.toNat_ofNat', List.getD_cons_zero]
      omega
  | succ k ih =>
    cases bytes with
    | nil => simp
    | cons b bytes =>
      have hb := b.toNat_lt
      rw [List.foldr_cons, Nat.pow_succ', ← Nat.div_div_eq_div_mul, List.getD_cons_succ, ← ih]
      congr 3
      omega

/-- A number read from four bytes is stored as these bytes. -/
theorem leBytes_leU32 (bytes : List UInt8) (off : ℕ) :
    leBytes (leU32 bytes off) = (List.range 4).map fun k => bytes.getD (off + k) 0 := by
  refine List.map_congr_left fun k hk => ?_
  have hk' : k < 4 := List.mem_range.mp hk
  rw [leU32, ofNat_foldr_div]
  simp [List.getD_eq_getElem?_getD, hk']

/-- **Bytes that were not copied are zero.** -/
theorem toBytes_ofBytes (bytes : List UInt8) :
    (BpfMapDef.ofBytes bytes).toBytes =
      (List.range sizeofBpfMapDef).map fun k => bytes.getD k 0 := by
  simp only [BpfMapDef.toBytes, BpfMapDef.ofBytes, leBytes_leU32]
  rfl

/-- The first `size` bytes of the structure at an offset, followed by zero bytes. -/
def defBytes (dataMaps : ElfData) (off size : ℕ) : List UInt8 :=
  (dataMaps.dBuf.drop off).take size ++ List.replicate (sizeofBpfMapDef - size) 0

/-- A definition is the stored bytes, followed by zero bytes. -/
theorem defBytes_eq {dataMaps : ElfData} {off size : ℕ} (hsize : size ≤ sizeofBpfMapDef)
    (hoff : off + size ≤ dataMaps.dBuf.length) :
    defBytes dataMaps off size = (List.range sizeofBpfMapDef).map fun k =>
      if k < size then dataMaps.dBuf.getD (off + k) 0 else 0 := by
  have hlength : ((dataMaps.dBuf.drop off).take size).length = size := by
    rw [List.length_take, List.length_drop]
    omega
  unfold defBytes
  apply List.ext_getElem
  · rw [List.length_append, hlength, List.length_replicate, List.length_map,
      List.length_range]
    omega
  · intro k hk hk'
    rw [List.getElem_map, List.getElem_range]
    by_cases hlt : k < size
    · have hin : off + k < dataMaps.dBuf.length := by omega
      rw [List.getElem_append_left (by omega), List.getElem_take, List.getElem_drop, if_pos hlt,
        List.getD_eq_getElem _ _ hin]
    · rw [List.getElem_append_right (by omega), List.getElem_replicate, if_neg hlt]

/-- The structure of which the first `size` bytes are copied. -/
theorem toBytes_copied {dataMaps : ElfData} {off size : ℕ} (hsize : size ≤ sizeofBpfMapDef)
    (hoff : off + size ≤ dataMaps.dBuf.length) :
    (BpfMapDef.ofBytes ((dataMaps.dBuf.drop off).take size)).toBytes =
      defBytes dataMaps off size := by
  rw [toBytes_ofBytes, defBytes_eq hsize hoff]
  refine List.map_congr_left fun k _ => ?_
  rw [List.getD_eq_getElem?_getD, List.getElem?_take]
  split
  · rw [List.getElem?_drop, List.getD_eq_getElem?_getD]
  · rfl

/-! ## What the section holds -/

/-- The byte `k` of the structure of a map. -/
def MapSym.byte (dataMaps : ElfData) (s : MapSym) (k : ℕ) : UInt8 :=
  dataMaps.dBuf.getD (s.sym.stValue + k) 0

/-- One of the bytes from `lo` on and before `hi` is not zero. -/
def MapSym.NonzeroIn (dataMaps : ElfData) (lo hi : ℕ) (s : MapSym) : Prop :=
  ∃ k, k < hi ∧ lo ≤ k ∧ s.byte dataMaps k ≠ 0

instance (dataMaps : ElfData) (lo hi : ℕ) : DecidablePred (MapSym.NonzeroIn dataMaps lo hi) :=
  fun s => inferInstanceAs (Decidable (∃ k, k < hi ∧ lo ≤ k ∧ s.byte dataMaps k ≠ 0))

/-- A nonzero byte in a range is one in a larger range. -/
theorem MapSym.NonzeroIn.mono {dataMaps : ElfData} {lo hi lo' hi' : ℕ} {s : MapSym}
    (h : s.NonzeroIn dataMaps lo hi) (hlo : lo' ≤ lo) (hhi : hi ≤ hi') :
    s.NonzeroIn dataMaps lo' hi' := by
  obtain ⟨k, hk, hle, hne⟩ := h
  exact ⟨k, hk.trans_le hhi, hlo.trans hle, hne⟩

/-- Two prefixes of a structure make the same definition when the bytes between them are zero. -/
theorem defBytes_eq_defBytes_iff {dataMaps : ElfData} {s : MapSym} {size size' : ℕ}
    (hle : size ≤ size') (hsize : size' ≤ sizeofBpfMapDef)
    (hoff : s.sym.stValue + size' ≤ dataMaps.dBuf.length) :
    defBytes dataMaps s.sym.stValue size = defBytes dataMaps s.sym.stValue size' ↔
      ¬ s.NonzeroIn dataMaps size size' := by
  rw [defBytes_eq (by omega) (by omega), defBytes_eq hsize hoff, List.map_inj_left]
  constructor
  · rintro h ⟨k, hk, hge, hne⟩
    have hbyte := h k (List.mem_range.mpr (by omega))
    rw [if_neg (by omega), if_pos hk] at hbyte
    exact hne hbyte.symm
  · intro h k _
    by_cases hk : k < size
    · rw [if_pos hk, if_pos (by omega)]
    · rw [if_neg hk]
      split
      · rename_i hk'
        by_contra hne
        exact h ⟨k, hk', by omega, Ne.symm hne⟩
      · rfl

/-- **A maps section**: up to `MAX_MAPS` symbols with names, at distinct multiples of one size, and
as many structures of this size. -/
structure MapsLayout (mapsShndx : ℕ) (dataMaps symbols : ElfData) (mapSz : ℕ) : Prop where
  pos : 1 ≤ (mapSymbols mapsShndx symbols).length
  le_maxMaps : (mapSymbols mapsShndx symbols).length ≤ maxMaps
  size : dataMaps.dBuf.length = (mapSymbols mapsShndx symbols).length * mapSz
  nodup : ((mapSymbols mapsShndx symbols).map fun s => s.sym.stValue).Nodup
  multiple : ∀ s ∈ mapSymbols mapsShndx symbols,
    ∃ k, k < (mapSymbols mapsShndx symbols).length ∧ s.sym.stValue = k * mapSz
  named : ∀ s ∈ mapSymbols mapsShndx symbols, s.sym.stName.isSome

section Layout

variable {mapsShndx : ℕ} {dataMaps symbols : ElfData} {mapSz : ℕ}

/-- The structure of each map is in the section. -/
theorem MapsLayout.stValue_add_le (h : MapsLayout mapsShndx dataMaps symbols mapSz) {s : MapSym}
    (hs : s ∈ mapSymbols mapsShndx symbols) :
    s.sym.stValue + mapSz ≤ dataMaps.dBuf.length := by
  obtain ⟨k, hk, hvalue⟩ := h.multiple s hs
  calc s.sym.stValue + mapSz = (k + 1) * mapSz := by rw [hvalue, Nat.succ_mul]
    _ ≤ (mapSymbols mapsShndx symbols).length * mapSz := Nat.mul_le_mul_right mapSz hk
    _ = dataMaps.dBuf.length := h.size.symm

/-- The division finds the size. -/
theorem MapsLayout.length_div (h : MapsLayout mapsShndx dataMaps symbols mapSz) :
    dataMaps.dBuf.length / (mapSymbols mapsShndx symbols).length = mapSz := by
  rw [h.size, Nat.mul_div_cancel_left mapSz h.pos]

/-! ## What is read of it -/

/-- What is recorded of a map when the first `size` bytes of its structure are copied. -/
def MapSym.copied (dataMaps : ElfData) (size : ℕ) (s : MapSym) : BpfMapData :=
  ⟨-1, s.sym.stName.getD [], s.sym.stValue,
    .ofBytes ((dataMaps.dBuf.drop s.sym.stValue).take size), s.idx⟩

/-- The test for unknown features. -/
theorem any_stored_iff (dataMaps : ElfData) (s : MapSym) {lo hi : ℕ}
    (hhi : s.sym.stValue + hi ≤ dataMaps.dBuf.length) :
    (((dataMaps.dBuf.drop s.sym.stValue).take hi).drop lo).any (· ≠ 0) ↔
      s.NonzeroIn dataMaps lo hi := by
  have hget (k : ℕ) : ((dataMaps.dBuf.drop s.sym.stValue).take hi)[k]? =
      if k < hi then some (s.byte dataMaps k) else none := by
    rw [List.getElem?_take]
    split
    · have hin : s.sym.stValue + k < dataMaps.dBuf.length := by omega
      rw [List.getElem?_drop, MapSym.byte, List.getD_eq_getElem _ _ hin,
        List.getElem?_eq_getElem hin]
    · rfl
  simp only [List.any_eq_true, List.mem_iff_getElem?, List.getElem?_drop, hget, decide_eq_true_eq]
  constructor
  · rintro ⟨b, ⟨j, hj⟩, hb⟩
    split_ifs at hj with hlt
    cases hj
    exact ⟨lo + j, hlt, Nat.le_add_right lo j, hb⟩
  · rintro ⟨k, hk, hlo, hb⟩
    refine ⟨_, ⟨k - lo, ?_⟩, hb⟩
    rw [Nat.add_sub_cancel' hlo, if_pos hk]

/-- The body of the copy loop, for a size that is not negative. -/
theorem MapsLayout.copyMapDef_eq (h : MapsLayout mapsShndx dataMaps symbols mapSz) {s : MapSym}
    (hs : s ∈ mapSymbols mapsShndx symbols) {size : ℕ} (hsize : size ≤ mapSz) :
    copyMapDef dataMaps size s =
      if s.NonzeroIn dataMaps sizeofBpfMapDef size then .error (.ret (-KernelInt.efbig))
      else .ok (s.copied dataMaps (min size sizeofBpfMapDef)) := by
  have hin := h.stValue_add_le hs
  obtain ⟨name, hname⟩ := Option.isSome_iff_exists.mp (h.named s hs)
  have hstored : (dataMaps.dBuf.drop s.sym.stValue).length =
      dataMaps.dBuf.length - s.sym.stValue := List.length_drop
  have hmin : (min (size : ℤ) sizeofBpfMapDef).toNat = min size sizeofBpfMapDef := by omega
  have hany : (((dataMaps.dBuf.drop s.sym.stValue).take size).drop
      (min size sizeofBpfMapDef)).any (· ≠ 0) ↔ s.NonzeroIn dataMaps sizeofBpfMapDef size := by
    rw [any_stored_iff dataMaps s (by omega)]
    -- there are such bytes only in a structure that is larger
    constructor
    · rintro ⟨k, hk, hlo, hne⟩
      exact ⟨k, hk, by omega, hne⟩
    · exact fun hex => hex.mono (by omega) le_rfl
  unfold copyMapDef
  rw [hname]
  dsimp only
  rw [hmin, Int.toNat_natCast, if_neg (by omega)]
  simp only [hany]
  split
  · rfl
  · rw [if_neg (by omega), MapSym.copied, hname, Option.getD_some]

/-- With a size that does not become negative, the maps are read with its value as an `int`. -/
theorem MapsLayout.load_eq (h : MapsLayout mapsShndx dataMaps symbols mapSz) (env : Env) {size : ℕ}
    (hint : KernelInt.intOfSize mapSz = size) :
    loadElfMapsSection env mapsShndx dataMaps symbols =
      if ∃ s ∈ mapSymbols mapsShndx symbols, s.NonzeroIn dataMaps sizeofBpfMapDef size then
        .error (.ret (-KernelInt.efbig))
      else
        .ok ((env.qsort (mapSymbols mapsShndx symbols)).map
          (MapSym.copied dataMaps (min size sizeofBpfMapDef))) := by
  have hsize : size ≤ mapSz := by
    have := KernelInt.intOfSize_le mapSz
    omega
  have hcount : ¬ ((mapSymbols mapsShndx symbols).length = 0 ∨
      maxMaps < (mapSymbols mapsShndx symbols).length) := by
    have := h.pos
    have := h.le_maxMaps
    omega
  have hmem (s : MapSym) := (env.qsort_perm (mapSymbols mapsShndx symbols)).mem_iff (a := s)
  unfold loadElfMapsSection
  dsimp only
  rw [if_neg hcount, h.length_div, hint,
    ForLoop.mapM_ite fun s hs => h.copyMapDef_eq ((hmem s).mp hs) hsize]
  simp only [hmem]

/-- With a size that becomes negative, nothing is read. -/
theorem MapsLayout.load_eq_crash (h : MapsLayout mapsShndx dataMaps symbols mapSz) (env : Env)
    (hint : KernelInt.intOfSize mapSz < 0) :
    loadElfMapsSection env mapsShndx dataMaps symbols = .error .crash := by
  unfold loadElfMapsSection
  dsimp only
  split
  · rfl
  · rw [h.length_div]
    have hperm := env.qsort_perm (mapSymbols mapsShndx symbols)
    cases hsorted : env.qsort (mapSymbols mapsShndx symbols) with
    | nil =>
      have hlength := hperm.length_eq
      rw [hsorted] at hlength
      exact absurd h.pos (by rw [← hlength]; decide)
    | cons s syms =>
      have hs : s ∈ mapSymbols mapsShndx symbols := by
        rw [← hperm.mem_iff, hsorted]
        exact List.mem_cons_self
      obtain ⟨name, hname⟩ := Option.isSome_iff_exists.mp (h.named s hs)
      have hcopy : copyMapDef dataMaps (KernelInt.intOfSize mapSz) s = .error .crash := by
        unfold copyMapDef
        rw [hname]
        exact if_pos (.inl hint)
      rw [List.mapM_cons, hcopy]
      rfl

/-! ## When the maps are read as intended -/

/-- The maps of certain symbols, in the order of their offsets, each with the first bytes of its
structure followed by zero bytes. -/
structure MapsRead (dataMaps : ElfData) (mapSz : ℕ) (syms : List MapSym)
    (maps : List BpfMapData) : Prop where
  length_eq : maps.length = syms.length
  sorted : maps.Pairwise fun m m' => m.elfOffset < m'.elfOffset
  copied : ∀ m ∈ maps, ∃ s ∈ syms, m.key = s.key ∧ some m.name = s.sym.stName ∧
    m.mapDef.toBytes = defBytes dataMaps s.sym.stValue (min mapSz sizeofBpfMapDef)

/-- **The section is read as intended**: it is refused with `-EFBIG` when a map has something behind
the known part of its structure, and otherwise the maps are read. -/
def SectionLoaded (env : Env) (mapsShndx : ℕ) (dataMaps symbols : ElfData) (mapSz : ℕ) : Prop :=
  if ∃ s ∈ mapSymbols mapsShndx symbols, s.NonzeroIn dataMaps sizeofBpfMapDef mapSz then
    loadElfMapsSection env mapsShndx dataMaps symbols = .error (.ret (-KernelInt.efbig))
  else
    ∃ maps, loadElfMapsSection env mapsShndx dataMaps symbols = .ok maps ∧
      MapsRead dataMaps mapSz (mapSymbols mapsShndx symbols) maps

/-- **When the size fits.** As an `int` it is not negative, and within it a map has something behind
the known part, or no map has anything behind what is copied. -/
def SizeFits (dataMaps : ElfData) (syms : List MapSym) (mapSz : ℕ) : Prop :=
  ∃ size : ℕ, KernelInt.intOfSize mapSz = size ∧
    ((∃ s ∈ syms, s.NonzeroIn dataMaps sizeofBpfMapDef size) ∨
      ∀ s ∈ syms, ¬ s.NonzeroIn dataMaps (min size sizeofBpfMapDef) mapSz)

/-- The maps that are copied are those of the symbols, if the bytes behind what is copied are
zero. -/
theorem MapsLayout.mapsRead_iff (h : MapsLayout mapsShndx dataMaps symbols mapSz) (env : Env)
    {size : ℕ} (hsize : size ≤ mapSz) :
    MapsRead dataMaps mapSz (mapSymbols mapsShndx symbols)
        ((env.qsort (mapSymbols mapsShndx symbols)).map
          (MapSym.copied dataMaps (min size sizeofBpfMapDef))) ↔
      ∀ s ∈ mapSymbols mapsShndx symbols,
        ¬ s.NonzeroIn dataMaps (min size sizeofBpfMapDef) (min mapSz sizeofBpfMapDef) := by
  have hperm := env.qsort_perm (mapSymbols mapsShndx symbols)
  have hbytes {s : MapSym} (hs : s ∈ mapSymbols mapsShndx symbols) :
      (s.copied dataMaps (min size sizeofBpfMapDef)).mapDef.toBytes =
        defBytes dataMaps s.sym.stValue (min size sizeofBpfMapDef) := by
    have := h.stValue_add_le hs
    exact toBytes_copied (by omega) (by omega)
  have hsame {s : MapSym} (hs : s ∈ mapSymbols mapsShndx symbols) :
      defBytes dataMaps s.sym.stValue (min size sizeofBpfMapDef) =
          defBytes dataMaps s.sym.stValue (min mapSz sizeofBpfMapDef) ↔
        ¬ s.NonzeroIn dataMaps (min size sizeofBpfMapDef) (min mapSz sizeofBpfMapDef) := by
    have := h.stValue_add_le hs
    exact defBytes_eq_defBytes_iff (by omega) (by omega) (by omega)
  constructor
  · rintro ⟨-, -, hcopied⟩ s hs
    obtain ⟨s', -, hkey, -, hdef⟩ := hcopied _ (List.mem_map_of_mem (hperm.mem_iff.mpr hs))
    have hvalue : s.sym.stValue = s'.sym.stValue := congrArg Prod.snd hkey
    rw [hbytes hs, ← hvalue] at hdef
    exact (hsame hs).mp hdef
  · intro hzero
    constructor
    case length_eq => rw [List.length_map, hperm.length_eq]
    case sorted =>
      have hnodup : (env.qsort (mapSymbols mapsShndx symbols)).Pairwise
          fun l r => l.sym.stValue ≠ r.sym.stValue :=
        List.pairwise_map.mp ((hperm.map _).nodup_iff.mpr h.nodup)
      exact List.pairwise_map.mpr (((env.qsort_sorted _).and hnodup).imp fun hlr =>
        lt_of_le_of_ne hlr.1 hlr.2)
    case copied =>
      intro m hm
      obtain ⟨s, hs, rfl⟩ := List.mem_map.mp hm
      rw [hperm.mem_iff] at hs
      refine ⟨s, hs, rfl, ?_, (hbytes hs).trans ((hsame hs).mpr (hzero s hs))⟩
      obtain ⟨name, hname⟩ := Option.isSome_iff_exists.mp (h.named s hs)
      rw [MapSym.copied, hname, Option.getD_some]

/-- **The section is read as intended exactly when the size fits.** -/
theorem sectionLoaded_iff (h : MapsLayout mapsShndx dataMaps symbols mapSz) (env : Env) :
    SectionLoaded env mapsShndx dataMaps symbols mapSz ↔
      SizeFits dataMaps (mapSymbols mapsShndx symbols) mapSz := by
  unfold SectionLoaded SizeFits
  by_cases hneg : KernelInt.intOfSize mapSz < 0
  · rw [h.load_eq_crash env hneg]
    refine iff_of_false ?_ fun ⟨size, hint, _⟩ => by omega
    split
    · simp
    · simp
  · obtain ⟨size, hint⟩ := Int.eq_ofNat_of_zero_le (not_lt.mp hneg)
    have hsize : size ≤ mapSz := by
      have := KernelInt.intOfSize_le mapSz
      omega
    have hfits : ∀ P : ℕ → Prop, (∃ size : ℕ, KernelInt.intOfSize mapSz = size ∧ P size) ↔
        P size := by
      intro P
      simp only [hint, Int.natCast_inj, exists_eq_left']
    rw [hfits, h.load_eq env hint]
    by_cases hseen : ∃ s ∈ mapSymbols mapsShndx symbols, s.NonzeroIn dataMaps sizeofBpfMapDef size
    · -- what is behind the known part is seen
      have hbehind : ∃ s ∈ mapSymbols mapsShndx symbols,
          s.NonzeroIn dataMaps sizeofBpfMapDef mapSz := by
        obtain ⟨s, hs, hne⟩ := hseen
        exact ⟨s, hs, hne.mono le_rfl hsize⟩
      simp [hseen, hbehind]
    · rw [if_neg hseen, or_iff_right hseen]
      by_cases hbehind : ∃ s ∈ mapSymbols mapsShndx symbols,
          s.NonzeroIn dataMaps sizeofBpfMapDef mapSz
      · -- something is behind the known part, and not seen
        rw [if_pos hbehind]
        refine iff_of_false (by simp) fun hzero => ?_
        obtain ⟨s, hs, hne⟩ := hbehind
        exact hzero s hs (hne.mono (min_le_right ..) le_rfl)
      · rw [if_neg hbehind]
        simp only [Except.ok.injEq, exists_eq_left']
        rw [h.mapsRead_iff env hsize]
        refine forall_congr' fun s => forall_congr' fun hs => not_congr ⟨?_, ?_⟩
        · exact fun hne => hne.mono le_rfl (min_le_left ..)
        · rintro ⟨k, hk, hlo, hne⟩
          have hlt : k < sizeofBpfMapDef := by
            by_contra hge
            exact hbehind ⟨s, hs, k, hk, not_lt.mp hge, hne⟩
          exact ⟨k, lt_min hk hlt, hlo, hne⟩

/-- A size below 2^31 fits. -/
theorem sizeFits_of_lt (dataMaps : ElfData) (syms : List MapSym) (hlt : mapSz < 2 ^ 31) :
    SizeFits dataMaps syms mapSz := by
  refine ⟨mapSz, KernelInt.intOfSize_of_lt hlt, ?_⟩
  by_cases hseen : ∃ s ∈ syms, s.NonzeroIn dataMaps sizeofBpfMapDef mapSz
  · exact .inl hseen
  · exact .inr fun s hs ⟨k, hk, hlo, hne⟩ => hseen ⟨s, hs, k, hk, by omega, hne⟩

end Layout

/-- The symbol table and the maps section of an object with two maps, in the order of their names
and not of their offsets. The structures have 28 bytes. -/
def twoMapSymbols : ElfData where
  dBuf := List.replicate 72 0
  rels := []
  syms := [⟨some [], 0, 0⟩, ⟨some "a".toList, 5, 28⟩, ⟨some "b".toList, 5, 0⟩]
  insns := []

/-- The maps section of the two maps: the second structure is zero. -/
def twoMaps : ElfData where
  dBuf := List.replicate 28 1 ++ List.replicate 28 0
  rels := []
  syms := []
  insns := []

/-- The object with two maps has the layout of 28 bytes for each. -/
theorem mapsLayout_twoMaps : MapsLayout 5 twoMaps twoMapSymbols 28 where
  pos := by decide
  le_maxMaps := by decide
  size := by decide
  nodup := by decide
  multiple := by decide
  named := by decide

/-- The section of the two maps. -/
theorem sectionLoaded_iff_twoMaps : SectionLoaded (.sample fun _ => 7) 5 twoMaps twoMapSymbols 28 ↔
    SizeFits twoMaps (mapSymbols 5 twoMapSymbols) 28 :=
  sectionLoaded_iff mapsLayout_twoMaps (.sample fun _ => 7)

/-- A maps section of zeroes. -/
def zeroMap (mapSz : ℕ) : ElfData where
  dBuf := List.replicate mapSz 0
  rels := []
  syms := []
  insns := []

/-- The symbol table of one map. -/
def oneMapSymbols : ElfData where
  dBuf := List.replicate 48 0
  rels := []
  syms := [⟨some [], 0, 0⟩, ⟨some "a".toList, 5, 0⟩]
  insns := []

/-- A single map of any size has the layout. -/
theorem mapsLayout_zeroMap (mapSz : ℕ) : MapsLayout 5 (zeroMap mapSz) oneMapSymbols mapSz where
  pos := by decide
  le_maxMaps := by decide
  size := by
    show (List.replicate mapSz (0 : UInt8)).length = 1 * mapSz
    rw [List.length_replicate, Nat.one_mul]
  nodup := by decide
  multiple := by
    intro s hs
    exact ⟨0, by decide, by rw [Nat.zero_mul]; revert s; decide⟩
  named := by decide

/-- **A structure of 2 GiB has a negative size**: its map is not read, though it is all zeroes. -/
theorem not_sectionLoaded_zeroMap :
    MapsLayout 5 (zeroMap (2 ^ 31)) oneMapSymbols (2 ^ 31) ∧
      ¬ SectionLoaded (.sample fun _ => 7) 5 (zeroMap (2 ^ 31)) oneMapSymbols (2 ^ 31) := by
  have hlayout := mapsLayout_zeroMap (2 ^ 31)
  refine ⟨hlayout, ?_⟩
  rw [SectionLoaded, hlayout.load_eq_crash _ (by decide)]
  split <;> simp

end BpfLoad
