import PrototypeKernel.DdosBlacklist.Faults
import PrototypeKernel.Foundation.CText
import PrototypeKernel.Foundation.Logged

/-! # The syscalls and the output of the command-line tool

What `xdp_ddos01_blacklist_cmdline.c` does is logged: the text on its standard output, and each
lookup and update with the buffer that it passes. The kernel copies 8 bytes for each possible CPU,
however long the buffer is, so a short buffer is the end of defined behaviour. Messages on the
standard error output, and those before an exit, are left out. -/

namespace DdosBlacklist

variable {C : ℕ}

/-! ## Output -/

/-- `xdp_proto_filter_names[]`. -/
def Filter.name : Filter → List Char
  | .tcp => "TCP".toList
  | .udp => "UDP".toList

/-- `inet_ntop()` of an address as it stands in memory. -/
def inetNtop (ip : UInt32) : List Char :=
  CText.digits (ip.toNat % 256) ++ '.' :: (CText.digits (ip.toNat / 256 % 256) ++
    '.' :: (CText.digits (ip.toNat / 65536 % 256) ++ '.' :: CText.digits (ip.toNat / 16777216)))

/-- The conversion `%d`. -/
def intText (n : ℤ) : List Char :=
  if n < 0 then '-' :: CText.digits n.natAbs else CText.digits n.natAbs

/-- A call of `printf()`. -/
inductive Print where
  | str (s : List Char)
  | ipv4 (ip : UInt32) (count : UInt64)
  | port (key : UInt32)
  | proto (f : Filter) (count : UInt64)
  deriving DecidableEq, Repr

/-- What is printed. -/
def Print.text : Print → List Char
  | .str s => s
  | .ipv4 ip count => "\n \"".toList ++ inetNtop ip ++ "\" : ".toList ++ CText.digits count.toNat
  | .port key => "\n \"".toList ++ intText key.toInt32.toInt ++ "\" : ".toList
  | .proto f count => "\n\t\"".toList ++ f.name ++ "\" : ".toList ++ CText.digits count.toNat

/-! ## Syscalls -/

/-- The files of the pinned maps. -/
inductive MapFile where
  | blacklist
  | verdict
  | portBlacklist
  | portBlacklistCount (f : Filter)
  deriving DecidableEq, Repr

/-- The map behind a file. -/
def Maps.find (m : Maps C) : MapFile → UInt32 → Option (Fin C → UInt64)
  | .blacklist, key => m.blacklist key
  | .verdict, key => m.verdictCnt.lookup key
  | .portBlacklist, key => m.portBlacklist.lookup key
  | .portBlacklistCount f, key => (m.dropCountByFproto f).lookup key

/-- A syscall on a per-CPU map: what a lookup found, with the buffer as the lookup leaves it, or the
buffer of an update. A buffer is the list of its slots of 8 bytes. -/
inductive Access (C : ℕ) where
  | lookup (file : MapFile) (key : UInt32) (found : Option (Fin C → UInt64)) (buffer : List UInt64)
  | update (file : MapFile) (key : UInt32) (buffer : List UInt64)

/-- **The buffer is long enough**, and a lookup leaves in it what it found. -/
def Access.Fits : Access C → Prop
  | .lookup _ _ found buffer =>
      C ≤ buffer.length ∧ ∀ values, found = some values → buffer.take C = List.ofFn values
  | .update _ _ buffer => C ≤ buffer.length

/-- What the tool does. A call of `blacklist_port_modify()` stands with the file of its
`countfd`. -/
inductive Act (C : ℕ) where
  | print (p : Print)
  | access (a : Access C)
  | portModify (c : Call) (countfd : Filter)

/-- How the tool stops early: it exits, its behaviour is undefined, or it has not come to an end
within the bound of a loop. -/
inductive ToolStop where
  | exit (code : ℤ)
  | crash
  | running
  deriving DecidableEq, Repr

/-- A part of the tool. -/
abbrev Tool (C : ℕ) := Logged ToolStop (Act C)

/-- What surrounds the tool: which files can be opened, the order of the keys of the blacklist, what
uninitialised memory holds, and the syscalls that fail. -/
structure Host where
  opens : MapFile → Bool
  order : List UInt32
  junk : UInt64
  ipFault : Option ℤ
  portFaults : Faults

/-- `printf()`. -/
def printf (p : Print) : Tool C Unit := Logged.write (.print p)

/-- The part of a buffer that a lookup has overwritten, and the rest of it. -/
def copyOut (values : Fin C → UInt64) (buffer : List UInt64) : List UInt64 :=
  (List.ofFn values).take buffer.length ++ buffer.drop C

/-- `bpf_map_lookup_elem()`: the buffer, or nothing when it fails. -/
def lookupElem (m : Maps C) (file : MapFile) (fault : Option ℤ) (key : UInt32)
    (buffer : List UInt64) : Tool C (Option (List UInt64)) :=
  match attempt fault KernelInt.enoent (m.find file key) with
  | .error _ => do
      Logged.write (.access (.lookup file key none buffer))
      return none
  | .ok values => do
      Logged.write (.access (.lookup file key (some values) (copyOut values buffer)))
      if buffer.length < C then Logged.stop .crash else return some (copyOut values buffer)

/-- `bpf_map_update_elem()`: the values that the kernel gets. -/
def updateElem (file : MapFile) (key : UInt32) (buffer : List UInt64) :
    Tool C (Fin C → UInt64) := do
  Logged.write (.access (.update file key buffer))
  if h : C ≤ buffer.length then return fun cpu => buffer[cpu] else Logged.stop .crash

/-- `open_bpf_map()`. -/
def openBpfMap (host : Host) (file : MapFile) : Tool C Unit :=
  if host.opens file then pure () else Logged.stop (.exit exitFailMapFile)

/-- `get_key32_value64_percpu()`. -/
def getKey32Value64Percpu (host : Host) (m : Maps C) (file : MapFile) (key : UInt32) :
    Tool C UInt64 := do
  let nrCpus := C
  match ← lookupElem m file none key (List.replicate nrCpus host.junk) with
  | none => return 0
  | some values => return (values.take nrCpus).foldl (· + ·) 0

/-! ## What is logged -/

/-- The output of an act. -/
def Act.printed : Act C → Option Print
  | .print p => some p
  | _ => none

/-- The output of a part of the tool. -/
def prints {α : Type} (x : Tool C α) : List Print := x.log.filterMap Act.printed

/-- The buffer is long enough, if the act is a syscall. -/
def Act.Fits : Act C → Prop
  | .access a => a.Fits
  | _ => True

/-- A print, or a syscall with a buffer that is long enough. -/
def Act.Quiet : Act C → Prop
  | .print _ => True
  | .access a => a.Fits
  | .portModify .. => False

/-- A quiet access fits in its buffer. -/
theorem Act.Quiet.fits {a : Act C} (h : a.Quiet) : a.Fits := by
  cases a with
  | print | portModify => trivial
  | access a => exact h

/-! ## Buffers that are long enough -/

/-- A buffer of the right size is overwritten. -/
theorem copyOut_eq {values : Fin C → UInt64} {buffer : List UInt64} (h : buffer.length = C) :
    copyOut values buffer = List.ofFn values := by
  rw [copyOut, h, List.take_of_length_le (Nat.le_of_eq List.length_ofFn),
    List.drop_of_length_le (by omega), List.append_nil]

/-- The values of the CPUs are at the start of a buffer that has room for them. -/
theorem take_copyOut (values : Fin C → UInt64) {buffer : List UInt64} (h : C ≤ buffer.length) :
    (copyOut values buffer).take C = List.ofFn values := by
  have hvalues : (List.ofFn values).length = C := List.length_ofFn
  have hcopied : (List.ofFn values).take buffer.length = List.ofFn values :=
    List.take_of_length_le (Nat.le_trans (Nat.le_of_eq hvalues) h)
  rw [copyOut, hcopied, List.take_left' hvalues]

/-- A buffer that has room for the values still has it. -/
theorem le_length_copyOut (values : Fin C → UInt64) {buffer : List UInt64}
    (h : C ≤ buffer.length) : C ≤ (copyOut values buffer).length := by
  rw [copyOut, List.length_append, List.length_take, List.length_ofFn]
  omega

/-- **A lookup with a slot for each CPU** fits, and the buffer is long enough as before. -/
theorem exists_lookupElem (m : Maps C) (file : MapFile) (fault : Option ℤ) (key : UInt32)
    {buffer : List UInt64} (h : C ≤ buffer.length) :
    ∃ a, a.Fits ∧ lookupElem m file fault key buffer = ⟨[.access a], .ok
      ((attempt fault KernelInt.enoent (m.find file key)).toOption.map (copyOut · buffer))⟩ := by
  unfold lookupElem
  cases hattempt : attempt fault KernelInt.enoent (m.find file key) with
  | error errno => exact ⟨.lookup file key none buffer, ⟨h, nofun⟩, rfl⟩
  | ok values =>
    refine ⟨.lookup file key (some values) (copyOut values buffer),
      ⟨le_length_copyOut values h, ?_⟩, ?_⟩
    · rintro _ ⟨⟩
      exact take_copyOut values h
    · dsimp only
      rw [if_neg (Nat.not_lt.mpr h)]
      rfl

/-- A lookup with one slot for each CPU. -/
theorem lookupElem_eq (m : Maps C) (file : MapFile) (key : UInt32) {buffer : List UInt64}
    (h : buffer.length = C) {values : Fin C → UInt64} (hfind : m.find file key = some values) :
    lookupElem m file none key buffer =
      ⟨[.access (.lookup file key (some values) (List.ofFn values))],
        .ok (some (List.ofFn values))⟩ := by
  rw [lookupElem, hfind, attempt]
  dsimp only
  rw [copyOut_eq h, if_neg (by omega)]
  rfl

/-- An update with one slot for each CPU. -/
theorem updateElem_ofFn (file : MapFile) (key : UInt32) (values : Fin C → UInt64) :
    updateElem file key (List.ofFn values) =
      ⟨[.access (.update file key (List.ofFn values))], .ok values⟩ := by
  have hlength : C ≤ (List.ofFn values).length := Nat.le_of_eq List.length_ofFn.symm
  have hvalues : (fun cpu : Fin C => (List.ofFn values)[cpu]) = values := by
    funext cpu
    simp
  rw [updateElem, dif_pos hlength, hvalues]
  rfl

/-- **What the tool logs** of an update with one slot for each CPU. -/
theorem quiet_updateElem (file : MapFile) (key : UInt32) (values : Fin C → UInt64) :
    (updateElem (C := C) file key (List.ofFn values)).Always Act.Quiet := by
  rw [updateElem_ofFn]
  intro a ha
  obtain rfl := List.mem_singleton.mp ha
  exact Nat.le_of_eq List.length_ofFn.symm

/-- A lookup into a buffer with room for all CPUs is quiet. -/
theorem quiet_lookupElem (m : Maps C) (file : MapFile) (fault : Option ℤ) (key : UInt32)
    {buffer : List UInt64} (h : C ≤ buffer.length) :
    (lookupElem m file fault key buffer).Always Act.Quiet := by
  obtain ⟨a, hfits, hlookup⟩ := exists_lookupElem m file fault key h
  rw [hlookup]
  intro b hb
  obtain rfl := List.mem_singleton.mp hb
  exact hfits

/-- Behind a lookup the buffer is long enough as before. -/
theorem le_length_of_lookupElem {m : Maps C} {file : MapFile} {fault : Option ℤ} {key : UInt32}
    {buffer : List UInt64} (h : C ≤ buffer.length) {found : Option (List UInt64)}
    (hfound : (lookupElem m file fault key buffer).result = .ok found) :
    C ≤ (found.getD buffer).length := by
  obtain ⟨a, -, hlookup⟩ := exists_lookupElem m file fault key h
  rw [hlookup] at hfound
  cases hfound
  cases attempt fault KernelInt.enoent (m.find file key) with
  | error errno => exact h
  | ok values => exact le_length_copyOut values h

/-- Printing is quiet. -/
theorem quiet_printf (p : Print) : (printf p : Tool C Unit).Always Act.Quiet :=
  Logged.always_write.mpr trivial

/-- Opening a map does no access. -/
theorem always_openBpfMap {P : Act C → Prop} (host : Host) (file : MapFile) :
    (openBpfMap host file).Always P := by
  unfold openBpfMap
  split
  · exact Logged.always_pure _
  · exact Logged.always_stop _

/-- A map is opened when its file is there. -/
theorem result_openBpfMap {host : Host} {file : MapFile} {u : Unit} :
    (openBpfMap (C := C) host file).result = .ok u ↔ host.opens file := by
  unfold openBpfMap
  split
  · rename_i hopens
    exact iff_of_true rfl hopens
  · rename_i hopens
    exact iff_of_false nofun hopens

/-- Opening a map whose file is there has no effect. -/
theorem openBpfMap_of_opens {host : Host} {file : MapFile} (h : host.opens file) :
    openBpfMap (C := C) host file = pure () := if_pos h

/-- Reading a counter is quiet. -/
theorem quiet_getKey32Value64Percpu (host : Host) (m : Maps C) (file : MapFile) (key : UInt32) :
    (getKey32Value64Percpu host m file key).Always Act.Quiet := by
  refine (quiet_lookupElem m file none key (by simp)).bind fun found => ?_
  cases found with
  | none => exact Logged.always_pure _
  | some values => exact Logged.always_pure _

end DdosBlacklist
