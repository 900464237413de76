import PrototypeKernel.Foundation.BinarySearch
import PrototypeKernel.Foundation.CBuffer
import PrototypeKernel.Foundation.CText
import PrototypeKernel.Foundation.KernelInt

/-! # The kernel symbols of the loader

`load_kallsyms()` reads the symbols of the kernel into a table and sorts it with `qsort()`, and
`ksym_search()` looks an address up by bisection. Both compare two addresses by their difference as
an `int`, which has the low 32 bits of it only. -/

namespace BpfLoad

open CText KernelInt Qsort BinarySearch

/-- `struct ksym`. -/
structure Ksym where
  addr : Int64
  name : List Char
  deriving DecidableEq, Repr

/-- `MAX_SYMS`. -/
def maxSyms : ℕ := 300000

/-- `ksym_cmp()`. -/
def ksymCmp (p1 p2 : Ksym) : Int32 := (p1.addr - p2.addr).toInt32

/-! ## Loading the symbols -/

/-- `sscanf(buf, "%p %c %s", ..)` with all of its conversions. -/
def scanKsym (buf : List Char) : Option (UInt64 × Char × List Char) := do
  let (addr, s) ← scanPointer (CBuffer.cstr buf)
  let (symbol, s) ← (s.dropWhile isSpace).head?.map fun c => (c, (s.dropWhile isSpace).tail)
  let func := (s.dropWhile isSpace).takeWhile fun c => !isSpace c
  if func.isEmpty then none else some (addr, symbol, func)

/-- The symbols that the loop stores from the lines that are left. -/
def storeSyms : List (List Char) → List Ksym
  | [] => []
  | buf :: bufs =>
      match scanKsym buf with
      | none => []
      | some (addr, _, func) =>
          if addr = 0 then storeSyms bufs else ⟨addr.toInt64, func⟩ :: storeSyms bufs

/-- The symbols that are stored from the text of `/proc/kallsyms`. -/
def storedSyms (kallsyms : List Char) : List Ksym := storeSyms (fgetsAll 255 kallsyms)

/-- `load_kallsyms()`, for the text of `/proc/kallsyms` or none: the returned value, and the first
`sym_cnt` entries of `syms` afterwards. -/
inductive LoadKallsyms : Option (List Char) → ℤ → List Ksym → Prop
  | missing : LoadKallsyms none (-enoent) []
  | loaded {kallsyms : List Char} {t : List Ksym} (hmax : (storedSyms kallsyms).length ≤ maxSyms)
      (hsort : Leaves (fun a b => (ksymCmp a b).toInt) (storedSyms kallsyms) t) :
      LoadKallsyms (some kallsyms) 0 t

/-! ## Searching the table -/

/-- The entry `syms[i]` of an array whose first entries are `t`: the other entries are zero, and the
error is a place outside the array. -/
def symAt (t : List Ksym) (i : ℕ) : Except ℕ Ksym :=
  if i < maxSyms then .ok (t.getD i ⟨0, []⟩) else .error i

/-- `int result = key - syms[mid].addr`. -/
def keyResult (key : Int64) (s : Ksym) : Int32 := (key - s.addr).toInt32

/-- The window of the search, and the places that have been read. -/
structure Search where
  start : ℕ
  stop : ℕ
  reads : List ℕ

/-- The body of the loop. It leaves with a fault, or with the places that were read and the place of
the symbol. -/
def searchStep (t : List Ksym) (key : Int64) (s : Search) :
    Except (Except ℕ (List ℕ × ℕ)) Search :=
  let i := mid s.start s.stop
  match symAt t i with
  | .error place => .error (.error place)
  | .ok sym =>
    let result := keyResult key sym
    if result < 0 then .ok { s with stop := i, reads := s.reads ++ [i] }
    else if result > 0 then .ok { s with start := i + 1, reads := s.reads ++ [i] }
    else .error (.ok (s.reads ++ [i], i))

/-- What follows the loop. -/
def searchEnd (t : List Ksym) (key : Int64) (s : Search) : Except ℕ (List ℕ × ℕ) :=
  if 1 ≤ s.start then do
    let before ← symAt t (s.start - 1)
    if before.addr < key then do
      let next ← symAt t s.start
      let reads := s.reads ++ [s.start - 1, s.start]
      return if key < next.addr then (reads, s.start - 1) else (reads, 0)
    else return (s.reads ++ [s.start - 1], 0)
  else return (s.reads, 0)

/-- The loop of `ksym_search()`. -/
def searchLoop (fuel : ℕ) (t : List Ksym) (key : Int64) :
    Option (Except (Except ℕ (List ℕ × ℕ)) Search) :=
  WhileLoop.run (fun s => decide (s.start < s.stop)) (searchStep t key) fuel ⟨0, t.length, []⟩

/-- `ksym_search()`: the places of `syms` that it reads, and the place of the symbol that it
returns. The error is a place outside the array. -/
def ksymSearch (fuel : ℕ) (t : List Ksym) (key : Int64) : Option (Except ℕ (List ℕ × ℕ)) :=
  (searchLoop fuel t key).map fun
    | .error r => r
    | .ok s => searchEnd t key s

end BpfLoad
