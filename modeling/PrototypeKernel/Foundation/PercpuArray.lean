import Mathlib.Logic.Function.Basic
import Mathlib.Data.Nat.Notation

/-! # Per-CPU array maps

An array map with a value for each of `C` CPUs under each key below its size. A program in the
kernel finds the value of the CPU it runs on and changes it in place. User space finds and
overwrites the values of all CPUs, and only those of keys that exist. Values are the 8 bytes that an
array keeps for each CPU. -/

/-- The values under each key and for each CPU. -/
abbrev PercpuArray (n C : ℕ) := Fin n → Fin C → UInt64

namespace PercpuArray

variable {n C : ℕ}

/-- The element under a key, if the key is below the size. -/
def index (n : ℕ) (key : UInt32) : Option (Fin n) :=
  if h : key.toNat < n then some ⟨key.toNat, h⟩ else none

/-- The keys of the array are its indices. -/
theorem index_eq_some {key : UInt32} {i : Fin n} : index n key = some i ↔ key.toNat = i := by
  unfold index
  split
  · rw [Option.some.injEq, Fin.ext_iff]
  · rename_i h
    simp only [reduceCtorEq, false_iff]
    exact fun heq => h (heq ▸ i.isLt)

/-- A key is refused when it is no index. -/
theorem index_eq_none {key : UInt32} : index n key = none ↔ n ≤ key.toNat := by
  unfold index
  split <;> simp_all

/-- A lookup from user space. -/
def lookup (a : PercpuArray n C) (key : UInt32) : Option (Fin C → UInt64) := (index n key).map a

/-- An update from user space of a key that has to exist. -/
def update (a : PercpuArray n C) (key : UInt32) (values : Fin C → UInt64) :
    Option (PercpuArray n C) :=
  (index n key).map fun i => Function.update a i values

/-- A change in place of the value under the key of element `i`, by a program on CPU `cpu`. -/
def modify (a : PercpuArray n C) (i : Fin n) (cpu : Fin C) (f : UInt64 → UInt64) :
    PercpuArray n C :=
  Function.update a i (Function.update (a i) cpu (f (a i cpu)))

/-- The slot of the CPU is changed. -/
theorem modify_self (a : PercpuArray n C) (i : Fin n) (cpu : Fin C) (f : UInt64 → UInt64) :
    a.modify i cpu f i cpu = f (a i cpu) := by simp [modify]

/-- The other slots are left. -/
theorem modify_of_ne (a : PercpuArray n C) {i j : Fin n} {cpu cpu' : Fin C} (f : UInt64 → UInt64)
    (h : (j, cpu') ≠ (i, cpu)) : a.modify i cpu f j cpu' = a j cpu' := by
  unfold modify
  by_cases hj : j = i
  · have hcpu : cpu' ≠ cpu := fun heq => h (Prod.ext hj heq)
    rw [hj, Function.update_self, Function.update_of_ne hcpu]
  · rw [Function.update_of_ne hj]

/-- A program changes one value, and changes it if the operation does. -/
theorem modify_ne_iff (a : PercpuArray n C) (i j : Fin n) (cpu cpu' : Fin C)
    {f : UInt64 → UInt64} (hf : ∀ v, f v ≠ v) :
    a.modify i cpu f j cpu' ≠ a j cpu' ↔ (j, cpu') = (i, cpu) := by
  constructor
  · exact not_imp_comm.mp (a.modify_of_ne f)
  · rintro ⟨⟩
    rw [modify_self]
    exact hf _

end PercpuArray
