import PrototypeKernel.Foundation.Logged
import Mathlib.Algebra.Group.Nat.Defs

/-! # Loops over the keys of a map

A program that visits the elements of a map asks for the key after the one it has, until there is
none. Which keys it gets does not depend on what it does with them: `loop_eq_visitAll`. In an array
the next key is the next index. In a hash table the keys have an order, and from a key that is not
in the table on the visit begins with the first one. -/

namespace KeyLoop

universe u v

variable {κ : Type*} {next : κ → Option κ}

/-! ## The loop -/

section Loop

variable {κ σ : Type u} {m : Type u → Type v} [Monad m] {next : κ → Option κ}
  {body : κ → κ → σ → m σ} {out : m (κ × σ)}

/-- `while (get_next_key(&key, &next_key) == 0) { body; key = next_key; }`, with the key at the end.
The body has both keys, and `out` is what is left after `fuel` steps. -/
def loop (next : κ → Option κ) (body : κ → κ → σ → m σ) (out : m (κ × σ)) :
    ℕ → κ → σ → m (κ × σ)
  | 0, _, _ => out
  | fuel + 1, key, s =>
      match next key with
      | none => pure (key, s)
      | some nextKey => do
          let s ← body key nextKey s
          loop next body out fuel nextKey s

/-- The body for each of certain keys and the one before it. -/
def visitAll (body : κ → κ → σ → m σ) : κ → List κ → σ → m (κ × σ)
  | key, [], s => pure (key, s)
  | key, nextKey :: keys, s => do
      let s ← body key nextKey s
      visitAll body nextKey keys s

end Loop

/-- The keys after `key`, one after the other until there is none. -/
def Visits (next : κ → Option κ) : κ → List κ → Prop
  | key, [] => next key = none
  | key, nextKey :: keys => next key = some nextKey ∧ Visits next nextKey keys

/-- **The loop ends**, and visits the keys one after the other. -/
theorem loop_eq_visitAll {κ σ : Type u} {m : Type u → Type v} [Monad m] {next : κ → Option κ}
    {body : κ → κ → σ → m σ} {out : m (κ × σ)} {key : κ} {keys : List κ}
    (h : Visits next key keys) {fuel : ℕ} (hfuel : keys.length < fuel) (s : σ) :
    loop next body out fuel key s = visitAll body key keys s := by
  induction keys generalizing key fuel s with
  | nil =>
    obtain ⟨fuel, rfl⟩ := Nat.exists_eq_add_one_of_ne_zero (Nat.ne_of_gt hfuel)
    have hnone : next key = none := h
    rw [loop, hnone]
    rfl
  | cons nextKey keys ih =>
    obtain ⟨fuel, rfl⟩ := Nat.exists_eq_add_one_of_ne_zero (Nat.ne_zero_of_lt hfuel)
    obtain ⟨hnext, hrest⟩ := h
    rw [loop, hnext, visitAll]
    dsimp only
    congr 1
    funext s
    exact ih hrest (Nat.lt_of_succ_lt_succ hfuel) s

/-- **What a loop logs** with an invariant of its state. -/
theorem always_loop {κ σ : Type u} {ε : Type*} {ω : Type*} {P : ω → Prop} {next : κ → Option κ}
    {body : κ → κ → σ → Logged ε ω σ} {out : Logged ε ω (κ × σ)} {I : σ → Prop}
    (hout : out.Always P) (hbody : ∀ key nextKey s, I s → (body key nextKey s).Always P)
    (hkeep : ∀ key nextKey s s', I s → (body key nextKey s).result = .ok s' → I s') (fuel : ℕ)
    (key : κ) {s : σ} (hs : I s) : (loop next body out fuel key s).Always P := by
  induction fuel generalizing key s with
  | zero => exact hout
  | succ fuel ih =>
    rw [loop]
    split
    · exact Logged.always_pure _
    · rename_i nextKey _
      refine Logged.always_bind_iff.mpr ⟨hbody key nextKey s hs, fun s' hs' => ?_⟩
      exact ih nextKey (hkeep key nextKey s s' hs hs')

/-! ## Arrays -/

/-- The key after one in an array of `n` elements. -/
def arrayNext (n : ℕ) (key : UInt32) : Option UInt32 :=
  if n ≤ key.toNat then some 0 else if key.toNat + 1 = n then none else some (key + 1)

/-- **From a key in an array on, the larger ones are visited.** -/
theorem visits_array {n : ℕ} (hn : n ≤ 2 ^ 32) {k : ℕ} (hk : k < n) :
    Visits (arrayNext n) (.ofNat k) ((List.range' (k + 1) (n - 1 - k)).map UInt32.ofNat) := by
  have htoNat {k : ℕ} (hk : k < n) : (UInt32.ofNat k).toNat = k := by
    rw [UInt32.toNat_ofNat', Nat.mod_eq_of_lt (Nat.lt_of_lt_of_le hk hn)]
  obtain ⟨d, hd⟩ : ∃ d, n - 1 - k = d := ⟨_, rfl⟩
  rw [hd]
  induction d generalizing k with
  | zero =>
    have hlast : k + 1 = n := by omega
    show arrayNext n (.ofNat k) = none
    rw [arrayNext, htoNat hk, if_neg (by omega), if_pos hlast]
  | succ d ih =>
    rw [List.range'_succ, List.map_cons]
    constructor
    · rw [arrayNext, htoNat hk, if_neg (by omega), if_neg (by omega), UInt32.ofNat_add]
      rfl
    · exact ih (by omega) (by omega)

/-! ## Hash tables -/

variable [DecidableEq κ]

/-- The keys behind one of them, in their order. -/
def keysAfter (order : List κ) (key : κ) : List κ := (order.dropWhile (· ≠ key)).tail

/-- The key after one in a hash table: the one behind it, or the first one. -/
def hashNext (order : List κ) (key : κ) : Option κ :=
  if key ∈ order then (keysAfter order key).head? else order.head?

/-- The keys after the first occurrence of a key. -/
theorem keysAfter_append {pre post : List κ} {key : κ} (h : key ∉ pre) :
    keysAfter (pre ++ key :: post) key = post := by
  have hpre : (pre ++ key :: post).dropWhile (· ≠ key) = key :: post := by
    induction pre with
    | nil => simp
    | cons k pre ih =>
      rw [List.mem_cons, not_or] at h
      rw [List.cons_append, List.dropWhile_cons, if_pos (by simpa using Ne.symm h.1), ih h.2]
  rw [keysAfter, hpre, List.tail_cons]

omit [DecidableEq κ] in
/-- Without repetition a key is neither before nor behind itself. -/
theorem notMem_of_nodup {pre post : List κ} {key : κ} (h : (pre ++ key :: post).Nodup) :
    key ∉ pre ∧ key ∉ post := by
  obtain ⟨-, hpost, hne⟩ := List.nodup_append.mp h
  exact ⟨fun hmem => hne key hmem key List.mem_cons_self rfl, (List.nodup_cons.mp hpost).1⟩

/-- From a key on, the loop visits the keys behind it. -/
theorem visits_hash_append {pre post : List κ} {key : κ} (h : (pre ++ key :: post).Nodup) :
    Visits (hashNext (pre ++ key :: post)) key post := by
  have hafter : hashNext (pre ++ key :: post) key = post.head? := by
    rw [hashNext, if_pos (by simp), keysAfter_append (notMem_of_nodup h).1]
  induction post generalizing pre key with
  | nil => exact hafter
  | cons k post ih =>
    refine ⟨hafter, ?_⟩
    have hsplit : pre ++ key :: k :: post = (pre ++ [key]) ++ k :: post := by simp
    rw [hsplit] at h ⊢
    exact ih h (by rw [hashNext, if_pos (by simp), keysAfter_append (notMem_of_nodup h).1])

/-- **From a key in a hash table on, those behind it are visited.** -/
theorem visits_hash {order : List κ} (h : order.Nodup) {key : κ} (hkey : key ∈ order) :
    Visits (hashNext order) key (keysAfter order key) := by
  obtain ⟨pre, post, rfl⟩ := List.append_of_mem hkey
  rw [keysAfter_append (notMem_of_nodup h).1]
  exact visits_hash_append h

/-- A key is not behind itself. -/
theorem notMem_keysAfter {order : List κ} (h : order.Nodup) {key : κ} (hkey : key ∈ order) :
    key ∉ keysAfter order key := by
  obtain ⟨pre, post, rfl⟩ := List.append_of_mem hkey
  rw [keysAfter_append (notMem_of_nodup h).1]
  exact (notMem_of_nodup h).2

/-- **From a key that is not in the table on, all keys are visited.** -/
theorem visits_hash_of_notMem {order : List κ} (h : order.Nodup) {key : κ} (hkey : key ∉ order) :
    Visits (hashNext order) key order := by
  cases order with
  | nil => exact if_neg hkey
  | cons k post => exact ⟨if_neg hkey, visits_hash_append (show ([] ++ k :: post).Nodup from h)⟩

end KeyLoop
