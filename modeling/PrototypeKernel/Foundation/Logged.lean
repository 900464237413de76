import Mathlib.Data.List.Basic
import Mathlib.Tactic.TypeStar

/-! # Programs that keep a log

A program that appends what it does to a log and ends with a result or stops with an error. The
rules are those for a property of all entries of the log. -/

universe u v w

/-- A run of a program: its log, and how it ended. -/
structure Logged (ε : Type u) (ω : Type v) (α : Type w) where
  log : List ω
  result : Except ε α

namespace Logged

variable {ε : Type u} {ω : Type v} {α β : Type w} {P : ω → Prop}

instance : Monad (Logged ε ω : Type w → Type (max u v w)) where
  pure a := ⟨[], .ok a⟩
  bind x f :=
    match x.result with
    | .error e => ⟨x.log, .error e⟩
    | .ok a => ⟨x.log ++ (f a).log, (f a).result⟩

/-- Append an entry to the log. -/
def write (e : ω) : Logged ε ω PUnit := ⟨[e], .ok ⟨⟩⟩

/-- Stop the program. -/
def stop (e : ε) : Logged ε ω α := ⟨[], .error e⟩

/-- A result is given without a log. -/
@[simp] theorem log_pure (a : α) : (pure a : Logged ε ω α).log = [] := rfl

/-- A result is given. -/
@[simp] theorem result_pure (a : α) : (pure a : Logged ε ω α).result = .ok a := rfl

/-- A result is passed on. -/
@[simp] theorem pure_bind (a : α) (f : α → Logged ε ω β) : pure a >>= f = f a := rfl

/-- A result is passed on behind its log. -/
@[simp] theorem ok_bind (log : List ω) (a : α) (f : α → Logged ε ω β) :
    (⟨log, .ok a⟩ : Logged ε ω α) >>= f = ⟨log ++ (f a).log, (f a).result⟩ := rfl

/-- An error stops the program. -/
@[simp] theorem error_bind (log : List ω) (e : ε) (f : α → Logged ε ω β) :
    (⟨log, .error e⟩ : Logged ε ω α) >>= f = ⟨log, .error e⟩ := rfl

/-- Logging does not change the result. -/
theorem result_write_bind (e : ω) (f : PUnit → Logged ε ω β) :
    (write e >>= f).result = (f ⟨⟩).result := rfl

/-- A sequence ends with a result when both of its parts do. -/
theorem result_bind_eq_ok {x : Logged ε ω α} {f : α → Logged ε ω β} {b : β} :
    (x >>= f).result = .ok b ↔ ∃ a, x.result = .ok a ∧ (f a).result = .ok b := by
  obtain ⟨log, result⟩ := x
  cases result with
  | error e => simp
  | ok a => simp

/-- Behind a result the second part decides. -/
theorem result_bind_of_ok {x : Logged ε ω α} {a : α} (h : x.result = .ok a)
    (f : α → Logged ε ω β) : (x >>= f).result = (f a).result := by
  obtain ⟨log, result⟩ := x
  obtain rfl : result = .ok a := h
  rfl

/-- Behind an error there is no second part. -/
theorem result_bind_of_error {x : Logged ε ω α} {e : ε} (h : x.result = .error e)
    (f : α → Logged ε ω β) : (x >>= f).result = .error e := by
  obtain ⟨log, result⟩ := x
  obtain rfl : result = .error e := h
  rfl

/-- Programs are run one after the other. -/
theorem bind_assoc {γ : Type w} (x : Logged ε ω α) (f : α → Logged ε ω β)
    (g : β → Logged ε ω γ) : x >>= f >>= g = x >>= fun a => f a >>= g := by
  obtain ⟨log, result⟩ := x
  cases result with
  | error e => rfl
  | ok a =>
    rw [ok_bind, ok_bind]
    obtain ⟨log', result'⟩ := f a
    cases result' with
    | error e => rfl
    | ok b => simp [List.append_assoc]

/-- The identity changes no result. -/
theorem id_map (x : Logged ε ω α) : id <$> x = x := by
  obtain ⟨log, result⟩ := x
  cases result with
  | error e => rfl
  | ok a =>
    show (⟨log ++ [], .ok a⟩ : Logged ε ω α) = ⟨log, .ok a⟩
    rw [List.append_nil]

instance : LawfulMonad (Logged ε ω : Type w → Type (max u v w)) :=
  LawfulMonad.mk' _ id_map (fun _ _ => rfl) bind_assoc

/-- What a sequence logs. -/
theorem mem_log_bind {x : Logged ε ω α} {f : α → Logged ε ω β} {e : ω} :
    e ∈ (x >>= f).log ↔ e ∈ x.log ∨ ∃ a, x.result = .ok a ∧ e ∈ (f a).log := by
  obtain ⟨log, result⟩ := x
  cases result with
  | error err => simp
  | ok a => simp

/-! ## Properties of all entries -/

/-- All entries of the log have a property. -/
def Always (P : ω → Prop) (x : Logged ε ω α) : Prop := ∀ e ∈ x.log, P e

/-- A result logs nothing. -/
theorem always_pure (a : α) : (pure a : Logged ε ω α).Always P := nofun

/-- An error logs nothing. -/
theorem always_stop (e : ε) : (stop e : Logged ε ω α).Always P := nofun

/-- An entry of the log has the property. -/
theorem always_write {e : ω} : (write e : Logged ε ω PUnit).Always P ↔ P e := by
  simp [Always, write]

/-- **The rule of a sequence**: the second part counts only when the first one has a result. -/
theorem always_bind_iff {x : Logged ε ω α} {f : α → Logged ε ω β} :
    (x >>= f).Always P ↔ x.Always P ∧ ∀ a, x.result = .ok a → (f a).Always P := by
  obtain ⟨log, result⟩ := x
  cases result with
  | error e => simp [Always]
  | ok a => simp [Always, or_imp, forall_and]

/-- The entries of two programs have the property. -/
theorem Always.bind {x : Logged ε ω α} {f : α → Logged ε ω β} (hx : x.Always P)
    (hf : ∀ a, (f a).Always P) : (x >>= f).Always P :=
  always_bind_iff.mpr ⟨hx, fun a _ => hf a⟩

/-- The entries have a weaker property. -/
theorem Always.mono {Q : ω → Prop} {x : Logged ε ω α} (hx : x.Always P) (h : ∀ e, P e → Q e) :
    x.Always Q := fun e he => h e (hx e he)

/-- The entries of a loop have the property of its rounds. -/
theorem always_mapM {γ : Type*} {f : γ → Logged ε ω β} (hf : ∀ c, (f c).Always P) (l : List γ) :
    (l.mapM f).Always P := by
  induction l with
  | nil => exact always_pure _
  | cons c l ih =>
    rw [List.mapM_cons]
    exact (hf c).bind fun b => ih.bind fun bs => always_pure _

/-- The entries of a loop without results have the property of its rounds. -/
theorem always_forM {γ : Type*} {f : γ → Logged ε ω PUnit} (hf : ∀ c, (f c).Always P)
    (l : List γ) : (l.forM f).Always P := by
  induction l with
  | nil => exact always_pure _
  | cons c l ih => exact (hf c).bind fun _ => ih

/-- The entries of a loop with a state have the property of its rounds. -/
theorem always_foldlM {γ : Type*} {f : β → γ → Logged ε ω β} (hf : ∀ b c, (f b c).Always P)
    (l : List γ) (b : β) : (l.foldlM f b).Always P := by
  induction l generalizing b with
  | nil => exact always_pure _
  | cons c l ih =>
    rw [List.foldlM_cons]
    exact (hf b c).bind fun b' => ih b'

/-! ## Runs without an error -/

/-- All entries of the log have a property, and the program ends with a result. -/
def Completes (P : ω → Prop) (x : Logged ε ω α) : Prop := x.Always P ∧ ∃ a, x.result = .ok a

/-- A result completes. -/
theorem completes_pure (a : α) : (pure a : Logged ε ω α).Completes P := ⟨always_pure a, a, rfl⟩

/-- An error does not complete. -/
theorem not_completes_stop (e : ε) : ¬ (stop e : Logged ε ω α).Completes P := nofun

/-- Logging completes when the entry has the property. -/
theorem completes_write {e : ω} : (write e : Logged ε ω PUnit).Completes P ↔ P e :=
  (and_iff_left ⟨_, rfl⟩).trans always_write

/-- A sequence completes when both of its parts do. -/
theorem completes_bind_iff {x : Logged ε ω α} {f : α → Logged ε ω β} :
    (x >>= f).Completes P ↔ x.Completes P ∧ ∀ a, x.result = .ok a → (f a).Completes P := by
  obtain ⟨log, result⟩ := x
  cases result with
  | error e => simp [Completes, Always]
  | ok a => simp [Completes, Always, or_imp, forall_and, and_assoc]

end Logged
