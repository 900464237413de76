import Mathlib.Data.List.Forall2
import Mathlib.Tactic.TypeStar

/-! # Loops that can fail

A loop of a C function is a fold over the list of its indices, in `Except` where an access can
fail. The rules below carry an invariant that may mention the indices already visited. -/

namespace ForLoop

universe u

variable {ε σ ρ : Type*} {α β : Type u}

/-- A sequence ends well when both of its parts do. -/
theorem bind_eq_ok {x : Except ε α} {f : α → Except ε β} {b : β} :
    (x >>= f) = .ok b ↔ ∃ a, x = .ok a ∧ f a = .ok b := by
  constructor
  · intro h
    cases x with
    | error e => cases h
    | ok a => exact ⟨a, rfl, h⟩
  · rintro ⟨a, rfl, h⟩
    exact h

/-- What is true after the indices `done`, and kept by the next one, is true after the loop. -/
theorem foldlM_from {f : σ → α → Except ε σ} {P : List α → σ → Prop} (done xs : List α) {s s' : σ}
    (hloop : xs.foldlM f s = .ok s') (h : P done s)
    (hstep : ∀ done x s s', x ∈ xs → P done s → f s x = .ok s' → P (done ++ [x]) s') :
    P (done ++ xs) s' := by
  induction xs generalizing done s with
  | nil =>
    cases hloop
    rwa [List.append_nil]
  | cons x xs ih =>
    rw [List.foldlM_cons] at hloop
    obtain ⟨s₁, hx, hxs⟩ := bind_eq_ok.mp hloop
    have hnext := ih (done ++ [x]) hxs (hstep done x s s₁ List.mem_cons_self h hx)
      fun done y s s' hy => hstep done y s s' (List.mem_cons_of_mem x hy)
    rwa [List.append_assoc] at hnext

/-- **The loop rule**: an invariant of the visited indices holds of all of them at the end. -/
theorem foldlM_rule {f : σ → α → Except ε σ} {P : List α → σ → Prop} {xs : List α} {s s' : σ}
    (hloop : xs.foldlM f s = .ok s') (h : P [] s)
    (hstep : ∀ done x s s', x ∈ xs → P done s → f s x = .ok s' → P (done ++ [x]) s') : P xs s' :=
  foldlM_from [] xs hloop h hstep

/-- A loop of which each index stops it or does not, whatever the state. -/
theorem foldlM_of_stop {f : σ → α → Except ε σ} {stop : α → Option ε} {xs : List α}
    (hok : ∀ s, ∀ x ∈ xs, stop x = none → ∃ s', f s x = .ok s')
    (hstop : ∀ s, ∀ x ∈ xs, ∀ e, stop x = some e → f s x = .error e) (s : σ) :
    (∃ s', xs.foldlM f s = .ok s' ∧ xs.findSome? stop = none) ∨
      ∃ e, xs.foldlM f s = .error e ∧ xs.findSome? stop = some e := by
  induction xs generalizing s with
  | nil => exact .inl ⟨s, rfl, rfl⟩
  | cons x xs ih =>
    rw [List.foldlM_cons, List.findSome?_cons]
    cases hx : stop x with
    | none =>
      obtain ⟨s', hs'⟩ := hok s x List.mem_cons_self hx
      rw [hs']
      exact ih (fun s y hy => hok s y (List.mem_cons_of_mem x hy))
        (fun s y hy => hstop s y (List.mem_cons_of_mem x hy)) s'
    | some e =>
      rw [hstop s x List.mem_cons_self e hx]
      exact .inr ⟨e, rfl, rfl⟩

/-- A loop whose indices are all accepted, in every state, does what `R` says of one of them. -/
theorem exists_foldlM_of_accepted {f : σ → α → Except ε σ} {Accepted : α → Prop}
    {R : σ → List α → σ → Prop} (hnil : ∀ s, R s [] s)
    (happend : ∀ s xs s₁ ys s₂, R s xs s₁ → R s₁ ys s₂ → R s (xs ++ ys) s₂)
    (hstep : ∀ s x, Accepted x → ∃ s', f s x = .ok s' ∧ R s [x] s') {xs : List α}
    (h : ∀ x ∈ xs, Accepted x) (s : σ) : ∃ s', xs.foldlM f s = .ok s' ∧ R s xs s' := by
  induction xs generalizing s with
  | nil => exact ⟨s, rfl, hnil s⟩
  | cons x xs ih =>
    obtain ⟨hx, hxs⟩ := List.forall_mem_cons.mp h
    obtain ⟨s₁, hs₁, hR⟩ := hstep s x hx
    obtain ⟨s', hs', hR'⟩ := ih hxs s₁
    refine ⟨s', ?_, happend s [x] s₁ xs s' hR hR'⟩
    rw [List.foldlM_cons, hs₁]
    exact hs'

/-- A loop stops at an index that is not accepted. -/
theorem foldlM_of_not_accepted {f : σ → α → Except ε σ} {Accepted : α → Prop} {e : ε}
    (hok : ∀ s x, Accepted x → ∃ s', f s x = .ok s')
    (herror : ∀ s x, ¬ Accepted x → f s x = .error e) {xs : List α}
    (h : ¬ ∀ x ∈ xs, Accepted x) (s : σ) : xs.foldlM f s = .error e := by
  induction xs generalizing s with
  | nil => exact absurd nofun h
  | cons x xs ih =>
    rw [List.foldlM_cons]
    by_cases hx : Accepted x
    · obtain ⟨s₁, hs₁⟩ := hok s x hx
      rw [hs₁]
      exact ih (fun hxs => h (List.forall_mem_cons.mpr ⟨hx, hxs⟩)) s₁
    · rw [herror s x hx]
      rfl

/-! ## Loops with a `return` in the body -/

/-- Run the body for each index until it returns from the function. -/
def forReturn (body : σ → α → Except ε (Option ρ × σ)) : List α → σ → Except ε (Option ρ × σ)
  | [], s => .ok (none, s)
  | x :: xs, s =>
    match body s x with
    | .error e => .error e
    | .ok (some r, s) => .ok (some r, s)
    | .ok (none, s) => forReturn body xs s

/-- The loop rule, from the indices `done` on: `P` is what holds as long as the body does not
return, `Q` what holds when it does. -/
theorem forReturn_from {body : σ → α → Except ε (Option ρ × σ)} {P : List α → σ → Prop}
    {Q : σ → Prop} (done xs : List α) {s s' : σ} {r : Option ρ}
    (hloop : forReturn body xs s = .ok (r, s')) (h : P done s)
    (hnext : ∀ done x s s', x ∈ xs → P done s → body s x = .ok (none, s') → P (done ++ [x]) s')
    (hret : ∀ done x s r s', x ∈ xs → P done s → body s x = .ok (some r, s') → Q s') :
    (r = none ∧ P (done ++ xs) s') ∨ (r ≠ none ∧ Q s') := by
  induction xs generalizing done s with
  | nil =>
    cases hloop
    rw [List.append_nil]
    exact .inl ⟨rfl, h⟩
  | cons x xs ih =>
    rw [forReturn] at hloop
    split at hloop
    · cases hloop
    · rename_i r₁ s₁ hx
      cases hloop
      exact .inr ⟨Option.some_ne_none r₁, hret done x s r₁ _ List.mem_cons_self h hx⟩
    · rename_i s₁ hx
      have hrest := ih (done ++ [x]) hloop (hnext done x s s₁ List.mem_cons_self h hx)
        (fun done y s s' hy => hnext done y s s' (List.mem_cons_of_mem x hy))
        (fun done y s r s' hy => hret done y s r s' (List.mem_cons_of_mem x hy))
      rwa [List.append_assoc] at hrest

/-- **The rule of a loop with a `return`.** -/
theorem forReturn_rule {body : σ → α → Except ε (Option ρ × σ)} {P : List α → σ → Prop}
    {Q : σ → Prop} {xs : List α} {s s' : σ} {r : Option ρ}
    (hloop : forReturn body xs s = .ok (r, s')) (h : P [] s)
    (hnext : ∀ done x s s', x ∈ xs → P done s → body s x = .ok (none, s') → P (done ++ [x]) s')
    (hret : ∀ done x s r s', x ∈ xs → P done s → body s x = .ok (some r, s') → Q s') :
    (r = none ∧ P xs s') ∨ (r ≠ none ∧ Q s') :=
  forReturn_from [] xs hloop h hnext hret

/-! ## Loops that fill an array -/

/-- A loop that computes one entry for each index succeeds when every index does. -/
theorem mapM_eq_ok {f : α → Except ε β} {xs : List α} {ys : List β} :
    xs.mapM f = .ok ys ↔ List.Forall₂ (fun x y => f x = .ok y) xs ys := by
  induction xs generalizing ys with
  | nil =>
    rw [List.mapM_nil, List.forall₂_nil_left_iff]
    exact ⟨fun h => by cases h; rfl, fun h => by rw [h]; rfl⟩
  | cons x xs ih =>
    rw [List.mapM_cons, bind_eq_ok, List.forall₂_cons_left_iff]
    constructor
    · rintro ⟨y, hy, hrest⟩
      obtain ⟨ys', hys, hpure⟩ := bind_eq_ok.mp hrest
      cases hpure
      exact ⟨y, ys', hy, ih.mp hys, rfl⟩
    · rintro ⟨y, ys', hy, hys, rfl⟩
      exact ⟨y, hy, bind_eq_ok.mpr ⟨ys', ih.mpr hys, rfl⟩⟩

/-- What each entry keeps of its index, the array keeps of the list. -/
theorem map_eq_of_mapM {γ : Type*} {f : α → Except ε β} {g : β → γ} {k : α → γ} {xs : List α}
    {ys : List β} (h : xs.mapM f = .ok ys) (hkeep : ∀ x y, f x = .ok y → g y = k x) :
    ys.map g = xs.map k := by
  induction mapM_eq_ok.mp h with
  | nil => rfl
  | cons hy hys ih => rw [List.map_cons, List.map_cons, hkeep _ _ hy, ih (mapM_eq_ok.mpr hys)]

/-- A loop of which each index fails in the same way or gives its entry. -/
theorem mapM_ite {f : α → Except ε β} {p : α → Prop} [DecidablePred p] {e : ε} {g : α → β}
    {xs : List α} (h : ∀ x ∈ xs, f x = if p x then .error e else .ok (g x)) :
    xs.mapM f = if ∃ x ∈ xs, p x then .error e else .ok (xs.map g) := by
  induction xs with
  | nil => simp [pure, Except.pure]
  | cons x xs ih =>
    have hx := h x List.mem_cons_self
    have hxs := ih fun y hy => h y (List.mem_cons_of_mem x hy)
    rw [List.mapM_cons, hx, hxs]
    by_cases hp : p x
    · have hex : ∃ y ∈ x :: xs, p y := ⟨x, List.mem_cons_self, hp⟩
      rw [if_pos hp, if_pos hex]
      rfl
    · rw [if_neg hp, List.map_cons]
      by_cases hrest : ∃ y ∈ xs, p y
      · have hex : ∃ y ∈ x :: xs, p y := by
          obtain ⟨y, hy, hpy⟩ := hrest
          exact ⟨y, List.mem_cons_of_mem x hy, hpy⟩
        rw [if_pos hrest, if_pos hex]
        rfl
      · rw [if_neg hrest, if_neg (by simpa [hp] using hrest)]
        rfl

/-! ## Loops that avoid an error -/

/-- A program does not end with a bad error. -/
def Avoids (bad : ε → Prop) (x : Except ε α) : Prop := ∀ e, x = .error e → ¬ bad e

variable {bad : ε → Prop}

/-- A result is no bad end. -/
theorem avoids_ok (a : α) : Avoids bad (.ok a : Except ε α) := fun _ h => by cases h

/-- An error avoids the bad ends when it is not one. -/
theorem avoids_error_iff {e : ε} : Avoids bad (.error e : Except ε α) ↔ ¬ bad e :=
  ⟨fun h => h e rfl, fun h e' he => by cases he; exact h⟩

/-- **The rule of a sequence**: the second part counts when the first one ends well. -/
theorem avoids_bind_iff {x : Except ε α} {f : α → Except ε β} :
    Avoids bad (x >>= f) ↔ Avoids bad x ∧ ∀ a, x = .ok a → Avoids bad (f a) := by
  cases x with
  | error e =>
    refine ⟨fun h => ⟨avoids_error_iff.mpr (h e rfl), fun a ha => by cases ha⟩, fun h => ?_⟩
    exact avoids_error_iff.mpr (avoids_error_iff.mp h.1)
  | ok a =>
    exact ⟨fun h => ⟨avoids_ok a, fun a' ha => by cases ha; exact h⟩, fun h => h.2 a rfl⟩

/-- **The outcome of a step**: it ends well unless it `ends` the program, and it avoids a bad error
if what it is given `fits`. -/
structure Outcome (bad : ε → Prop) (x : Except ε α) (ends fits : Prop) : Prop where
  ok_iff : (∃ a, x = .ok a) ↔ ¬ ends ∧ fits
  avoids_iff : Avoids bad x ↔ fits

section Outcome

variable {ends fits : Prop}

/-- A round that goes on. -/
theorem outcome_ok (a : α) (hends : ¬ ends) (hfits : fits) :
    Outcome bad (.ok a : Except ε α) ends fits :=
  ⟨iff_of_true ⟨a, rfl⟩ ⟨hends, hfits⟩, iff_of_true (avoids_ok a) hfits⟩

/-- A round that ends the loop without a bad end. -/
theorem outcome_error {e : ε} (h : ¬ bad e) (hends : ends) (hfits : fits) :
    Outcome bad (.error e : Except ε α) ends fits :=
  ⟨iff_of_false (fun ⟨_, ha⟩ => by cases ha) fun hboth => hboth.1 hends,
    iff_of_true (avoids_error_iff.mpr h) hfits⟩

/-- A round with a bad end. -/
theorem outcome_bad {e : ε} (h : bad e) (hfits : ¬ fits) :
    Outcome bad (.error e : Except ε α) ends fits :=
  ⟨iff_of_false (fun ⟨_, ha⟩ => by cases ha) fun hboth => hfits hboth.2,
    iff_of_false (fun hsafe => avoids_error_iff.mp hsafe h) hfits⟩

/-- What is computed of the result does not matter. -/
theorem Outcome.map {x : Except ε α} (h : Outcome bad x ends fits) (f : α → β) :
    Outcome bad (x >>= fun a => .ok (f a)) ends fits where
  ok_iff := by
    rw [← h.ok_iff]
    constructor
    · rintro ⟨b, hb⟩
      obtain ⟨a, ha, -⟩ := bind_eq_ok.mp hb
      exact ⟨a, ha⟩
    · rintro ⟨a, ha⟩
      exact ⟨f a, bind_eq_ok.mpr ⟨a, ha, rfl⟩⟩
  avoids_iff := by
    rw [avoids_bind_iff, ← h.avoids_iff]
    exact and_iff_left fun a _ => avoids_ok (f a)

end Outcome

section Loop

variable {f : σ → α → Except ε σ} {ends fits : α → Prop} {xs : List α}

/-- A loop ends well when all of its indices fit and none of them ends it. -/
theorem exists_foldlM_eq_ok_iff (h : ∀ s, ∀ x ∈ xs, Outcome bad (f s x) (ends x) (fits x)) (s : σ) :
    (∃ s', xs.foldlM f s = .ok s') ↔ ∀ x ∈ xs, ¬ ends x ∧ fits x := by
  induction xs generalizing s with
  | nil => exact iff_of_true ⟨s, rfl⟩ fun x hx => by cases hx
  | cons x xs ih =>
    rw [List.foldlM_cons, List.forall_mem_cons, ← (h s x List.mem_cons_self).ok_iff]
    have ih := fun s => ih (fun s y hy => h s y (List.mem_cons_of_mem x hy)) s
    constructor
    · rintro ⟨s', hs'⟩
      obtain ⟨s₁, hx, hxs⟩ := bind_eq_ok.mp hs'
      exact ⟨⟨s₁, hx⟩, (ih s₁).mp ⟨s', hxs⟩⟩
    · rintro ⟨⟨s₁, hx⟩, hxs⟩
      obtain ⟨s', hs'⟩ := (ih s₁).mpr hxs
      exact ⟨s', bind_eq_ok.mpr ⟨s₁, hx, hs'⟩⟩

/-- **The rule of a loop**: every index that is reached `fits`, and the indices before it do not end
the loop. The indices come in the order of a key. -/
theorem avoids_foldlM_iff (key : α → ℕ) (hkey : xs.Pairwise fun x y => key x < key y)
    (h : ∀ s, ∀ x ∈ xs, Outcome bad (f s x) (ends x) (fits x)) (s : σ) :
    Avoids bad (xs.foldlM f s) ↔
      ∀ x ∈ xs, (∀ y ∈ xs, key y < key x → ¬ ends y) → fits x := by
  induction xs generalizing s with
  | nil => exact iff_of_true (avoids_ok s) fun x hx => by cases hx
  | cons x xs ih =>
    obtain ⟨hfirst, hrest⟩ := List.pairwise_cons.mp hkey
    have hxs := ih hrest fun s y hy => h s y (List.mem_cons_of_mem x hy)
    have hx := h s x List.mem_cons_self
    -- nothing comes before the first index
    have hmin : ∀ y ∈ x :: xs, ¬ key y < key x := by
      rintro y hy hlt
      rcases List.mem_cons.mp hy with rfl | hy
      · exact Nat.lt_irrefl _ hlt
      · exact Nat.lt_asymm hlt (hfirst y hy)
    rw [List.foldlM_cons, avoids_bind_iff, hx.avoids_iff]
    constructor
    · rintro ⟨hfits, hnext⟩ y hy hbefore
      rcases List.mem_cons.mp hy with rfl | hy
      · exact hfits
      · obtain ⟨s', hs'⟩ := hx.ok_iff.mpr ⟨hbefore x List.mem_cons_self (hfirst y hy), hfits⟩
        exact (hxs s').mp (hnext s' hs') y hy fun z hz =>
          hbefore z (List.mem_cons_of_mem x hz)
    · intro hall
      refine ⟨hall x List.mem_cons_self fun y hy hlt => absurd hlt (hmin y hy), fun s' hs' => ?_⟩
      have hnot := (hx.ok_iff.mp ⟨s', hs'⟩).1
      refine (hxs s').mpr fun y hy hbefore => hall y (List.mem_cons_of_mem x hy) fun z hz hlt => ?_
      rcases List.mem_cons.mp hz with rfl | hz
      · exact hnot
      · exact hbefore z hz hlt

end Loop

/-! ## Loops with the same steps -/

/-- A loop that appends an entry for each element computes these entries. -/
theorem mapM_of_foldlM_append {γ : Type*} {δ : Type*} {f : List β → γ × ℕ → Except ε (List β)}
    {g : γ → Except δ β} {xs : List γ} {k : ℕ}
    (hstep : ∀ ys x ys', f ys x = .ok ys' → ∃ y, g x.1 = .ok y ∧ ys' = ys ++ [y])
    {ys ys' : List β} (h : (xs.zipIdx k).foldlM f ys = .ok ys') :
    ∃ zs, xs.mapM g = .ok zs ∧ ys' = ys ++ zs := by
  induction xs generalizing k ys with
  | nil =>
    cases h
    exact ⟨[], rfl, (List.append_nil _).symm⟩
  | cons x xs ih =>
    rw [List.zipIdx_cons, List.foldlM_cons] at h
    obtain ⟨ys₁, hx, hxs⟩ := bind_eq_ok.mp h
    obtain ⟨y, hy, rfl⟩ := hstep ys (x, k) ys₁ hx
    obtain ⟨zs, hzs, rfl⟩ := ih hxs
    refine ⟨y :: zs, ?_, List.append_assoc ..⟩
    rw [List.mapM_cons, bind_eq_ok]
    exact ⟨y, hy, bind_eq_ok.mpr ⟨zs, hzs, rfl⟩⟩

/-- A loop whose steps are steps of another one, as long as an invariant holds. -/
theorem foldlM_of_imp {δ : Type*} {f : σ → α → Except ε σ} {g : σ → α → Except δ σ} {P : σ → Prop}
    {xs : List α} (hstep : ∀ s, ∀ x ∈ xs, ∀ s', P s → f s x = .ok s' → g s x = .ok s' ∧ P s')
    {s s' : σ} (h : xs.foldlM f s = .ok s') (hs : P s) : xs.foldlM g s = .ok s' ∧ P s' := by
  induction xs generalizing s with
  | nil =>
    cases h
    exact ⟨rfl, hs⟩
  | cons x xs ih =>
    rw [List.foldlM_cons] at h
    obtain ⟨s₁, hx, hxs⟩ := bind_eq_ok.mp h
    obtain ⟨hg, hs₁⟩ := hstep s x List.mem_cons_self s₁ hs hx
    rw [List.foldlM_cons, hg]
    exact ih (fun s y hy => hstep s y (List.mem_cons_of_mem x hy)) hxs hs₁

end ForLoop
