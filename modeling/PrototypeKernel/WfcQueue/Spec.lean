import PrototypeKernel.Foundation.ListFamily
import PrototypeKernel.WfcQueue.Queue

/-! # What the queues are for

Queues that hold their nodes in order. The exchange of a tail appends all that the caller brings, or
takes all that the source of a splice holds, and a dequeue returns the first node. -/

namespace WfcQueue

open ListFamily

/-- Where a node is: in a queue, in the hands of a thread that is about to append it, or
dequeued. -/
inductive Place (Q T : Type*) where
  | queue (q : Q)
  | run (t : T)
  | out
  deriving DecidableEq, Repr

/-- The nodes in each place, in order, and whether the last append of a thread found a node in its
queue. -/
structure Queues (Q N T : Type*) where
  place : Place Q T → List N
  found : T → Bool

variable {Q N T : Type*} [DecidableEq Q] [DecidableEq N] [DecidableEq T]

/-- **What an event does**; `none` when it cannot happen. -/
def Queues.apply (a : Queues Q N T) : Event Q N T → Option (Queues Q N T)
  | .enqueue t n => some { a with place := push a.place (.run t) n }
  | .append t q =>
      some ⟨move a.place (.run t) (.queue q),
        Function.update a.found t (a.place (.queue q) ≠ [])⟩
  | .take t src => some { a with place := move a.place (.queue src) (.run t) }
  | .enqueueRet t ret => if ret = a.found t then some a else none
  | .spliceRet _ src .srcEmpty => if a.place (.queue src) = [] then some a else none
  | .spliceRet t _ .destEmpty => if a.found t = false then some a else none
  | .spliceRet t _ .destNonEmpty => if a.found t = true then some a else none
  | .dequeueRet _ q none => if a.place (.queue q) = [] then some a else none
  | .dequeueRet _ q (some n) =>
      if (a.place (.queue q)).head? = some n then
        some { a with place := push (pop a.place (.queue q)) .out n }
      else none

/-- No node is anywhere. -/
def Queues.init : Queues Q N T := ⟨fun _ => [], fun _ => false⟩

/-- The queues after the events of `log`; `none` when one of these could not happen. -/
def replay (log : List (Event Q N T)) : Option (Queues Q N T) := log.foldlM Queues.apply .init

variable {log : List (Event Q N T)} {e : Event Q N T} {a a' : Queues Q N T} {n x : N}

/-- The last event is applied after the others. -/
theorem replay_concat : replay (log ++ [e]) = (replay log).bind (·.apply e) := by
  simp [replay, List.foldlM_append]

/-- What each event keeps holds after every log. -/
theorem replay_induction {P : List (Event Q N T) → Queues Q N T → Prop} (hnil : P [] .init)
    (hstep : ∀ log a e a', replay log = some a → P log a → a.apply e = some a' →
      P (log ++ [e]) a') : ∀ {log a}, replay log = some a → P log a := by
  intro log
  induction log using List.reverseRecOn with
  | nil =>
    intro a h
    cases h
    exact hnil
  | append_singleton log e ih =>
    intro a' h
    rw [replay_concat] at h
    obtain ⟨a, ha, h⟩ := Option.bind_eq_some_iff.mp h
    exact hstep log a e a' ha (ih ha) h

/-- The queues after a part of a log. -/
theorem replay_prefix {l₁ l₂ : List (Event Q N T)} (h : replay (l₁ ++ l₂) = some a) :
    ∃ a₁, replay l₁ = some a₁ ∧ l₂.foldlM Queues.apply a₁ = some a := by
  rw [replay, List.foldlM_append] at h
  exact Option.bind_eq_some_iff.mp h

/-! ## What is returned -/

/-- **`NULL` is returned when the queue is empty.** -/
theorem empty_of_null {l₁ l₂ : List (Event Q N T)} {t : T} {q : Q}
    (h : replay (l₁ ++ .dequeueRet t q none :: l₂) = some a) :
    ∃ a₁, replay l₁ = some a₁ ∧ a₁.place (.queue q) = [] := by
  obtain ⟨a₁, h₁, h⟩ := replay_prefix h
  obtain ⟨_, happly, -⟩ := Option.bind_eq_some_iff.mp h
  exact ⟨a₁, h₁, (Option.ite_none_right_eq_some.mp happly).1⟩

/-- What a thread has found changes when it appends. -/
theorem found_of_apply {t : T} (h : a.apply e = some a') (hne : ∀ q, e ≠ .append t q) :
    a'.found t = a.found t := by
  cases e with
  | append t' q =>
    cases h
    have ht : t ≠ t' := by
      rintro rfl
      exact hne q rfl
    exact Function.update_of_ne ht ..
  | enqueue t' n =>
    cases h
    rfl
  | take t' src =>
    cases h
    rfl
  | enqueueRet t' ret => rw [Option.some.inj (Option.ite_none_right_eq_some.mp h).2]
  | spliceRet t' src ret =>
    cases ret <;> rw [Option.some.inj (Option.ite_none_right_eq_some.mp h).2]
  | dequeueRet t' q ret =>
    cases ret with
    | none => rw [Option.some.inj (Option.ite_none_right_eq_some.mp h).2]
    | some n =>
      obtain ⟨-, h⟩ := Option.ite_none_right_eq_some.mp h
      cases h
      rfl

/-- What the last append of a thread found stays known until the next one. -/
theorem found_of_foldlM {t : T} {l : List (Event Q N T)} (h : l.foldlM Queues.apply a = some a')
    (hne : ∀ q, .append t q ∉ l) : a'.found t = a.found t := by
  induction l generalizing a with
  | nil =>
    cases h
    rfl
  | cons e l ih =>
    obtain ⟨a₁, happly, h⟩ := Option.bind_eq_some_iff.mp h
    rw [ih h fun q hq => hne q (List.mem_cons_of_mem _ hq),
      found_of_apply happly fun q heq => hne q (heq ▸ List.mem_cons_self ..)]

/-- **`wfcq_enqueue()` returns false exactly when its append found the queue empty.** -/
theorem enqueueRet_iff {l₁ l₂ l₃ : List (Event Q N T)} {t : T} {q : Q} {ret : Bool}
    (h : replay (l₁ ++ .append t q :: (l₂ ++ .enqueueRet t ret :: l₃)) = some a)
    (hne : ∀ q', .append t q' ∉ l₂) :
    ∃ a₁, replay l₁ = some a₁ ∧ (ret = false ↔ a₁.place (.queue q) = []) := by
  obtain ⟨a₁, h₁, h⟩ := replay_prefix h
  rw [List.foldlM_cons] at h
  obtain ⟨a₂, happend, h⟩ := Option.bind_eq_some_iff.mp h
  rw [List.foldlM_append] at h
  obtain ⟨a₃, h₃, h⟩ := Option.bind_eq_some_iff.mp h
  obtain ⟨_, hret, -⟩ := Option.bind_eq_some_iff.mp h
  refine ⟨a₁, h₁, ?_⟩
  rw [(Option.ite_none_right_eq_some.mp hret).1, found_of_foldlM h₃ hne]
  cases happend
  show Function.update a₁.found t (decide (a₁.place (.queue q) ≠ [])) t = false ↔ _
  rw [Function.update_self, decide_eq_false_iff_not, not_not]

/-! ## Where the nodes are -/

/-- **The outcomes of an event**, on the places. -/
inductive Change (place : Place Q T → List N) : Event Q N T → (Place Q T → List N) → Prop
  | enqueue (t : T) (n : N) : Change place (.enqueue t n) (push place (.run t) n)
  | append (t : T) (q : Q) : Change place (.append t q) (move place (.run t) (.queue q))
  | take (t : T) (src : Q) : Change place (.take t src) (move place (.queue src) (.run t))
  | dequeue (t : T) {q : Q} {n : N} {rest : List N} (hfirst : place (.queue q) = n :: rest) :
      Change place (.dequeueRet t q (some n)) (push (pop place (.queue q)) .out n)
  | same {e : Event Q N T} (henqueued : enqueued [e] = []) (hdequeued : dequeued [e] = []) :
      Change place e place

/-- An event changes the places of the nodes in one of the ways listed. -/
theorem change_of_apply (h : a.apply e = some a') : Change a.place e a'.place := by
  cases e with
  | enqueue t n =>
    cases h
    exact .enqueue t n
  | append t q =>
    cases h
    exact .append t q
  | take t src =>
    cases h
    exact .take t src
  | enqueueRet t ret =>
    obtain ⟨-, h⟩ := Option.ite_none_right_eq_some.mp h
    cases h
    exact .same rfl rfl
  | spliceRet t src ret =>
    have h : a = a' := by
      cases ret <;> exact Option.some.inj (Option.ite_none_right_eq_some.mp h).2
    exact h ▸ .same rfl rfl
  | dequeueRet t q ret =>
    cases ret with
    | none =>
      obtain ⟨-, h⟩ := Option.ite_none_right_eq_some.mp h
      cases h
      exact .same rfl rfl
    | some n =>
      obtain ⟨hhead, h⟩ := Option.ite_none_right_eq_some.mp h
      obtain ⟨rest, hfirst⟩ := List.head?_eq_some_iff.mp hhead
      cases h
      exact .dequeue t hfirst

/-- The nodes that left are those that were dequeued, in order. -/
theorem place_out (h : replay log = some a) : a.place .out = dequeued log := by
  refine replay_induction (P := fun log a => a.place .out = dequeued log) rfl ?_ h
  intro log a e a' _ ih h
  rw [dequeued_concat, ← ih]
  have hchange := change_of_apply h
  generalize a'.place = place at hchange
  cases hchange with
  | enqueue t n => rw [push_of_ne (by rintro ⟨⟩)]; exact (List.append_nil _).symm
  | append t q =>
    rw [move_of_ne (by rintro ⟨⟩) (by rintro ⟨⟩)]
    exact (List.append_nil _).symm
  | take t src =>
    rw [move_of_ne (by rintro ⟨⟩) (by rintro ⟨⟩)]
    exact (List.append_nil _).symm
  | dequeue t hfirst => rw [push_self, pop_of_ne (by rintro ⟨⟩)]; rfl
  | same _ hdequeued => rw [hdequeued, List.append_nil]

/-- The nodes that are somewhere are those that were enqueued. -/
theorem mem_enqueued_iff (h : replay log = some a) :
    x ∈ enqueued log ↔ ∃ p, x ∈ a.place p := by
  refine replay_induction (P := fun log a => x ∈ enqueued log ↔ ∃ p, x ∈ a.place p)
    (by simp [enqueued, Queues.init]) ?_ h
  intro log a e a' _ ih h
  rw [enqueued_concat, List.mem_append, ih]
  have hchange := change_of_apply h
  generalize a'.place = place at hchange
  cases hchange with
  | enqueue t n => rw [exists_mem_push]; exact or_congr Iff.rfl List.mem_singleton
  | append t q =>
    rw [exists_mem_move (by rintro ⟨⟩)]
    exact or_iff_left List.not_mem_nil
  | take t src =>
    rw [exists_mem_move (by rintro ⟨⟩)]
    exact or_iff_left List.not_mem_nil
  | dequeue t hfirst =>
    rw [exists_mem_push_pop hfirst]
    exact or_iff_left List.not_mem_nil
  | same henqueued _ =>
    rw [henqueued]
    exact or_iff_left List.not_mem_nil

/-- **No node is in two places** when none was enqueued twice. -/
theorem apart_of_replay (h : replay log = some a) : (enqueued log).Nodup → Apart a.place := by
  refine replay_induction (P := fun log a => (enqueued log).Nodup → Apart a.place)
    (fun _ => ⟨fun _ => List.nodup_nil, fun _ _ _ hx => by cases hx⟩) ?_ h
  intro log a e a' ha ih h hnodup
  rw [enqueued_concat, List.nodup_append] at hnodup
  obtain ⟨hlog, -, hfresh⟩ := hnodup
  have hapart := ih hlog
  have hchange := change_of_apply h
  generalize a'.place = place at hchange
  cases hchange with
  | enqueue t n =>
    refine hapart.push (fun p hn => hfresh n ?_ n (List.mem_singleton_self n) rfl) _
    exact (mem_enqueued_iff ha).mpr ⟨p, hn⟩
  | append t q => exact hapart.move (by rintro ⟨⟩)
  | take t src => exact hapart.move (by rintro ⟨⟩)
  | dequeue t hfirst => exact hapart.push_pop hfirst _
  | same _ _ => exact hapart

end WfcQueue
