import PrototypeKernel.DdosBlacklist.Client
import Mathlib.Data.List.Monad

/-! # Two clients at once

Two clients run `blacklist_port_modify()` on the same maps, one syscall at a time. Nothing locks the
port between a lookup and the update that writes the looked-up values back. So a request is lost
when both clients have looked up the same port before either of them updates it: the second update
overwrites the first one. `race_iff` tells which runs lose a request. -/

namespace DdosBlacklist

variable {C : ℕ}

/-! ## Runs of two clients -/

/-- The maps, and where the two clients stand. -/
structure Race (C : ℕ) where
  maps : Maps C
  pc : Bool → ClientPc C

/-- Both clients are about to start. -/
def Race.start (calls : Bool → Call) (m : Maps C) : Race C := ⟨m, fun who => (calls who).start⟩

/-- The next syscall of client `who`. -/
def Race.step (calls : Bool → Call) (s : Race C) (who : Bool) : Option (Race C) :=
  ((calls who).syscall s.maps (s.pc who)).map fun r => ⟨r.2, Function.update s.pc who r.1⟩

/-- The syscalls of the clients in the order of a schedule. -/
def Race.run (calls : Bool → Call) (s : Race C) (schedule : List Bool) : Option (Race C) :=
  schedule.foldlM (Race.step calls) s

/-- The call has returned. -/
def ClientPc.exited : ClientPc C → Bool
  | .exit _ => true
  | _ => false

/-- Both calls have returned. -/
abbrev Race.Finished (s : Race C) : Prop := ∀ who, (s.pc who).exited

/-- Both clients have looked up, and then `who` is the first one to update. -/
def UpdatesFirst (schedule : List Bool) (who : Bool) : Prop :=
  ∃ a rest, schedule = a :: (!a) :: who :: rest

/-! ## What is left to do -/

/-- The client has updated the port. -/
def ClientPc.Past : ClientPc C → Prop
  | .lookup _ | .update .. => False
  | .clear _ | .exit _ => True

/-- The client works on the protocol of its request. -/
def ClientPc.For (f : Filter) : ClientPc C → Prop
  | .lookup g | .update g _ | .clear g => g = f
  | .exit _ => True

/-- The port blacklist after the rest of a call that nobody gets in the way of. -/
def Request.pending (r : Request) (a : PercpuArray portMax C) : ClientPc C → PercpuArray portMax C
  | .lookup _ => Function.update a r.port (r.change (a r.port))
  | .update _ values => Function.update a r.port values
  | .clear _ | .exit _ => a

/-- A call that is accepted starts with the lookup. -/
theorem Call.start_of_request {c : Call} {r : Request} (h : c.request = some r) :
    c.start = (.lookup r.filter : ClientPc C) := by
  rw [Call.start, (Call.check_of_request h).1]

/-- A syscall of a valid call brings it one step further, and only the update changes the port. -/
theorem syscall_spec {c : Call} {r : Request} (h : c.request = some r) {m m' : Maps C}
    {pc pc' : ClientPc C} (hfor : pc.For r.filter) (hs : c.syscall m pc = some (pc', m')) :
    pc'.For r.filter ∧ r.pending m'.portBlacklist pc' = r.pending m.portBlacklist pc ∧
      (pc.Past → pc'.Past ∧ m'.portBlacklist = m.portBlacklist) := by
  obtain ⟨hcheck, hindex, hadd, haction⟩ := Call.check_of_request h
  cases pc with
  | lookup f =>
    obtain rfl : f = r.filter := hfor
    simp only [Call.syscall, PercpuArray.lookup, hindex, Option.map_some, Option.getD_some,
      Call.change_eq hadd haction, Option.some.injEq, Prod.mk.injEq] at hs
    obtain ⟨rfl, rfl⟩ := hs
    exact ⟨rfl, rfl, False.elim⟩
  | update f values =>
    obtain rfl : f = r.filter := hfor
    simp only [Call.syscall, PercpuArray.update, hindex, Option.map_some, Option.some.injEq,
      Prod.mk.injEq] at hs
    obtain ⟨rfl, rfl⟩ := hs
    split
    · exact ⟨rfl, rfl, False.elim⟩
    · exact ⟨trivial, rfl, False.elim⟩
  | clear f =>
    simp only [Call.syscall, PercpuArray.update, hindex, Option.map_some, Option.some.injEq,
      Prod.mk.injEq] at hs
    obtain ⟨rfl, rfl⟩ := hs
    exact ⟨trivial, setDropCount_portBlacklist .., fun _ =>
      ⟨trivial, setDropCount_portBlacklist ..⟩⟩
  | exit code => cases hs

/-- Once a client has updated the port, the rest of the run is the rest of the other's call. -/
theorem run_of_past {calls : Bool → Call} {requests : Bool → Request}
    (hreq : ∀ who, (calls who).request = some (requests who)) {schedule : List Bool}
    {s s' : Race C} {a : Bool} (hpast : (s.pc a).Past)
    (hfor : ∀ who, (s.pc who).For (requests who).filter) (hrun : s.run calls schedule = some s')
    (hfin : s'.Finished) :
    s'.maps.portBlacklist = (requests !a).pending s.maps.portBlacklist (s.pc !a) := by
  induction schedule generalizing s with
  | nil =>
    cases hrun
    have hexit := hfin !a
    cases hpc : s'.pc (!a) <;> simp_all [ClientPc.exited, Request.pending]
  | cons who schedule ih =>
    obtain ⟨s₁, hs₁, hrest⟩ := Option.bind_eq_some_iff.mp hrun
    obtain ⟨⟨pc', m'⟩, hcall, rfl⟩ := Option.map_eq_some_iff.mp hs₁
    obtain ⟨hfor', hpending, hkeep⟩ := syscall_spec (hreq who) (hfor who) hcall
    have hforAll : ∀ b, (Function.update s.pc who pc' b).For (requests b).filter := by
      intro b
      by_cases hb : b = who
      · rw [hb, Function.update_self]
        exact hfor'
      · rw [Function.update_of_ne hb]
        exact hfor b
    by_cases hwho : who = a
    · -- the client that is past the update leaves the port alone
      rw [hwho] at hcall hkeep hrest hforAll
      obtain ⟨hpast', hsame⟩ := hkeep hpast
      rw [ih (by simpa using hpast') hforAll hrest]
      simp [hsame]
    · obtain rfl : who = !a := by cases who <;> cases a <;> simp_all
      rw [ih (by simpa using hpast) hforAll hrest]
      simpa using hpending

/-! ## Requests -/

/-- What a request does to one value. -/
def Request.changeValue (r : Request) (v : UInt64) : UInt64 :=
  if r.add then v ||| r.filter.value else v &&& ~~~ r.filter.value

/-- The bits of the two protocols are different. -/
theorem getLsbD_value {f g : Filter} (h : f ≠ g) (n : ℕ) :
    (f.value.toBitVec.getLsbD n && g.value.toBitVec.getLsbD n) = false := by
  have hand : f.value.toBitVec &&& g.value.toBitVec = 0 := by
    cases f <;> cases g <;> first | exact absurd rfl h | rfl
  rw [← BitVec.getLsbD_and, hand]
  exact BitVec.getLsbD_zero

/-- A change sets or clears the bit of its filter and keeps the others. -/
theorem getLsbD_changeValue (r : Request) (v : UInt64) (n : ℕ) (hn : n < 64) :
    (r.changeValue v).toBitVec.getLsbD n =
      if r.filter.value.toBitVec.getLsbD n then r.add else v.toBitVec.getLsbD n := by
  unfold Request.changeValue
  split
  · rename_i hadd
    simp only [UInt64.toBitVec_or, BitVec.getLsbD_or, hadd]
    cases r.filter.value.toBitVec.getLsbD n <;> simp
  · rename_i hadd
    simp only [UInt64.toBitVec_and, UInt64.toBitVec_not, BitVec.getLsbD_and, BitVec.getLsbD_not, hn]
    cases r.filter.value.toBitVec.getLsbD n <;> simp [hadd]

/-- Requests for different protocols can be carried out in either order. -/
theorem changeValue_comm {r r' : Request} (h : r.filter ≠ r'.filter) (v : UInt64) :
    r.changeValue (r'.changeValue v) = r'.changeValue (r.changeValue v) := by
  apply UInt64.toBitVec_inj.mp
  apply BitVec.eq_of_getLsbD_eq
  intro n hn
  have hbits := getLsbD_value h n
  simp only [getLsbD_changeValue _ _ n hn]
  split <;> split <;> simp_all

/-- A request that makes no difference to one for the other protocol changes nothing. -/
theorem changeValue_eq_self {r r' : Request} (h : r.filter ≠ r'.filter) {v : UInt64}
    (heq : r.changeValue v = r.changeValue (r'.changeValue v)) : r'.changeValue v = v := by
  apply UInt64.toBitVec_inj.mp
  apply BitVec.eq_of_getLsbD_eq
  intro n hn
  have hbits := getLsbD_value h n
  have hn' := congrArg (fun w => w.toBitVec.getLsbD n) heq
  simp only [getLsbD_changeValue _ _ n hn] at hn' ⊢
  split <;> simp_all

/-- What a request does to the port blacklist. -/
def Request.onPorts (r : Request) (a : PercpuArray portMax C) : PercpuArray portMax C :=
  Function.update a r.port (r.change (a r.port))

/-- A change of the maps is one of the ports. -/
theorem apply_portBlacklist (m : Maps C) (r : Request) :
    (m.apply r).portBlacklist = r.onPorts m.portBlacklist := by
  unfold Maps.apply
  split
  · rfl
  · rw [setDropCount_portBlacklist]
    rfl

/-- Changes of different ports or filters commute. -/
theorem onPorts_comm {r r' : Request} (h : (r.port, r.filter) ≠ (r'.port, r'.filter))
    (a : PercpuArray portMax C) : r.onPorts (r'.onPorts a) = r'.onPorts (r.onPorts a) := by
  unfold Request.onPorts
  by_cases hport : r.port = r'.port
  · have hfilter : r.filter ≠ r'.filter := fun heq => h (Prod.ext hport heq)
    rw [hport, Function.update_self, Function.update_self, Function.update_idem,
      Function.update_idem]
    exact congrArg _ (funext fun cpu => changeValue_comm hfilter _)
  · rw [Function.update_of_ne hport, Function.update_of_ne (Ne.symm hport),
      Function.update_comm (Ne.symm hport)]

/-- **A request is lost** under an update that was looked up before it, unless the ports are
different or it changes nothing. -/
theorem overwrite_eq_iff {r r' : Request} (h : (r.port, r.filter) ≠ (r'.port, r'.filter))
    (a : PercpuArray portMax C) :
    Function.update (r.onPorts a) r'.port (r'.change (a r'.port)) = r'.onPorts (r.onPorts a) ↔
      r.port ≠ r'.port ∨ r.change (a r.port) = a r.port := by
  unfold Request.onPorts
  by_cases hport : r.port = r'.port
  · have hfilter : r.filter ≠ r'.filter := fun heq => h (Prod.ext hport heq)
    simp only [hport, Function.update_self, Function.update_idem, ne_eq, not_true_eq_false,
      false_or]
    constructor
    · intro heq
      funext cpu
      have hcpu := congrFun (congrFun heq r'.port) cpu
      rw [Function.update_self, Function.update_self] at hcpu
      exact changeValue_eq_self (Ne.symm hfilter) hcpu
    · intro heq
      rw [heq]
  · simp only [Function.update_of_ne (Ne.symm hport), ne_eq, hport, not_false_eq_true, true_or]

/-! ## Races -/

/-- Two requests, one after the other. -/
def sequential (requests : Bool → Request) (m : Maps C) : Maps C :=
  (m.apply (requests false)).apply (requests true)

/-- The order of requests for different ports or protocols does not matter. -/
theorem sequential_eq {requests : Bool → Request}
    (hdiff : ((requests false).port, (requests false).filter)
      ≠ ((requests true).port, (requests true).filter)) (m : Maps C) (a : Bool) :
    (sequential requests m).portBlacklist
      = (requests !a).onPorts ((requests a).onPorts m.portBlacklist) := by
  rw [sequential, apply_portBlacklist, apply_portBlacklist]
  cases a with
  | false => rfl
  | true => exact (onPorts_comm hdiff _).symm

/-- A lookup takes the values of the port. -/
theorem step_lookup {calls : Bool → Call} {r : Request} {s s' : Race C} {who : Bool}
    (hreq : (calls who).request = some r) (hpc : s.pc who = .lookup r.filter)
    (hs : s.step calls who = some s') :
    s'.maps = s.maps ∧ s'.pc (!who) = s.pc (!who) ∧
      s'.pc who = .update r.filter (r.change (s.maps.portBlacklist r.port)) := by
  obtain ⟨-, hindex, hadd, haction⟩ := Call.check_of_request hreq
  rw [Race.step, hpc] at hs
  simp only [Call.syscall, PercpuArray.lookup, hindex, Call.change_eq hadd haction,
    Option.map_some, Option.getD_some, Option.some.injEq] at hs
  subst hs
  exact ⟨rfl, Function.update_of_ne (by cases who <;> decide) .., Function.update_self ..⟩

/-- An update writes the values back. -/
theorem step_update {calls : Bool → Call} {r : Request} {s s' : Race C} {who : Bool}
    {values : Fin C → UInt64} (hreq : (calls who).request = some r)
    (hpc : s.pc who = .update r.filter values) (hs : s.step calls who = some s') :
    s'.maps.portBlacklist = Function.update s.maps.portBlacklist r.port values ∧
      s'.pc (!who) = s.pc (!who) ∧ (s'.pc who).Past ∧ (s'.pc who).For r.filter := by
  obtain ⟨-, hindex, -⟩ := Call.check_of_request hreq
  rw [Race.step, hpc] at hs
  simp only [Call.syscall, PercpuArray.update, hindex, Option.map_some, Option.some.injEq] at hs
  subst hs
  refine ⟨rfl, Function.update_of_ne (by cases who <;> decide) .., ?_, ?_⟩
  · simp only [Function.update_self]
    split <;> trivial
  · simp only [Function.update_self]
    split
    · rfl
    · trivial

section Runs

variable {calls : Bool → Call} {requests : Bool → Request} {m : Maps C} {rest : List Bool}
  {a who : Bool} {s : Race C}

/-- What holds of one caller and of the other holds of both. -/
theorem forall_of_pair {P : Bool → Prop} (a : Bool) (h : P a) (h' : P !a) : ∀ b, P b := by
  intro b
  cases a <;> cases b <;> assumption

/-- A client that updates before the other one looks up leaves what it asked for. -/
theorem run_one_first (hreq : ∀ who, (calls who).request = some (requests who))
    (hrun : (Race.start calls m).run calls (a :: a :: rest) = some s) (hfin : s.Finished) :
    s.maps.portBlacklist = (requests !a).onPorts ((requests a).onPorts m.portBlacklist) := by
  have hstart : ∀ who, (Race.start calls m).pc who = .lookup (requests who).filter := fun who =>
    Call.start_of_request (hreq who)
  obtain ⟨s₁, hs₁, hrun⟩ := Option.bind_eq_some_iff.mp hrun
  obtain ⟨s₂, hs₂, hrest⟩ := Option.bind_eq_some_iff.mp hrun
  obtain ⟨hmaps₁, hother₁, hpc₁⟩ := step_lookup (hreq a) (hstart a) hs₁
  obtain ⟨hport₂, hother₂, hpast₂, hfor₂⟩ := step_update (hreq a) hpc₁ hs₂
  have hlookup : s₂.pc (!a) = .lookup (requests !a).filter :=
    hother₂.trans (hother₁.trans (hstart !a))
  rw [run_of_past hreq hpast₂ (forall_of_pair a hfor₂ (by rw [hlookup]; rfl)) hrest hfin, hlookup,
    hport₂, hmaps₁]
  rfl

/-- Of two clients that have both looked up, the one that updates last decides. -/
theorem run_overlapping (hreq : ∀ who, (calls who).request = some (requests who))
    (hrun : (Race.start calls m).run calls (a :: (!a) :: who :: rest) = some s)
    (hfin : s.Finished) :
    s.maps.portBlacklist = Function.update ((requests who).onPorts m.portBlacklist)
      (requests !who).port ((requests !who).change (m.portBlacklist (requests !who).port)) := by
  have hstart : ∀ who, (Race.start calls m).pc who = .lookup (requests who).filter := fun who =>
    Call.start_of_request (hreq who)
  obtain ⟨s₁, hs₁, hrun⟩ := Option.bind_eq_some_iff.mp hrun
  obtain ⟨s₂, hs₂, hrun⟩ := Option.bind_eq_some_iff.mp hrun
  obtain ⟨s₃, hs₃, hrest⟩ := Option.bind_eq_some_iff.mp hrun
  obtain ⟨hmaps₁, hother₁, hpc₁⟩ := step_lookup (hreq a) (hstart a) hs₁
  obtain ⟨hmaps₂, hother₂, hpc₂⟩ := step_lookup (hreq !a) (hother₁.trans (hstart !a)) hs₂
  -- both hold the values of the beginning
  have hheld : ∀ b, s₂.pc b = .update (requests b).filter
      ((requests b).change (m.portBlacklist (requests b).port)) := by
    rw [Bool.not_not, hpc₁] at hother₂
    rw [hmaps₁] at hpc₂
    exact forall_of_pair a hother₂ hpc₂
  obtain ⟨hport₃, hother₃, hpast₃, hfor₃⟩ := step_update (hreq who) (hheld who) hs₃
  rw [hheld] at hother₃
  rw [run_of_past hreq hpast₃ (forall_of_pair who hfor₃ (by rw [hother₃]; rfl)) hrest hfin, hother₃,
    hport₃, hmaps₂, hmaps₁]
  rfl

/-- A complete run has the lookup and the update of each client. -/
theorem schedule_cases (hreq : ∀ who, (calls who).request = some (requests who))
    {schedule : List Bool} (hrun : (Race.start calls m).run calls schedule = some s)
    (hfin : s.Finished) :
    (∃ a rest, schedule = a :: a :: rest) ∨ ∃ a who rest, schedule = a :: (!a) :: who :: rest := by
  have hstart : ∀ who, (Race.start calls m).pc who = .lookup (requests who).filter := fun who =>
    Call.start_of_request (hreq who)
  rcases schedule with _ | ⟨a, _ | ⟨b, rest⟩⟩
  · cases hrun
    have hexit := hfin false
    rw [hstart] at hexit
    cases hexit
  · obtain ⟨s₁, hs₁, hrest⟩ := Option.bind_eq_some_iff.mp hrun
    cases hrest
    obtain ⟨-, -, hpc₁⟩ := step_lookup (hreq a) (hstart a) hs₁
    have hexit := hfin a
    rw [hpc₁] at hexit
    cases hexit
  · by_cases hb : b = a
    · exact .inl ⟨a, rest, by rw [hb]⟩
    · obtain rfl : b = !a := by cases a <;> cases b <;> simp_all
      rcases rest with _ | ⟨who, rest⟩
      · obtain ⟨s₁, hs₁, hrun⟩ := Option.bind_eq_some_iff.mp hrun
        obtain ⟨s₂, hs₂, hrest⟩ := Option.bind_eq_some_iff.mp hrun
        cases hrest
        obtain ⟨-, hother₁, -⟩ := step_lookup (hreq a) (hstart a) hs₁
        obtain ⟨-, -, hpc₂⟩ := step_lookup (hreq !a) (hother₁.trans (hstart !a)) hs₂
        have hexit := hfin !a
        rw [hpc₂] at hexit
        cases hexit
      · exact .inr ⟨a, who, rest, rfl⟩

end Runs

/-- **When two clients at once do what they do one after the other.** For two valid requests with a
different port or protocol, every complete run of the two clients leaves the port blacklist of a
sequential run exactly when the ports are different, or no client updates the port between the
lookup and the update of the other, or the request of the one that does changes nothing. -/
theorem race_iff {calls : Bool → Call} {requests : Bool → Request}
    (hreq : ∀ who, (calls who).request = some (requests who))
    (hdiff : ((requests false).port, (requests false).filter)
      ≠ ((requests true).port, (requests true).filter))
    {m : Maps C} {schedule : List Bool} {s : Race C}
    (hrun : (Race.start calls m).run calls schedule = some s) (hfin : s.Finished) :
    s.maps.portBlacklist = (sequential requests m).portBlacklist ↔
      (requests false).port ≠ (requests true).port ∨
        ∀ who, UpdatesFirst schedule who →
          (requests who).change (m.portBlacklist (requests who).port)
            = m.portBlacklist (requests who).port := by
  have hports : ∀ who, (requests false).port ≠ (requests true).port ↔
      (requests who).port ≠ (requests !who).port :=
    forall_of_pair false Iff.rfl ne_comm
  rcases schedule_cases hreq hrun hfin with ⟨a, rest, rfl⟩ | ⟨a, who, rest, rfl⟩
  · -- one client updates before the other one looks up
    rw [run_one_first hreq hrun hfin, sequential_eq hdiff m a]
    refine ⟨fun _ => .inr ?_, fun _ => rfl⟩
    rintro who ⟨b, rest', hsched⟩
    obtain ⟨rfl, hne, -⟩ : a = b ∧ a = (!b) ∧ rest = who :: rest' := by simpa using hsched
    cases a <;> cases hne
  · have hdiff' : ((requests who).port, (requests who).filter)
        ≠ ((requests !who).port, (requests !who).filter) :=
      forall_of_pair (P := fun who => ((requests who).port, (requests who).filter)
        ≠ ((requests !who).port, (requests !who).filter)) false hdiff hdiff.symm who
    rw [run_overlapping hreq hrun hfin, sequential_eq hdiff m who, overwrite_eq_iff hdiff',
      hports who]
    refine or_congr_right ⟨fun hsame b hfirst => ?_, fun hall => hall who ⟨a, rest, rfl⟩⟩
    -- there is one client that updates first
    obtain ⟨c, rest', hsched⟩ := hfirst
    obtain ⟨-, -, rfl, -⟩ : a = c ∧ (!a) = (!c) ∧ who = b ∧ rest = rest' := by
      simpa using hsched
    exact hsame

/-- Two clients that add port 53, one for each protocol. -/
def addDns (who : Bool) : Call := ⟨53, actionAdd, if who then 6 else 17⟩

/-- What they ask for. -/
def addDnsRequest (who : Bool) : Request := ⟨⟨53, by decide⟩, if who then .tcp else .udp, true⟩

/-- Both look up before they update. -/
theorem exists_lookupsFirst :
    ∃ s : Race 2, (Race.start addDns (.zero 2)).run addDns [false, true, false, true] = some s ∧
      s.Finished ∧ s.maps.portBlacklist ⟨53, by decide⟩ 0 = 1 := by
  have hrun : ((Race.start addDns (.zero 2)).run addDns [false, true, false, true]).any
      fun s : Race 2 => s.Finished ∧ s.maps.portBlacklist ⟨53, by decide⟩ 0 = 1 := by decide
  obtain ⟨s, hs, hend⟩ := (Option.any_eq_true _ _).mp hrun
  exact ⟨s, hs, of_decide_eq_true hend⟩

/-- Two adds of port 53, both lookups first. -/
theorem race_iff_lookupsFirst :
    ∃ s : Race 2, (Race.start addDns (.zero 2)).run addDns [false, true, false, true] = some s ∧
      (s.maps.portBlacklist = (sequential addDnsRequest (.zero 2)).portBlacklist ↔
        (addDnsRequest false).port ≠ (addDnsRequest true).port ∨
          ∀ who, UpdatesFirst [false, true, false, true] who →
            (addDnsRequest who).change ((Maps.zero 2).portBlacklist (addDnsRequest who).port)
              = (Maps.zero 2).portBlacklist (addDnsRequest who).port) := by
  obtain ⟨s, hs, hfin, -⟩ := exists_lookupsFirst
  exact ⟨s, hs, race_iff (by decide) (by decide) hs hfin⟩

/-- **The UDP bit is lost** when both clients look up before they update. -/
theorem race_loses_udp :
    (∀ who, (addDns who).request = some (addDnsRequest who)) ∧
      ((addDnsRequest false).port, (addDnsRequest false).filter)
        ≠ ((addDnsRequest true).port, (addDnsRequest true).filter) ∧
      ∃ s : Race 2, (Race.start addDns (.zero 2)).run addDns [false, true, false, true] = some s ∧
        s.Finished ∧
        s.maps.portBlacklist ≠ (sequential addDnsRequest (.zero 2)).portBlacklist := by
  refine ⟨by decide, by decide, ?_⟩
  obtain ⟨s, hs, hfin, hvalue⟩ := exists_lookupsFirst
  refine ⟨s, hs, hfin, fun heq => ?_⟩
  rw [heq] at hvalue
  exact absurd hvalue (by decide)

end DdosBlacklist
