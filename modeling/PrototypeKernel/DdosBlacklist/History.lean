import PrototypeKernel.DdosBlacklist.Client
import PrototypeKernel.DdosBlacklist.Verdict
import Mathlib.Data.List.Induction

/-! # Histories of the port blacklist

Calls of `blacklist_port_modify()` one after the other, with packets on any of the CPUs in between.
From zeroed values on, the values of a port on every CPU are exactly the bits of the protocols whose
last request was to add: `port_history`. -/

namespace DdosBlacklist

variable {C : ℕ}

/-! ## Histories -/

/-- A call that runs without another one, or a packet on a CPU. -/
inductive Event (C : ℕ) where
  | call (c : Call)
  | packet (cpu : Fin C) (p : Packet)

/-- The maps after an event. -/
def Maps.event (m : Maps C) : Event C → Maps C
  | .call c => (blacklistPortModify c m).2
  -- the program returns on every packet
  | .packet cpu p => ((xdpProgram cpu p m).map Prod.snd).getD m

/-- The maps after a history. -/
def Maps.run (m : Maps C) (es : List (Event C)) : Maps C := es.foldl Maps.event m

/-- The request of a valid call. -/
def Event.request : Event C → Option Request
  | .call c => c.request
  | .packet .. => none

/-- The last request for a port and protocol was to add. -/
def lastAdded (es : List (Event C)) (i : Fin portMax) (f : Filter) : Bool :=
  (((es.filterMap Event.request).filter fun r => r.port = i ∧ r.filter = f).getLast?.map
    Request.add).getD false

/-- The value with the bits of certain protocols, and no other bit. -/
def filterValue (on : Filter → Bool) : UInt64 :=
  (if on .tcp then Filter.tcp.value else 0) ||| (if on .udp then Filter.udp.value else 0)

/-! ## Values -/

/-- The bit that the program tests is the one that user space sets. -/
theorem portBit_filterValue (on : Filter → Bool) (f : Filter) :
    portBit f (filterValue on) = on f := by
  unfold filterValue
  cases f <;> cases htcp : on .tcp <;> cases hudp : on .udp <;> decide

/-- A request changes the bit of its protocol. -/
theorem change_filterValue (r : Request) (on : Filter → Bool) :
    r.change (fun _ : Fin C => filterValue on)
      = fun _ => filterValue fun f => if f = r.filter then r.add else on f := by
  funext cpu
  obtain ⟨i, f, add⟩ := r
  unfold Request.change filterValue
  cases f <;> cases add <;> cases htcp : on .tcp <;> cases hudp : on .udp <;> simp [htcp, hudp] <;>
    decide

/-- Without filters the value of a port is 0. -/
theorem filterValue_false : filterValue (fun _ => false) = 0 := by decide

/-! ## One event -/

/-- A request that concerns a port and protocol replaces an earlier one. -/
theorem lastAdded_append (es : List (Event C)) (e : Event C) (i : Fin portMax) (f : Filter) :
    lastAdded (es ++ [e]) i f =
      match e.request with
      | none => lastAdded es i f
      | some r => if r.port = i ∧ r.filter = f then r.add else lastAdded es i f := by
  unfold lastAdded
  rw [List.filterMap_append, List.filter_append]
  cases hreq : e.request with
  | none => simp [hreq]
  | some r =>
    by_cases hr : r.port = i ∧ r.filter = f <;> simp [hreq, hr]

/-- An outcome leaves a counter of drops alone, or adds one to it. -/
theorem Outcome.dropCount {cpu : Fin C} {p : Packet} {l3Offset : ℕ} {m m' : Maps C}
    {action : UInt32} (h : Outcome cpu p l3Offset m action m') (f : Filter) (i : Fin portMax)
    (cpu' : Fin C) :
    m'.dropCountByFproto f i cpu' = m.dropCountByFproto f i cpu' ∨
      m'.dropCountByFproto f i cpu' = addOneLow (m.dropCountByFproto f i cpu') := by
  cases h with
  | aborted | pass => exact .inl rfl
  | addr => cases f <;> exact .inl rfl
  | @port g dport j hproto hdport hj hbit =>
    by_cases hf : f = g
    · rw [hf, dropCountByFproto_setDropCount]
      by_cases hcell : (i, cpu') = (j, cpu)
      · obtain ⟨rfl, rfl⟩ := Prod.mk.injEq .. ▸ hcell
        exact .inr (PercpuArray.modify_self ..)
      · exact .inl (PercpuArray.modify_of_ne _ _ hcell)
    · rw [dropCountByFproto_setDropCount_of_ne m _ hf]
      exact .inl rfl

/-- The counts of verdicts are apart from the counters of drops. -/
theorem dropCount_statsActionVerdict (cpu : Fin C) (action : UInt32) (m : Maps C) (f : Filter) :
    (statsActionVerdict cpu action m).dropCountByFproto f = m.dropCountByFproto f := by
  funext i cpu'
  have h := congrFun (congrFun (dropCounter_statsActionVerdict cpu action m).1 cpu') (.port f i)
  exact Option.some.inj h

/-- A packet leaves the port blacklist alone, and adds one to a drop counter at most. -/
theorem event_packet (m : Maps C) (cpu : Fin C) (p : Packet) :
    (m.event (.packet cpu p)).portBlacklist = m.portBlacklist ∧
      ∀ f i cpu',
        (m.event (.packet cpu p)).dropCountByFproto f i cpu' = m.dropCountByFproto f i cpu'
        ∨ (m.event (.packet cpu p)).dropCountByFproto f i cpu'
          = addOneLow (m.dropCountByFproto f i cpu') := by
  rcases xdpProgram_cases cpu p m with ⟨-, hrun⟩ | ⟨_, _, action, m₁, -, hout, hrun⟩
  · rw [Maps.event, hrun]
    exact ⟨rfl, fun _ _ _ => .inl rfl⟩
  · rw [Maps.event, hrun]
    simp only [Option.map_some, Option.getD_some, dropCount_statsActionVerdict]
    exact ⟨(dropCounter_statsActionVerdict cpu action m₁).2.trans hout.accounting.2.2.1,
      hout.dropCount⟩

/-- A call resets the drop counters of a port and protocol exactly when it deletes them. -/
theorem dropCount_call (m : Maps C) (c : Call) (f : Filter) (i : Fin portMax) (cpu : Fin C) :
    (m.event (.call c)).dropCountByFproto f i cpu =
      if c.request = some ⟨i, f, false⟩ then 0 else m.dropCountByFproto f i cpu := by
  cases hreq : c.request with
  | none =>
    obtain ⟨code, hcall, -⟩ := blacklistPortModify_of_invalid hreq m
    rw [Maps.event, hcall]
    rfl
  | some r =>
    rw [Maps.event, blacklistPortModify_of_request hreq]
    obtain ⟨j, g, add⟩ := r
    unfold Maps.apply
    cases add with
    | true => cases f <;> simp [Maps.dropCountByFproto]
    | false =>
      by_cases hg : f = g
      · by_cases hj : i = j
        · simp [hg, hj]
        · have hne : ¬ j = i := fun heq => hj heq.symm
          simp only [hg, dropCountByFproto_setDropCount, Bool.false_eq_true, if_false]
          rw [Function.update_of_ne hj, if_neg (by simp [hne])]
          cases g <;> rfl
      · have hne : ¬ g = f := fun heq => hg heq.symm
        simp only [Bool.false_eq_true, if_false]
        rw [dropCountByFproto_setDropCount_of_ne _ _ hg, if_neg (by simp [hne])]
        cases f <;> rfl

/-- A call changes the value of its port. -/
theorem portBlacklist_call (m : Maps C) (c : Call) :
    (m.event (.call c)).portBlacklist =
      match c.request with
      | none => m.portBlacklist
      | some r => Function.update m.portBlacklist r.port (r.change (m.portBlacklist r.port)) := by
  cases hreq : c.request with
  | none =>
    obtain ⟨code, hcall, -⟩ := blacklistPortModify_of_invalid hreq m
    rw [Maps.event, hcall]
  | some r =>
    rw [Maps.event, blacklistPortModify_of_request hreq]
    dsimp only
    unfold Maps.apply
    split
    · rfl
    · rw [setDropCount_portBlacklist]

/-- The last event comes after the others. -/
theorem run_append_singleton (m : Maps C) (es : List (Event C)) (e : Event C) :
    m.run (es ++ [e]) = (m.run es).event e := by
  rw [Maps.run, List.foldl_append]
  rfl

/-- **The values after a history** from zeroed values are the bits of the protocols that were added
last. -/
theorem portBlacklist_run {m₀ : Maps C} (hzero : ∀ i cpu, m₀.portBlacklist i cpu = 0)
    (es : List (Event C)) :
    (m₀.run es).portBlacklist = fun i _ => filterValue (lastAdded es i) := by
  induction es using List.reverseRecOn with
  | nil =>
    funext i cpu
    rw [Maps.run, List.foldl_nil, hzero, ← filterValue_false]
    rfl
  | append_singleton es e ih =>
    rw [run_append_singleton]
    funext i cpu
    cases e with
    | packet cpu' p =>
      rw [(event_packet _ cpu' p).1, ih]
      exact congrArg filterValue (funext fun f => (lastAdded_append es (.packet cpu' p) i f).symm)
    | call c =>
      rw [portBlacklist_call, ih]
      cases hreq : c.request with
      | none =>
        refine congrArg filterValue (funext fun f => ?_)
        simp [lastAdded_append, Event.request, hreq]
      | some r =>
        dsimp only
        by_cases hi : i = r.port
        · -- the values of the port that the call changes
          rw [hi, Function.update_self, change_filterValue]
          refine congrArg filterValue (funext fun f => ?_)
          simp [lastAdded_append, Event.request, hreq, eq_comm]
        · rw [Function.update_of_ne hi]
          refine congrArg filterValue (funext fun f => ?_)
          simp [lastAdded_append, Event.request, hreq, Ne.symm hi]

/-- What a history leaves, for the events that may come next. -/
structure PortHistory (m₀ : Maps C) (es : List (Event C)) : Prop where
  /-- The bit of a protocol at a port is set exactly when the last valid call for them was to
  add. -/
  bit : ∀ i cpu f, portBit f ((m₀.run es).portBlacklist i cpu) = lastAdded es i f
  /-- No other bit is set. -/
  value : ∀ i cpu, (m₀.run es).portBlacklist i cpu = filterValue (lastAdded es i)
  /-- A call resets the drop counters of a port and protocol exactly when it deletes them. -/
  reset : ∀ c f i cpu, (m₀.run (es ++ [.call c])).dropCountByFproto f i cpu =
    if c.request = some ⟨i, f, false⟩ then 0 else (m₀.run es).dropCountByFproto f i cpu
  /-- A packet leaves a drop counter alone or adds one to it. -/
  count : ∀ cpu p f i cpu',
    (m₀.run (es ++ [.packet cpu p])).dropCountByFproto f i cpu'
        = (m₀.run es).dropCountByFproto f i cpu' ∨
      (m₀.run (es ++ [.packet cpu p])).dropCountByFproto f i cpu'
        = addOneLow ((m₀.run es).dropCountByFproto f i cpu')
  /-- An invalid call fails and changes no map. -/
  invalid : ∀ c : Call, c.request = none →
    ∃ code, blacklistPortModify c (m₀.run es) = (code, m₀.run es) ∧ code ≠ exitOk
  /-- `parse_port()` drops a packet of a protocol to a port exactly when the last valid call for
  them was to add. -/
  parse : ∀ cpu (p : Packet) f hdr dport, hdr + f.hlen ≤ p.length →
    p.be16 (hdr + 2) = some dport →
    (parsePort cpu p f.ipproto hdr (m₀.run es)).map Prod.fst = some
      (if lastAdded es ⟨dport.toNat, dport.toNat_lt⟩ f then xdpDrop else xdpPass)

/-- **Histories of the port blacklist.** From zeroed values on, every history of calls that do not
overlap, with packets in between, leaves what `PortHistory` says. -/
theorem port_history {m₀ : Maps C} (hzero : ∀ i cpu, m₀.portBlacklist i cpu = 0)
    (es : List (Event C)) : PortHistory m₀ es := by
  have hvalues := portBlacklist_run hzero es
  constructor
  case bit =>
    intro i cpu f
    rw [hvalues]
    exact portBit_filterValue _ f
  case value =>
    intro i cpu
    rw [hvalues]
  case reset =>
    intro c f i cpu
    rw [run_append_singleton]
    exact dropCount_call _ c f i cpu
  case count =>
    intro cpu p f i cpu'
    rw [run_append_singleton]
    exact (event_packet _ cpu p).2 f i cpu'
  case invalid =>
    intro c hinvalid
    exact blacklistPortModify_of_invalid hinvalid _
  case parse =>
    intro cpu p f hdr dport hlen hdport
    rw [parsePort_filter, if_neg (by omega), hdport, Option.map_some, Option.map_some,
      portVerdict_fst, Maps.portListed, hvalues, portBit_filterValue]

/-- Both protocols are added at port 53, one is deleted again, and two calls are invalid. -/
def addBothDeleteTcp : List (Event 4) :=
  [.call ⟨53, actionAdd, 17⟩, .call ⟨53, actionAdd, 6⟩, .call ⟨53, actionDel, 6⟩,
    .call ⟨-1, actionAdd, 6⟩, .call ⟨53, actionDel, 1⟩]

/-- Port 53 is added for both protocols and deleted for TCP. -/
theorem port_history_addBothDeleteTcp :
    lastAdded addBothDeleteTcp ⟨53, by decide⟩ .udp = true ∧
      lastAdded addBothDeleteTcp ⟨53, by decide⟩ .tcp = false ∧
      PortHistory (Maps.zero 4) addBothDeleteTcp :=
  ⟨by decide, by decide, port_history (fun _ _ => rfl) addBothDeleteTcp⟩

end DdosBlacklist
