import PrototypeKernel.DdosBlacklist.Cmdline
import PrototypeKernel.DdosBlacklist.DropCount
import Mathlib.Algebra.BigOperators.Fin

/-! # Histories of the whole filter

Both blacklists are changed, by calls that fail or succeed, with packets on all CPUs in between. The
program then drops what was last added: an address that is listed counts on each CPU the packets
that came from it since it was added, and the tool shows the sum. A port is listed for a protocol
when the last call that wrote its values for the protocol was to add; but a call whose lookup has
failed writes the values of the other protocol too, as not listed. -/

namespace DdosBlacklist

variable {C : ℕ}

/-! ## Histories -/

/-- A call of `blacklist_modify()`, one of `blacklist_port_modify()` with the counters behind its
`countfd` and the syscalls that fail, or a packet on a CPU. -/
inductive Change (C : ℕ) where
  | addr (host : Host) (ipString : List Char) (action : UInt32)
  | port (c : Call) (countfd : Filter) (faults : Faults)
  | packet (cpu : Fin C) (p : Packet)

/-- The maps after a change. -/
def Maps.change (m : Maps C) : Change C → Maps C
  | .addr host ipString action =>
      match (blacklistModify host m ipString action).result with
      | .ok res => res.2
      | .error _ => m
  | .port c countfd faults => (c.modify countfd faults m).2
  | .packet cpu p => m.event (.packet cpu p)

/-- The maps after a history. -/
def Maps.changes (m : Maps C) (es : List (Change C)) : Maps C := es.foldl Maps.change m

/-- The packet is read as one from address `src`. -/
def fromAddr (p : Packet) (src : UInt32) : Bool :=
  match parseEth p with
  | some (some (ethProto, l3Offset)) =>
      ethProto = ethPIp && decide (l3Offset + ipHlen ≤ p.length) &&
        decide (p.u32 (l3Offset + 12) = some src)
  | _ => false

/-- The packet is read as one of protocol `f` to port `dport`, which is looked for behind an IPv4
header without options. -/
def toPort (p : Packet) (f : Filter) (dport : UInt16) : Bool :=
  match parseEth p with
  | some (some (ethProto, l3Offset)) =>
      ethProto = ethPIp && decide (l3Offset + ipHlen + f.hlen ≤ p.length) &&
        decide (p.u8 (l3Offset + 9) = some f.ipproto) &&
        decide (p.be16 (l3Offset + ipHlen + 2) = some dport)
  | _ => false

/-- What a call makes of the entry of an address: one that is listed is not added again. -/
def addrEntry {β : Type*} (host : Host) (ipString : List Char) (action src : UInt32) (zero : β)
    (entry : Option β) : Option β :=
  if inetPton ipString = some src ∧ host.ipFault = none then
    if action = actionAdd then some (entry.getD zero)
    else if action = actionDel then none
    else entry
  else entry

/-- The packets from an address since it was added, on each CPU, if it is listed. -/
def Change.count (src : UInt32) (counts : Option (Fin C → ℕ)) : Change C → Option (Fin C → ℕ)
  | .addr host ipString action => addrEntry host ipString action src (fun _ => 0) counts
  | .port .. => counts
  | .packet cpu p =>
      if fromAddr p src then counts.map fun n => Function.update n cpu (n cpu + 1) else counts

/-- The packets from an address since it was last added, if it is listed after a history. -/
def sinceAdded (es : List (Change C)) (src : UInt32) : Option (Fin C → ℕ) :=
  es.foldl (Change.count src) none

/-- What a change writes about a protocol of a port. A call whose lookup has failed writes zeroes
for the other protocol. -/
def Change.writes (i : Fin portMax) (f : Filter) : Change C → Option Bool
  | .port c _ faults =>
      match c.request with
      | some r =>
          if r.port = i ∧ faults.update = none then
            if f = r.filter then some r.add else if faults.lookup = none then none else some false
          else none
      | none => none
  | _ => none

/-- The protocol of the port is listed by what was last written about it in a history. -/
def portAdded (es : List (Change C)) (i : Fin portMax) (f : Filter) : Bool :=
  (es.filterMap (Change.writes i f)).getLast?.getD false

/-- The verdict that a change counts, with the CPU: that of a packet with a known network header. -/
def Change.verdict (m : Maps C) : Change C → Option (Fin C × UInt32)
  | .packet cpu p =>
      match parseEth p with
      | some (some _) => (xdpProgram cpu p m).map fun r => (cpu, r.1)
      | _ => none
  | _ => none

/-- The verdicts that a history counts. -/
def verdicts : Maps C → List (Change C) → List (Fin C × UInt32)
  | _, [] => []
  | m, e :: es => (e.verdict m).toList ++ verdicts (m.change e) es

/-- A packet on CPU `cpu` with a known network header. -/
def Change.accepted (cpu : Fin C) : Change C → Bool
  | .packet cpu' p => decide (cpu' = cpu) && (parseEth p).any Option.isSome
  | _ => false

/-! ## Calls of `blacklist_modify()` -/

/-- The code that `blacklist_modify()` returns. -/
def modifyCode (host : Host) (ipString : List Char) (action : UInt32)
    (listed : UInt32 → Bool) : ℤ :=
  match inetPton ipString with
  | none => exitFailIp
  | some key =>
      if action = actionAdd then (host.ipFault.map exitOfErrno).getD exitOk
      else if action = actionDel then
        (host.ipFault.map exitOfErrno).getD (if listed key then exitOk else exitFailMapKey)
      else exitFailOption

/-- The maps with other addresses. -/
def Maps.setBlacklist (m : Maps C) (blacklist : UInt32 → Option (Fin C → UInt64)) : Maps C :=
  { m with blacklist := blacklist }

/-- A text that is no address changes no entry. -/
theorem addrEntry_of_invalid {β : Type*} {ipString : List Char} (hip : inetPton ipString = none)
    (host : Host) (action src : UInt32) (zero : β) (entry : Option β) :
    addrEntry host ipString action src zero entry = entry := by
  simp [addrEntry, hip]

/-- A call that the kernel lets fail changes no entry. -/
theorem addrEntry_of_ipFault {β : Type*} {host : Host} {errno : ℤ}
    (hfault : host.ipFault = some errno) (ipString : List Char) (action src : UInt32) (zero : β)
    (entry : Option β) : addrEntry host ipString action src zero entry = entry := by
  simp [addrEntry, hfault]

/-- What a call for an address makes of its entry when the kernel does not let it fail. -/
def changedEntry {β : Type*} (action : UInt32) (zero : β) (entry : Option β) : Option β :=
  if action = actionAdd then some (entry.getD zero)
  else if action = actionDel then none
  else entry

/-- A call that the kernel does not let fail changes the entry of its address. -/
theorem addrEntry_of_inetPton {β : Type*} {host : Host} {ipString : List Char} {key : UInt32}
    (hip : inetPton ipString = some key) (hfault : host.ipFault = none) (action src : UInt32)
    (zero : β) (entry : Option β) :
    addrEntry host ipString action src zero entry =
      if src = key then changedEntry action zero entry else entry := by
  by_cases hsrc : src = key
  · simp [addrEntry, changedEntry, hip, hfault, hsrc]
  · simp [addrEntry, hip, hsrc, Ne.symm hsrc]

/-- The maps in which one entry is changed. -/
theorem setBlacklist_ite (m : Maps C) (key : UInt32)
    (f : Option (Fin C → UInt64) → Option (Fin C → UInt64)) :
    m.setBlacklist (fun src => if src = key then f (m.blacklist src) else m.blacklist src)
      = m.setBlacklist (Function.update m.blacklist key (f (m.blacklist key))) := by
  refine congrArg m.setBlacklist (funext fun src => ?_)
  by_cases hsrc : src = key
  · rw [if_pos hsrc, hsrc, Function.update_self]
  · rw [if_neg hsrc, Function.update_of_ne hsrc]

/-- An entry that stays what it is leaves the maps alone. -/
theorem setBlacklist_self (m : Maps C) {key : UInt32} {entry : Option (Fin C → UInt64)}
    (h : m.blacklist key = entry) :
    m.setBlacklist (Function.update m.blacklist key entry) = m := by
  rw [← h, Function.update_eq_self]
  rfl

/-- **What `blacklist_modify()` does.** -/
theorem result_blacklistModify (host : Host) (m : Maps C) (ipString : List Char)
    (action : UInt32) :
    (blacklistModify host m ipString action).result = .ok
      (modifyCode host ipString action fun src => (m.blacklist src).isSome,
        m.setBlacklist fun src =>
          addrEntry host ipString action src (fun _ => 0) (m.blacklist src)) := by
  unfold blacklistModify modifyCode
  cases hip : inetPton ipString with
  | none =>
    simp only [addrEntry_of_invalid hip]
    rfl
  | some key =>
    dsimp only
    rw [replicate_eq_ofFn, updateElem_ofFn, Logged.ok_bind]
    cases hfault : host.ipFault with
    | some errno =>
      -- no entry is changed, and the code tells why
      simp only [addrEntry_of_ipFault hfault]
      split
      · rfl
      · split <;> rfl
    | none =>
      simp only [addrEntry_of_inetPton hip hfault, setBlacklist_ite]
      by_cases hadd : action = actionAdd
      · rw [if_pos hadd, if_pos hadd, changedEntry, if_pos hadd]
        cases hlisted : m.blacklist key with
        | none => rfl
        | some values =>
          -- the kernel finds the address, which is no failure for the tool
          rw [Option.getD_some, setBlacklist_self m hlisted]
          simp [attempt, exitOfErrno]
      · rw [if_neg hadd, if_neg hadd, changedEntry, if_neg hadd]
        by_cases hdel : action = actionDel
        · rw [if_pos hdel, if_pos hdel, if_pos hdel]
          rcases Option.eq_none_or_eq_some (m.blacklist key) with hlisted | ⟨values, hlisted⟩
          · rw [setBlacklist_self m hlisted]
            simp only [hlisted]
            rfl
          · simp only [hlisted]
            rfl
        · rw [if_neg hdel, if_neg hdel, if_neg hdel, setBlacklist_self m rfl]
          rfl

/-! ## One change -/

/-- A packet is from an address when this is the source in its IPv4 header. -/
theorem fromAddr_iff {p : Packet} {ethProto : UInt16} {l3Offset : ℕ}
    (hparse : parseEth p = some (some (ethProto, l3Offset))) (src : UInt32) :
    fromAddr p src ↔ ethProto = ethPIp ∧ l3Offset + ipHlen ≤ p.length ∧
      p.u32 (l3Offset + 12) = some src := by
  simp [fromAddr, hparse, and_assoc]

/-- `parse_port()` leaves the addresses alone. -/
theorem blacklist_parsePort {cpu : Fin C} {p : Packet} {proto : UInt8} {hdr : ℕ} {m m' : Maps C}
    {action : UInt32} (hrun : parsePort cpu p proto hdr m = some (action, m')) :
    m'.blacklist = m.blacklist := by
  by_cases hf : ∃ f : Filter, proto = f.ipproto
  · obtain ⟨f, rfl⟩ := hf
    rw [parsePort_filter] at hrun
    split at hrun
    · cases hrun
      rfl
    · obtain ⟨dport, -, hverdict⟩ := Option.map_eq_some_iff.mp hrun
      obtain ⟨i, hindex, -⟩ := exists_index dport
      rw [portVerdict, hindex] at hverdict
      dsimp only at hverdict
      split at hverdict
      · cases hverdict
        exact setDropCount_blacklist ..
      · cases hverdict
        rfl
  · rw [parsePort_other fun f heq => hf ⟨f, heq⟩] at hrun
    cases hrun
    rfl

/-- What `handle_eth_protocol()` leaves in the entry of an address. -/
theorem blacklist_handleEthProtocol {cpu : Fin C} {p : Packet} {ethProto : UInt16} {l3Offset : ℕ}
    {m m' : Maps C} {action : UInt32} (hparse : parseEth p = some (some (ethProto, l3Offset)))
    (hrun : handleEthProtocol cpu p ethProto l3Offset m = some (action, m')) (src : UInt32) :
    m'.blacklist src =
        (if fromAddr p src then
          (m.blacklist src).map fun v => Function.update v cpu (v cpu + 1)
        else m.blacklist src) ∧
      (fromAddr p src → (m.blacklist src).isSome → action = xdpDrop) := by
  simp only [fromAddr_iff hparse]
  rcases handleEthProtocol_cases cpu p ethProto l3Offset with
    ⟨hnot, action', -, hcase⟩ | ⟨⟨hip, hlen⟩, src', proto, hsrc, -, hcase⟩
  · rw [hcase] at hrun
    cases hrun
    have hfrom : ¬ (ethProto = ethPIp ∧ l3Offset + ipHlen ≤ p.length ∧
        p.u32 (l3Offset + 12) = some src) := fun h => hnot ⟨h.1, h.2.1⟩
    rw [if_neg hfrom]
    exact ⟨rfl, fun h => absurd h hfrom⟩
  · rw [hcase] at hrun
    have hfrom : (ethProto = ethPIp ∧ l3Offset + ipHlen ≤ p.length ∧
        p.u32 (l3Offset + 12) = some src) ↔ src = src' := by
      simp [hip, hsrc, hlen, eq_comm]
    simp only [hfrom]
    cases hlisted : m.blacklist src' with
    | some values =>
      rw [hlisted] at hrun
      cases hrun
      refine ⟨?_, fun _ _ => rfl⟩
      by_cases heq : src = src'
      · simp [Maps.countAddr, heq, hlisted]
      · simp [Maps.countAddr, heq]
    | none =>
      -- the address of the packet is not listed, so no entry changes
      rw [hlisted] at hrun
      rw [blacklist_parsePort hrun]
      by_cases heq : src = src'
      · simp [heq, hlisted]
      · simp [heq]

/-- Counting a verdict lists no address. -/
theorem blacklist_statsActionVerdict (cpu : Fin C) (action : UInt32) (m : Maps C) :
    (statsActionVerdict cpu action m).blacklist = m.blacklist := by
  unfold statsActionVerdict
  split <;> [rfl; split <;> rfl]

/-- **A packet is counted for its address if this is listed**, and then it is dropped. -/
theorem blacklist_packet (m : Maps C) (cpu : Fin C) (p : Packet) (src : UInt32) :
    (m.event (.packet cpu p)).blacklist src =
        (if fromAddr p src then
          (m.blacklist src).map fun v => Function.update v cpu (v cpu + 1)
        else m.blacklist src) ∧
      (fromAddr p src → (m.blacklist src).isSome →
        (xdpProgram cpu p m).map Prod.fst = some xdpDrop) := by
  rw [Maps.event, xdpProgram]
  obtain ⟨r, hparse⟩ := exists_parseEth p
  cases r with
  | none => simp [hparse, fromAddr]
  | some r =>
    obtain ⟨ethProto, l3Offset⟩ := r
    obtain ⟨action, m', hrun, -⟩ := handleEthProtocol_outcome cpu p ethProto l3Offset m
    simp only [hparse, hrun, Option.bind_eq_bind, Option.bind_some, Option.pure_def,
      Option.map_some, Option.getD_some, blacklist_statsActionVerdict, Option.some.injEq]
    exact blacklist_handleEthProtocol hparse hrun src

/-- A change of the port blacklist leaves the addresses and the counts of verdicts alone. -/
theorem rest_port (m : Maps C) (c : Call) (countfd : Filter) (faults : Faults) :
    (m.change (.port c countfd faults)).blacklist = m.blacklist ∧
      (m.change (.port c countfd faults)).verdictCnt = m.verdictCnt := by
  rw [Maps.change]
  cases hreq : c.request with
  | none =>
    rw [modify_of_invalid hreq]
    exact ⟨rfl, rfl⟩
  | some r =>
    rw [modify_of_request hreq]
    cases faults.update with
    | some errno => exact ⟨rfl, rfl⟩
    | none =>
      dsimp only
      split
      · exact ⟨rfl, rfl⟩
      · split
        · exact ⟨rfl, rfl⟩
        · exact ⟨setDropCount_blacklist .., setDropCount_verdictCnt ..⟩

/-- **What a change makes of the entry of an address**, when the counts are those of the entry. -/
theorem blacklist_change {m : Maps C} {src : UInt32} {counts : Option (Fin C → ℕ)}
    (h : m.blacklist src = counts.map fun n cpu => UInt64.ofNat (n cpu)) (e : Change C) :
    (m.change e).blacklist src
      = (e.count src counts).map fun n cpu => UInt64.ofNat (n cpu) := by
  cases e with
  | addr host ipString action =>
    rw [Maps.change, result_blacklistModify]
    simp only [Maps.setBlacklist, Change.count, addrEntry, h]
    split
    · split
      · cases counts <;> rfl
      · split <;> rfl
    · rfl
  | port c countfd faults =>
    rw [(rest_port m c countfd faults).1, h]
    rfl
  | packet cpu p =>
    rw [Maps.change, (blacklist_packet m cpu p src).1, h, Change.count]
    split
    · cases counts with
      | none => rfl
      | some n =>
        simp only [Option.map_some, Option.some.injEq]
        funext cpu'
        by_cases hcpu : cpu' = cpu
        · simp [hcpu, UInt64.ofNat_add]
        · simp [hcpu]
    · rfl

/-! ## The port blacklist -/

/-- **What a change makes of the values of a port**, when they are the bits of certain protocols. -/
theorem portBlacklist_change {m : Maps C} {i : Fin portMax} {on : Filter → Bool}
    (h : m.portBlacklist i = fun _ => filterValue on) (e : Change C) :
    (m.change e).portBlacklist i
      = fun _ => filterValue fun f => (e.writes i f).getD (on f) := by
  cases e with
  | addr host ipString action =>
    rw [Maps.change, result_blacklistModify]
    exact h
  | packet cpu p =>
    rw [Maps.change, (event_packet m cpu p).1]
    exact h
  | port c countfd faults =>
    rw [Maps.change]
    cases hreq : c.request with
    | none =>
      rw [modify_of_invalid hreq, h]
      simp only [Change.writes, hreq, Option.getD_none]
    | some r =>
      cases hupdate : faults.update with
      | some errno =>
        -- nothing is written
        rw [modify_of_request hreq, hupdate]
        dsimp only
        rw [h]
        simp [Change.writes, hreq, hupdate]
      | none =>
        rw [portBlacklist_modify hreq hupdate]
        by_cases hi : i = r.port
        swap
        · rw [Function.update_of_ne hi, h]
          simp [Change.writes, hreq, Ne.symm hi]
        have hold : (if faults.lookup.isSome then fun _ => 0 else m.portBlacklist r.port)
            = fun _ : Fin C => filterValue fun f => faults.lookup.isNone && on f := by
          cases faults.lookup with
          | none => exact hi ▸ h
          | some errno => exact funext fun _ => filterValue_false.symm
        have hwrites : ∀ f, (Change.port c countfd faults : Change C).writes r.port f =
            if f = r.filter then some r.add
            else if faults.lookup = none then none else some false := by
          intro f
          rw [Change.writes, hreq]
          exact if_pos ⟨rfl, hupdate⟩
        rw [hi, Function.update_self, Request.written, hold, change_filterValue]
        refine funext fun _ => congrArg filterValue (funext fun f => ?_)
        rw [hwrites]
        by_cases hf : f = r.filter
        · rw [if_pos hf, if_pos hf]
          rfl
        · rw [if_neg hf, if_neg hf]
          cases faults.lookup <;> rfl

/-- What is written last counts. -/
theorem portAdded_append_singleton (es : List (Change C)) (e : Change C) (i : Fin portMax)
    (f : Filter) : portAdded (es ++ [e]) i f = (e.writes i f).getD (portAdded es i f) := by
  rw [portAdded, List.filterMap_append]
  cases hwrites : e.writes i f with
  | none => simp [hwrites, portAdded]
  | some b => simp [hwrites]

/-- The last change is made after the others. -/
theorem changes_append_singleton (m : Maps C) (es : List (Change C)) (e : Change C) :
    m.changes (es ++ [e]) = (m.changes es).change e := by
  rw [Maps.changes, List.foldl_append]
  rfl

/-- **The values of a port after a history** are the bits of the protocols that are listed. -/
theorem portBlacklist_changes (es : List (Change C)) (i : Fin portMax) :
    ((Maps.zero C).changes es).portBlacklist i = fun _ => filterValue (portAdded es i) := by
  induction es using List.reverseRecOn with
  | nil => exact funext fun _ => filterValue_false.symm
  | append_singleton es e ih =>
    rw [changes_append_singleton, portBlacklist_change ih]
    exact funext fun _ => congrArg filterValue (funext fun f =>
      (portAdded_append_singleton es e i f).symm)

/-! ## What is dropped -/

/-- A packet is to a port when this is what `parse_port()` reads of it. -/
theorem toPort_iff {p : Packet} {ethProto : UInt16} {l3Offset : ℕ}
    (hparse : parseEth p = some (some (ethProto, l3Offset))) (f : Filter) (dport : UInt16) :
    toPort p f dport ↔ ethProto = ethPIp ∧ l3Offset + ipHlen + f.hlen ≤ p.length ∧
      p.u8 (l3Offset + 9) = some f.ipproto ∧ p.be16 (l3Offset + ipHlen + 2) = some dport := by
  simp [toPort, hparse, and_assoc]

/-- The verdict of a packet with a network header. -/
theorem xdpProgram_fst {cpu : Fin C} {p : Packet} {m : Maps C} {ethProto : UInt16} {l3Offset : ℕ}
    (hparse : parseEth p = some (some (ethProto, l3Offset))) :
    (xdpProgram cpu p m).map Prod.fst
      = (handleEthProtocol cpu p ethProto l3Offset m).map Prod.fst := by
  rw [xdpProgram, hparse]
  simp only [Option.bind_eq_bind, Option.bind_some]
  cases handleEthProtocol cpu p ethProto l3Offset m <;> rfl

/-- `XDP_PASS` is not `XDP_DROP`. -/
theorem pass_ne_drop : some xdpPass ≠ some xdpDrop := by decide

/-- `XDP_ABORTED` is not `XDP_DROP`. -/
theorem aborted_ne_drop : some xdpAborted ≠ some xdpDrop := by decide

/-- The verdict of `parse_port()`, by the port that it reads. -/
theorem parsePort_fst_drop_iff (cpu : Fin C) {p : Packet} {proto : UInt8} {hdr : ℕ} (m : Maps C) :
    (parsePort cpu p proto hdr m).map Prod.fst = some xdpDrop ↔ ∃ f : Filter, ∃ dport,
      proto = f.ipproto ∧ hdr + f.hlen ≤ p.length ∧ p.be16 (hdr + 2) = some dport ∧
        m.portListed cpu f dport := by
  by_cases hf : ∃ f : Filter, proto = f.ipproto
  swap
  · rw [parsePort_other fun f heq => hf ⟨f, heq⟩]
    exact iff_of_false pass_ne_drop fun ⟨f, _, hproto, _⟩ => hf ⟨f, hproto⟩
  obtain ⟨f, rfl⟩ := hf
  rw [parsePort_filter]
  simp only [Filter.ipproto_inj, exists_and_left, exists_eq_left']
  split
  · rename_i hshort
    exact iff_of_false aborted_ne_drop fun ⟨hlen, _⟩ => Nat.not_le.mpr hshort hlen
  · rename_i hlong
    have hlen := f.two_lt_hlen
    obtain ⟨dport, hdport⟩ := p.exists_be16 (show hdr + 2 + 2 ≤ p.length by omega)
    rw [hdport, Option.map_some, Option.map_some, portVerdict_fst]
    simp only [Nat.not_lt.mp hlong, true_and, Option.some.injEq, exists_eq_left']
    cases m.portListed cpu f dport <;> decide

/-- **What is dropped**: the packets from a listed address, and those to a listed port. -/
theorem xdpProgram_drop_iff (cpu : Fin C) (p : Packet) (m : Maps C) :
    (xdpProgram cpu p m).map Prod.fst = some xdpDrop ↔
      (∃ src, fromAddr p src ∧ (m.blacklist src).isSome) ∨
        ∃ f dport, toPort p f dport ∧ m.portListed cpu f dport := by
  obtain ⟨r, hparse⟩ := exists_parseEth p
  cases r with
  | none =>
    have hrun : xdpProgram cpu p m = some (xdpPass, m) := by
      rw [xdpProgram, hparse]
      rfl
    rw [hrun]
    refine iff_of_false pass_ne_drop ?_
    simp [fromAddr, toPort, hparse]
  | some r =>
    obtain ⟨ethProto, l3Offset⟩ := r
    rw [xdpProgram_fst hparse]
    simp only [fromAddr_iff hparse, toPort_iff hparse]
    rcases handleEthProtocol_cases cpu p ethProto l3Offset with
      ⟨hnot, action, haction, hcase⟩ | ⟨⟨hip, hlen⟩, src, proto, hsrc, hproto, hcase⟩
    · rw [hcase]
      refine iff_of_false ?_ ?_
      · rcases haction with rfl | rfl
        · exact pass_ne_drop
        · exact aborted_ne_drop
      · rintro (⟨src, ⟨hip, hle, -⟩, -⟩ | ⟨f, dport, ⟨hip, hle, -⟩, -⟩)
        · exact hnot ⟨hip, hle⟩
        · exact hnot ⟨hip, by omega⟩
    · rw [hcase, hsrc, hproto]
      have hfrom : (∃ src', (ethProto = ethPIp ∧ l3Offset + ipHlen ≤ p.length ∧
          some src = some src') ∧ (m.blacklist src').isSome) ↔ (m.blacklist src).isSome := by
        simp [hip, hlen]
      rw [hfrom]
      cases hlisted : m.blacklist src with
      | some values => exact iff_of_true rfl (.inl rfl)
      | none =>
        dsimp only
        rw [parsePort_fst_drop_iff]
        simp only [hip, true_and, Option.some.injEq, Option.isSome_none, Bool.false_eq_true,
          false_or]
        refine exists_congr fun f => exists_congr fun dport => ?_
        tauto

/-- The verdict of `parse_port()` depends on the listed ports alone. -/
theorem parsePort_fst_congr {m m' : Maps C} (hports : m'.portBlacklist = m.portBlacklist)
    (cpu : Fin C) (p : Packet) (proto : UInt8) (hdr : ℕ) :
    (parsePort cpu p proto hdr m').map Prod.fst = (parsePort cpu p proto hdr m).map Prod.fst := by
  by_cases hf : ∃ f : Filter, proto = f.ipproto
  · obtain ⟨f, rfl⟩ := hf
    rw [parsePort_filter, parsePort_filter]
    split
    · rfl
    · have hsame : ∀ dport, m'.portListed cpu f dport = m.portListed cpu f dport := by
        intro dport
        rw [Maps.portListed, Maps.portListed, hports]
      simp only [Option.map_map, Function.comp_def, portVerdict_fst, hsame]
  · rw [parsePort_other fun f heq => hf ⟨f, heq⟩, parsePort_other fun f heq => hf ⟨f, heq⟩]
    rfl

/-- **The verdict depends on the lists alone**, on every packet. -/
theorem verdict_congr {m m' : Maps C}
    (haddrs : ∀ src, (m'.blacklist src).isSome = (m.blacklist src).isSome)
    (hports : m'.portBlacklist = m.portBlacklist) (cpu : Fin C) (p : Packet) :
    (xdpProgram cpu p m').map Prod.fst = (xdpProgram cpu p m).map Prod.fst := by
  obtain ⟨r, hparse⟩ := exists_parseEth p
  cases r with
  | none =>
    rw [xdpProgram, xdpProgram, hparse]
    rfl
  | some r =>
    obtain ⟨ethProto, l3Offset⟩ := r
    rw [xdpProgram_fst hparse, xdpProgram_fst hparse]
    rcases handleEthProtocol_cases cpu p ethProto l3Offset with
      ⟨-, action, -, hcase⟩ | ⟨-, src, proto, -, -, hcase⟩
    · rw [hcase, hcase]
      rfl
    · rw [hcase, hcase]
      have hsame := haddrs src
      cases hlisted : m.blacklist src with
      | some values =>
        rw [hlisted] at hsame
        obtain ⟨values', hlisted'⟩ := Option.isSome_iff_exists.mp hsame
        rw [hlisted']
        rfl
      | none =>
        rw [hlisted] at hsame
        rw [Option.isNone_iff_eq_none.mp (Option.isSome_eq_false_iff.mp hsame)]
        exact parsePort_fst_congr hports cpu p proto (l3Offset + ipHlen)

/-! ## The counts of verdicts -/

/-- A change counts its verdict. -/
theorem verdictCnt_change (m : Maps C) (e : Change C) (i : Fin xdpActionMax.toNat) (cpu : Fin C) :
    (m.change e).verdictCnt i cpu = m.verdictCnt i cpu +
      UInt64.ofNat ((e.verdict m).toList.count (cpu, UInt32.ofNat i)) := by
  cases e with
  | addr host ipString action =>
    rw [Maps.change, result_blacklistModify]
    exact (UInt64.add_zero _).symm
  | port c countfd faults =>
    rw [(rest_port m c countfd faults).2]
    exact (UInt64.add_zero _).symm
  | packet cpu' p =>
    obtain ⟨action, m', hrun, -, hcount, hnone, -⟩ := xdpProgram_accounting cpu' p m
    rw [Maps.change, Maps.event, hrun, Option.map_some, Option.getD_some, Change.verdict, hrun]
    obtain ⟨r, hparse⟩ := exists_parseEth p
    rw [hparse]
    cases r with
    | none =>
      rw [hnone hparse]
      exact (UInt64.add_zero _).symm
    | some r =>
      have hi : i.val < 4 := i.isLt
      have haction : UInt32.ofNat i = action ↔ i.val = action.toNat := by
        rw [← UInt32.toNat_inj, UInt32.toNat_ofNat', Nat.mod_eq_of_lt (by omega)]
      rw [hcount ⟨r, hparse⟩]
      simp only [Option.map_some, Option.toList_some, List.count_singleton, beq_iff_eq,
        Prod.mk.injEq]
      by_cases hsame : i.val = action.toNat ∧ cpu = cpu'
      · rw [if_pos hsame, if_pos ⟨hsame.2.symm, (haction.mpr hsame.1).symm⟩]
        rfl
      · rw [if_neg hsame, if_neg fun h => hsame ⟨haction.mp h.2.symm, h.1.symm⟩]
        exact (UInt64.add_zero _).symm

/-- **A counter of verdicts counts the verdicts**, modulo 2^64. -/
theorem verdictCnt_changes (m : Maps C) (es : List (Change C)) (i : Fin xdpActionMax.toNat)
    (cpu : Fin C) :
    (m.changes es).verdictCnt i cpu = m.verdictCnt i cpu +
      UInt64.ofNat ((verdicts m es).count (cpu, UInt32.ofNat i)) := by
  induction es generalizing m with
  | nil => exact (UInt64.add_zero _).symm
  | cons e es ih =>
    rw [Maps.changes, List.foldl_cons, ← Maps.changes, ih, verdictCnt_change, verdicts,
      List.count_append, UInt64.ofNat_add, UInt64.add_assoc]

/-- A packet with a known network header has one verdict, which is counted. -/
theorem countP_verdict (m : Maps C) (e : Change C) (cpu : Fin C) :
    (e.verdict m).toList.countP (fun v => v.1 = cpu) = if e.accepted cpu then 1 else 0 := by
  cases e with
  | addr | port => rfl
  | packet cpu' p =>
    obtain ⟨action, m', hrun, -⟩ := xdpProgram_accounting cpu' p m
    obtain ⟨r, hparse⟩ := exists_parseEth p
    rw [Change.verdict, Change.accepted, hrun, hparse]
    cases r with
    | none => simp
    | some r => simp [List.countP_singleton]

/-- A CPU has a verdict for each packet that it accepts. -/
theorem countP_verdicts (m : Maps C) (es : List (Change C)) (cpu : Fin C) :
    (verdicts m es).countP (fun v => v.1 = cpu) = es.countP (Change.accepted cpu) := by
  induction es generalizing m with
  | nil => rfl
  | cons e es ih =>
    rw [verdicts, List.countP_append, countP_verdict, ih, List.countP_cons, Nat.add_comm]

/-! ## What the tool shows -/

/-- A sum of counters is that of the numbers, modulo 2^64. -/
theorem foldl_ofNat (l : List ℕ) (a : ℕ) :
    (l.map UInt64.ofNat).foldl (· + ·) (UInt64.ofNat a) = UInt64.ofNat (a + l.sum) := by
  induction l generalizing a with
  | nil => rfl
  | cons n l ih =>
    rw [List.map_cons, List.foldl_cons, ← UInt64.ofNat_add, ih, List.sum_cons, Nat.add_assoc]

/-- The sum over the CPUs is the sum of the counts, modulo 2^64. -/
theorem sumPercpu_ofNat (n : Fin C → ℕ) :
    sumPercpu (fun cpu => UInt64.ofNat (n cpu)) = UInt64.ofNat (∑ cpu, n cpu) := by
  have hmap : List.ofFn (fun cpu => UInt64.ofNat (n cpu)) = (List.ofFn n).map UInt64.ofNat := by
    rw [List.map_ofFn]
    rfl
  have hzero : (0 : UInt64) = UInt64.ofNat 0 := rfl
  rw [sumPercpu, hmap, hzero, foldl_ofNat, Nat.zero_add, List.sum_ofFn]

/-! ## Every history -/

/-- **What the lists do** when they hold what two histories say, that of the addresses and that of
the ports. -/
structure Filters (addrs ports : List (Change C)) (m : Maps C) : Prop where
  /-- An address is listed when the last call for it that did not fail was to add, and it counts the
  packets that came from it since. -/
  counts : ∀ src, m.blacklist src
    = (sinceAdded addrs src).map fun n cpu => UInt64.ofNat (n cpu)
  /-- The tool shows the sum of an address. -/
  shown : ∀ host src n, sinceAdded addrs src = some n →
    (getKey32Value64Percpu host m .blacklist src).result = .ok (UInt64.ofNat (∑ cpu, n cpu))
  /-- Each CPU has the bits of the protocols for which a port is listed. -/
  values : ∀ i, m.portBlacklist i = fun _ => filterValue (portAdded ports i)
  /-- A packet is dropped exactly when its source address is listed, or the port that is read from
  it, which with IPv4 options is not its destination port. -/
  drops : ∀ cpu p, (xdpProgram cpu p m).map Prod.fst = some xdpDrop ↔
    (∃ src, fromAddr p src ∧ (sinceAdded addrs src).isSome) ∨
      ∃ f dport, toPort p f dport ∧ portAdded ports ⟨dport.toNat, dport.toNat_lt⟩ f
  /-- A frame without IPv4 options is dropped exactly when its source address or its destination
  port is listed, and passes otherwise. -/
  frames : ∀ cpu p l3Offset f src dport, Frame p l3Offset 5 f src dport →
    (xdpProgram cpu p m).map Prod.fst = some
      (if (sinceAdded addrs src).isSome ∨ portAdded ports ⟨dport.toNat, dport.toNat_lt⟩ f
        then xdpDrop else xdpPass)

/-- Maps whose lists hold what two histories say. -/
theorem filters_of_lists {addrs ports : List (Change C)} {m : Maps C}
    (hcounts : ∀ src, m.blacklist src
      = (sinceAdded addrs src).map fun n cpu => UInt64.ofNat (n cpu))
    (hvalues : ∀ i, m.portBlacklist i = fun _ => filterValue (portAdded ports i)) :
    Filters addrs ports m := by
  have hlisted : ∀ src, (m.blacklist src).isSome = (sinceAdded addrs src).isSome := by
    intro src
    rw [hcounts, Option.isSome_map]
  have hports : ∀ cpu f dport, m.portListed cpu f dport
      = portAdded ports ⟨dport.toNat, dport.toNat_lt⟩ f := by
    intro cpu f dport
    rw [Maps.portListed, hvalues, portBit_filterValue]
  refine ⟨hcounts, fun host src n hn => ?_, hvalues, fun cpu p => ?_,
    fun cpu p l3Offset f src dport hframe => ?_⟩
  · have hfind : m.find .blacklist src = some fun cpu => UInt64.ofNat (n cpu) := by
      rw [Maps.find, hcounts, hn, Option.map_some]
    rw [getKey32Value64Percpu_eq host _ _ _ hfind, sumPercpu_ofNat]
  · rw [xdpProgram_drop_iff]
    simp only [hlisted, hports]
  · obtain ⟨w, hw, hrun⟩ := hframe.xdpProgram_eq cpu m
    cases hw.symm.trans (hframe.dest_of_five rfl)
    rw [hrun, hlisted, hports]

/-- **What a history leaves in the maps**, and what the program does with the next packet. -/
structure FilterHistory (es : List (Change C)) (m : Maps C) : Prop extends Filters es es m where
  /-- Unless the kernel fails, an address can be added, and it can be deleted if it is listed. -/
  codes : ∀ host ipString src, inetPton ipString = some src → host.ipFault = none →
    (blacklistModify host m ipString actionAdd).result.map Prod.fst = .ok exitOk ∧
      (blacklistModify host m ipString actionDel).result.map Prod.fst
        = .ok (if (sinceAdded es src).isSome then exitOk else exitFailMapKey)
  /-- The counters of a CPU count its verdicts. -/
  verdicts : ∀ i cpu, m.verdictCnt i cpu
    = UInt64.ofNat ((DdosBlacklist.verdicts (Maps.zero C) es).count (cpu, UInt32.ofNat i))
  /-- There is one for each packet with a known network header. -/
  accepted : ∀ cpu, (DdosBlacklist.verdicts (Maps.zero C) es).countP (fun v => v.1 = cpu)
    = es.countP (Change.accepted cpu)

/-- **Histories of the whole filter.** From empty maps on, every history of calls and packets leaves
what `FilterHistory` says, whichever of the syscalls of the calls fail. -/
theorem filter_history (es : List (Change C)) : FilterHistory es ((Maps.zero C).changes es) := by
  have hcounts : ∀ src, ((Maps.zero C).changes es).blacklist src
      = (sinceAdded es src).map fun n cpu => UInt64.ofNat (n cpu) := by
    intro src
    induction es using List.reverseRecOn with
    | nil => rfl
    | append_singleton es e ih =>
      rw [changes_append_singleton, blacklist_change ih, sinceAdded, sinceAdded, List.foldl_append]
      rfl
  refine ⟨filters_of_lists hcounts (portBlacklist_changes es),
    fun host ipString src hip hfault => ?_, fun i cpu => ?_, fun cpu => countP_verdicts ..⟩
  · have hlisted : (((Maps.zero C).changes es).blacklist src).isSome
        = (sinceAdded es src).isSome := by rw [hcounts, Option.isSome_map]
    rw [result_blacklistModify, result_blacklistModify]
    simp [Except.map, modifyCode, hip, hfault, hlisted, show actionDel ≠ actionAdd by decide]
  · rw [verdictCnt_changes]
    exact UInt64.zero_add _

end DdosBlacklist
