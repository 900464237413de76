import PrototypeKernel.DdosBlacklist.History

/-! # What a drop counter counts

`parse_port()` increments the 64-bit counters through a pointer to `u32`. So from a reset on, a
counter holds the number of packets that were dropped for its port and protocol on its CPU, modulo
2^32. -/

namespace DdosBlacklist

variable {C : ℕ}

/-! ## The packets that are counted -/

/-- **The packet is dropped for a port**: it is IPv4, from an address that is not listed, with a
complete header of the protocol and this port, which is listed on the CPU. -/
def droppedFor (cpu : Fin C) (p : Packet) (m : Maps C) (f : Filter) (i : Fin portMax) : Bool :=
  match parseEth p with
  | some (some (ethProto, l3Offset)) =>
      ethProto = ethPIp && decide (l3Offset + ipHlen + f.hlen ≤ p.length) &&
        (p.u32 (l3Offset + 12)).any (fun src => (m.blacklist src).isNone) &&
        decide (p.u8 (l3Offset + 9) = some f.ipproto) &&
        decide ((p.be16 (l3Offset + ipHlen + 2)).map UInt16.toNat = some i.val) &&
        portBit f (m.portBlacklist i cpu)
  | _ => false

/-- The number of packets in a run that are dropped on CPU `cpu` for a port. -/
def dropsInRun (cpu : Fin C) (f : Filter) (i : Fin portMax) : Maps C → List (Event C) → ℕ
  | _, [] => 0
  | m, .call c :: es => dropsInRun cpu f i (m.event (.call c)) es
  | m, .packet cpu' p :: es =>
      (if cpu' = cpu ∧ droppedFor cpu p m f i then 1 else 0) +
        dropsInRun cpu f i (m.event (.packet cpu' p)) es

/-- What the lookup of the port leaves in the counters. -/
theorem dropCount_portVerdict (cpu : Fin C) (g : Filter) (dport : UInt16) (m : Maps C) (f : Filter)
    (i : Fin portMax) (cpu' : Fin C) :
    (portVerdict cpu g dport m).2.dropCountByFproto f i cpu' =
      if cpu' = cpu ∧ g = f ∧ dport.toNat = i ∧ portBit f (m.portBlacklist i cpu) then
        addOneLow (m.dropCountByFproto f i cpu')
      else m.dropCountByFproto f i cpu' := by
  obtain ⟨j, hindex, hj⟩ := exists_index dport
  rw [portVerdict, hindex]
  dsimp only
  by_cases hg : g = f
  · subst hg
    by_cases hi : i = j
    · subst hi
      by_cases hbit : portBit g (m.portBlacklist i cpu)
      · rw [if_pos hbit, dropCountByFproto_setDropCount]
        by_cases hcpu : cpu' = cpu
        · rw [hcpu, PercpuArray.modify_self, if_pos ⟨rfl, rfl, hj, hbit⟩]
        · rw [PercpuArray.modify_of_ne _ _ (by simp [hcpu]), if_neg (by simp [hcpu])]
      · rw [if_neg hbit, if_neg (by simp [hbit])]
    · have hne : ¬ (cpu' = cpu ∧ g = g ∧ dport.toNat = i ∧ portBit g (m.portBlacklist i cpu)) :=
        fun h => hi (Fin.ext (h.2.2.1.symm.trans hj))
      rw [if_neg hne]
      split
      · rw [dropCountByFproto_setDropCount, PercpuArray.modify_of_ne _ _ (by simp [hi])]
      · rfl
  · have hne : ¬ (cpu' = cpu ∧ g = f ∧ dport.toNat = i ∧ portBit f (m.portBlacklist i cpu)) :=
      fun h => hg h.2.1
    rw [if_neg hne]
    split
    · rw [dropCountByFproto_setDropCount_of_ne m _ (Ne.symm hg)]
    · rfl

/-- When a packet is dropped for its port, in terms of its bytes and the lists. -/
theorem droppedFor_eq {p : Packet} {ethProto : UInt16} {l3Offset : ℕ}
    (hparse : parseEth p = some (some (ethProto, l3Offset))) (cpu : Fin C) (m : Maps C)
    (f : Filter) (i : Fin portMax) :
    droppedFor cpu p m f i ↔ ethProto = ethPIp ∧ l3Offset + ipHlen + f.hlen ≤ p.length ∧
      (∃ src, p.u32 (l3Offset + 12) = some src ∧ m.blacklist src = none) ∧
      p.u8 (l3Offset + 9) = some f.ipproto ∧
      (p.be16 (l3Offset + ipHlen + 2)).map UInt16.toNat = some i.val ∧
      portBit f (m.portBlacklist i cpu) := by
  simp [droppedFor, hparse, Option.any_eq_true, and_assoc]

/-- Different filters have different protocols. -/
theorem Filter.ipproto_inj {f g : Filter} : f.ipproto = g.ipproto ↔ f = g := by
  cases f <;> cases g <;> decide

/-- What `parse_port()` leaves in the counters. -/
theorem dropCount_parsePort {cpu : Fin C} {p : Packet} {proto : UInt8} {hdr : ℕ} {m m' : Maps C}
    {action : UInt32} (hrun : parsePort cpu p proto hdr m = some (action, m')) (f : Filter)
    (i : Fin portMax) (cpu' : Fin C) :
    m'.dropCountByFproto f i cpu' =
      if cpu' = cpu ∧ proto = f.ipproto ∧ hdr + f.hlen ≤ p.length ∧
          (p.be16 (hdr + 2)).map UInt16.toNat = some i.val ∧ portBit f (m.portBlacklist i cpu) then
        addOneLow (m.dropCountByFproto f i cpu')
      else m.dropCountByFproto f i cpu' := by
  by_cases hg : ∃ g : Filter, proto = g.ipproto
  · obtain ⟨g, rfl⟩ := hg
    rw [parsePort_filter] at hrun
    simp only [Filter.ipproto_inj]
    by_cases hfull : hdr + g.hlen > p.length
    · rw [if_pos hfull] at hrun
      cases hrun
      refine (if_neg ?_).symm
      rintro ⟨-, rfl, hfits, -⟩
      omega
    · have hlen4 := g.two_lt_hlen
      obtain ⟨dport, hdport⟩ := p.exists_be16 (show hdr + 2 + 2 ≤ p.length by omega)
      rw [if_neg hfull, hdport, Option.map_some, Option.some.injEq] at hrun
      rw [show m' = (portVerdict cpu g dport m).2 by rw [hrun], dropCount_portVerdict]
      -- both sides ask for the same
      refine if_congr ?_ rfl rfl
      rw [hdport, Option.map_some, Option.some.injEq]
      constructor
      · rintro ⟨rfl, rfl, hi, hbit⟩
        exact ⟨rfl, rfl, Nat.not_lt.mp hfull, hi, hbit⟩
      · rintro ⟨rfl, rfl, -, hi, hbit⟩
        exact ⟨rfl, rfl, hi, hbit⟩
  · rw [parsePort_other fun g heq => hg ⟨g, heq⟩] at hrun
    cases hrun
    refine (if_neg ?_).symm
    rintro ⟨-, hf, -⟩
    exact hg ⟨f, hf⟩

/-- What `handle_eth_protocol()` leaves in the counters. -/
theorem dropCount_handleEthProtocol {cpu : Fin C} {p : Packet} {ethProto : UInt16} {l3Offset : ℕ}
    {m m' : Maps C} {action : UInt32}
    (hparse : parseEth p = some (some (ethProto, l3Offset)))
    (hrun : handleEthProtocol cpu p ethProto l3Offset m = some (action, m')) (f : Filter)
    (i : Fin portMax) (cpu' : Fin C) :
    m'.dropCountByFproto f i cpu' =
      if cpu = cpu' ∧ droppedFor cpu' p m f i then addOneLow (m.dropCountByFproto f i cpu')
      else m.dropCountByFproto f i cpu' := by
  simp only [droppedFor_eq hparse]
  rcases handleEthProtocol_cases cpu p ethProto l3Offset with
    ⟨hnot, action', -, hcase⟩ | ⟨⟨hip, -⟩, src, proto, hsrc, hproto, hcase⟩
  · rw [hcase] at hrun
    cases hrun
    exact (if_neg fun h => hnot ⟨h.2.1, by have := h.2.2.1; omega⟩).symm
  · rw [hcase] at hrun
    cases hlisted : m.blacklist src with
    | some values =>
      -- the address is listed
      rw [hlisted] at hrun
      cases hrun
      rw [if_neg (by simp [hsrc, hlisted])]
      cases f <;> rfl
    | none =>
      rw [hlisted] at hrun
      rw [dropCount_parsePort hrun]
      refine if_congr ?_ rfl rfl
      rw [hproto, Option.some.injEq]
      constructor
      · rintro ⟨rfl, hf, hfits, hport⟩
        exact ⟨rfl, hip, hfits, ⟨src, hsrc, hlisted⟩, hf, hport⟩
      · rintro ⟨rfl, -, hfits, -, hf, hport⟩
        exact ⟨rfl, hf, hfits, hport⟩

/-- **What a packet leaves in the counters**: it adds one to the low half of the counter that it is
dropped for. -/
theorem dropCount_packet (m : Maps C) (cpu : Fin C) (p : Packet) (f : Filter) (i : Fin portMax)
    (cpu' : Fin C) :
    (m.event (.packet cpu p)).dropCountByFproto f i cpu' =
      if cpu = cpu' ∧ droppedFor cpu' p m f i then addOneLow (m.dropCountByFproto f i cpu')
      else m.dropCountByFproto f i cpu' := by
  rw [Maps.event, xdpProgram]
  obtain ⟨r, hparse⟩ := exists_parseEth p
  cases r with
  | none => simp [hparse, droppedFor]
  | some r =>
    obtain ⟨ethProto, l3Offset⟩ := r
    obtain ⟨action, m', hrun, -⟩ := handleEthProtocol_outcome cpu p ethProto l3Offset m
    simp only [hparse, hrun, Option.bind_eq_bind, Option.bind_some, Option.pure_def,
      Option.map_some, Option.getD_some, dropCount_statsActionVerdict]
    exact dropCount_handleEthProtocol hparse hrun f i cpu'

/-- The program drops the packets that are counted. -/
theorem drop_of_droppedFor {cpu : Fin C} {p : Packet} {m : Maps C} {f : Filter} {i : Fin portMax}
    (h : droppedFor cpu p m f i) : (xdpProgram cpu p m).map Prod.fst = some xdpDrop := by
  obtain ⟨action, m', hrun, -, -, -, -, hkeep, -⟩ := xdpProgram_accounting cpu p m
  rw [hrun, Option.map_some, Option.some.injEq]
  by_contra haction
  -- another verdict would leave the counter alone
  have hsame := congrFun (congrFun (hkeep haction) cpu) (.port f i)
  have hcount := dropCount_packet m cpu p f i cpu
  rw [Maps.event, hrun, Option.map_some, Option.getD_some, if_pos ⟨rfl, h⟩] at hcount
  exact addOneLow_ne _ (hcount.symm.trans (Option.some.inj hsame))

/-- A packet does not change which addresses are listed. -/
theorem blacklist_event_packet (m : Maps C) (cpu : Fin C) (p : Packet) (src : UInt32) :
    ((m.event (.packet cpu p)).blacklist src).isNone = (m.blacklist src).isNone := by
  have hstats (action : UInt32) (m : Maps C) :
      (statsActionVerdict cpu action m).blacklist = m.blacklist := by
    unfold statsActionVerdict
    split <;> [rfl; split <;> rfl]
  rcases xdpProgram_cases cpu p m with ⟨-, hrun⟩ | ⟨_, _, action, m₁, -, hout, hrun⟩
  · rw [Maps.event, hrun]
    rfl
  · rw [Maps.event, hrun, Option.map_some, Option.getD_some, hstats]
    cases hout with
    | aborted | pass => rfl
    | port => rw [setDropCount_blacklist]
    | @addr src' values _ hlisted =>
      dsimp only [Maps.countAddr]
      by_cases hsrc : src = src'
      · rw [hsrc, Function.update_self, hlisted]
        rfl
      · rw [Function.update_of_ne hsrc]

/-- A packet does not change for which ports others are dropped. -/
theorem droppedFor_event_packet (m : Maps C) (cpu' : Fin C) (p' : Packet) (cpu : Fin C)
    (p : Packet) (f : Filter) (i : Fin portMax) :
    droppedFor cpu p (m.event (.packet cpu' p')) f i = droppedFor cpu p m f i := by
  unfold droppedFor
  simp only [blacklist_event_packet, (event_packet m cpu' p').1]

/-! ## The counts of a run -/

/-- Packets do not change which packets are dropped. -/
theorem dropsInRun_packets (cpu : Fin C) (f : Filter) (i : Fin portMax) (m : Maps C)
    (ps : List (Fin C × Packet)) :
    dropsInRun cpu f i m (ps.map fun q => .packet q.1 q.2) =
      ps.countP fun q => decide (q.1 = cpu ∧ droppedFor cpu q.2 m f i) := by
  induction ps generalizing m with
  | nil => rfl
  | cons q ps ih =>
    rw [List.map_cons, dropsInRun, ih, List.countP_cons, Nat.add_comm]
    simp only [droppedFor_event_packet, decide_eq_true_eq]

/-- A value below 2^32 stays one. -/
theorem addOneLow_toUInt64 (w : UInt32) : addOneLow w.toUInt64 = (w + 1).toUInt64 := by
  have hhigh : w.toUInt64 >>> 32 = 0 := by
    apply UInt64.toNat_inj.mp
    have hlt := w.toNat_lt
    simp [Nat.shiftRight_eq_div_pow]
    omega
  rw [addOneLow, hhigh, UInt32.toUInt32_toUInt64]
  simp

/-- **From a reset on, a counter holds the count modulo 2^32** as long as it is not reset. -/
theorem dropCount_run (cpu : Fin C) (f : Filter) (i : Fin portMax) {es : List (Event C)}
    (hreset : ∀ e ∈ es, e.request ≠ some ⟨i, f, false⟩) {m : Maps C} {w : UInt32}
    (hw : m.dropCountByFproto f i cpu = w.toUInt64) :
    (m.run es).dropCountByFproto f i cpu =
      (w + UInt32.ofNat (dropsInRun cpu f i m es)).toUInt64 := by
  induction es generalizing m w with
  | nil => simpa [Maps.run, dropsInRun] using hw
  | cons e es ih =>
    obtain ⟨he, hes⟩ := List.forall_mem_cons.mp hreset
    rw [Maps.run, List.foldl_cons, ← Maps.run]
    cases e with
    | call c =>
      have he' : c.request ≠ some ⟨i, f, false⟩ := he
      exact ih hes (by rw [dropCount_call, if_neg he', hw])
    | packet cpu' p =>
      have hevent := dropCount_packet m cpu' p f i cpu
      rw [dropsInRun]
      split
      · rename_i hdrop
        rw [if_pos hdrop, hw, addOneLow_toUInt64] at hevent
        rw [ih hes hevent, UInt32.ofNat_add, UInt32.add_assoc]
        rfl
      · rename_i hdrop
        rw [if_neg hdrop, hw] at hevent
        rw [ih hes hevent, Nat.zero_add]

/-- **When a counter holds the count modulo 2^64.** From a reset on it does so exactly when the
remainder of the count is below 2^32. -/
theorem dropCount_eq_iff {m : Maps C} {cpu : Fin C} {f : Filter} {i : Fin portMax}
    (hzero : m.dropCountByFproto f i cpu = 0) {es : List (Event C)}
    (hreset : ∀ e ∈ es, e.request ≠ some ⟨i, f, false⟩) :
    ((m.run es).dropCountByFproto f i cpu).toNat = dropsInRun cpu f i m es % 2 ^ 64 ↔
      dropsInRun cpu f i m es % 2 ^ 64 < 2 ^ 32 := by
  have hrun := dropCount_run cpu f i hreset (show _ = UInt32.toUInt64 0 from hzero)
  rw [UInt32.zero_add] at hrun
  rw [hrun, UInt32.toNat_toUInt64, UInt32.toNat_ofNat']
  omega

/-- A UDP packet to port 53. -/
def toDns : Packet :=
  List.replicate 12 0 ++ [0x08, 0x00] ++
    [0x45, 0, 0, 28, 0, 1, 0, 0, 64, 17, 0, 0, 192, 0, 2, 1, 198, 51, 100, 1] ++
    [0x13, 0x88, 0, 53, 0, 8, 0, 0]

/-- A packet to the listed UDP port 53 is dropped for it. -/
theorem droppedFor_toDns : droppedFor 0 toDns listedDns .udp ⟨53, by decide⟩ := by decide

/-- Three packets to port 53, one of them with IP options. -/
theorem dropCount_eq_iff_toDns :
    ((listedDns.run [.packet 0 toDns, .packet 0 withOptions, .packet 0 toDns]).dropCountByFproto
        .udp ⟨53, by decide⟩ 0).toNat
      = dropsInRun 0 .udp ⟨53, by decide⟩ listedDns
          [.packet 0 toDns, .packet 0 withOptions, .packet 0 toDns] % 2 ^ 64 ↔
      dropsInRun 0 .udp ⟨53, by decide⟩ listedDns
          [.packet 0 toDns, .packet 0 withOptions, .packet 0 toDns] % 2 ^ 64 < 2 ^ 32 :=
  dropCount_eq_iff rfl (by decide)

/-- The counter of port 53 after `n` packets that are dropped for it. -/
theorem dropCount_replicate (n : ℕ) :
    dropsInRun 0 .udp ⟨53, by decide⟩ listedDns (List.replicate n (.packet 0 toDns)) = n ∧
      (listedDns.run (List.replicate n (.packet 0 toDns))).dropCountByFproto .udp
        ⟨53, by decide⟩ 0 = (UInt32.ofNat n).toUInt64 := by
  have hcount := dropsInRun_packets 0 .udp ⟨53, by decide⟩ listedDns (List.replicate n (0, toDns))
  rw [List.map_replicate, List.countP_replicate, if_pos (by simp [droppedFor_toDns])] at hcount
  refine ⟨hcount, ?_⟩
  have hreset : ∀ e ∈ List.replicate n (Event.packet (0 : Fin 1) toDns),
      e.request ≠ some ⟨⟨53, by decide⟩, .udp, false⟩ := by
    intro e he
    rw [List.eq_of_mem_replicate he]
    simp [Event.request]
  have hrun := dropCount_run 0 .udp ⟨53, by decide⟩ hreset (m := listedDns) (w := 0) rfl
  rwa [hcount, UInt32.zero_add] at hrun

/-- **After 2^32 dropped packets the counter is zero again.** -/
theorem dropCount_wraps :
    dropsInRun 0 .udp ⟨53, by decide⟩ listedDns (List.replicate (2 ^ 32) (.packet 0 toDns))
        = 2 ^ 32 ∧
      ((listedDns.run (List.replicate (2 ^ 32) (.packet 0 toDns))).dropCountByFproto .udp
        ⟨53, by decide⟩ 0).toNat ≠
        dropsInRun 0 .udp ⟨53, by decide⟩ listedDns (List.replicate (2 ^ 32) (.packet 0 toDns))
          % 2 ^ 64 := by
  obtain ⟨hcount, hvalue⟩ := dropCount_replicate (2 ^ 32)
  rw [hcount, hvalue]
  exact ⟨rfl, by decide⟩

end DdosBlacklist
