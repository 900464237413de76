import PrototypeKernel.DdosBlacklist.Program

/-! # The verdict of the program

On every packet the program stays inside of it and does one of the things of `Outcome`. So the
accounting is right on every packet: `xdpProgram_accounting`. The verdict is not: `parse_port()` is
given the address after an IPv4 header without options, so with options the program takes other
bytes of the header for the destination port. -/

namespace DdosBlacklist

variable {C : ℕ}

/-! ## What the program does -/

/-- What `handle_eth_protocol()` does on a packet with its network header at `l3Offset`. -/
inductive Outcome (cpu : Fin C) (p : Packet) (l3Offset : ℕ) (m : Maps C) :
    UInt32 → Maps C → Prop
  | aborted : Outcome cpu p l3Offset m xdpAborted m
  | pass : Outcome cpu p l3Offset m xdpPass m
  | addr {src : UInt32} {values : Fin C → UInt64} (hsrc : p.u32 (l3Offset + 12) = some src)
      (hlisted : m.blacklist src = some values) :
      Outcome cpu p l3Offset m xdpDrop (m.countAddr src values cpu)
  | port {f : Filter} {dport : UInt16} {i : Fin portMax}
      (hproto : p.u8 (l3Offset + 9) = some f.ipproto)
      (hdport : p.be16 (l3Offset + ipHlen + 2) = some dport) (hi : dport.toNat = i)
      (hbit : portBit f (m.portBlacklist i cpu)) :
      Outcome cpu p l3Offset m xdpDrop
        (m.setDropCount f ((m.dropCountByFproto f).modify i cpu addOneLow))

/-- A 16-bit port is a key of the arrays. -/
theorem exists_index (dport : UInt16) :
    ∃ i, PercpuArray.index portMax dport.toUInt32 = some i ∧ dport.toNat = i :=
  ⟨⟨dport.toNat, dport.toNat_lt⟩, PercpuArray.index_eq_some.mpr rfl, rfl⟩

/-- The port is looked up in the filter of its protocol. -/
theorem parsePort_filter {cpu : Fin C} {p : Packet} {hdr : ℕ} {m : Maps C} (f : Filter) :
    parsePort cpu p f.ipproto hdr m =
      if hdr + f.hlen > p.length then some (xdpAborted, m)
      else (p.be16 (hdr + 2)).map fun dport => portVerdict cpu f dport m := by
  cases f
  · rw [parsePort, if_neg (by decide), if_pos rfl]
    split <;> [rfl; cases p.be16 (hdr + 2) <;> rfl]
  · rw [parsePort, if_pos rfl]
    split <;> [rfl; cases p.be16 (hdr + 2) <;> rfl]

/-- Other protocols pass. -/
theorem parsePort_other {cpu : Fin C} {p : Packet} {proto : UInt8} {hdr : ℕ} {m : Maps C}
    (h : ∀ f : Filter, proto ≠ f.ipproto) :
    parsePort cpu p proto hdr m = some (xdpPass, m) := by
  rw [parsePort, if_neg (h .udp), if_neg (h .tcp)]

/-- A transport header has the destination port in it. -/
theorem Filter.two_lt_hlen (f : Filter) : 2 + 2 ≤ f.hlen := by cases f <;> decide

/-- What the port decides of a packet whose protocol can be read. -/
theorem parsePort_outcome (cpu : Fin C) {p : Packet} {proto : UInt8} {l3Offset : ℕ} (m : Maps C)
    (hproto : p.u8 (l3Offset + 9) = some proto) :
    ∃ action m', parsePort cpu p proto (l3Offset + ipHlen) m = some (action, m') ∧
      Outcome cpu p l3Offset m action m' := by
  by_cases hf : ∃ f : Filter, proto = f.ipproto
  · obtain ⟨f, rfl⟩ := hf
    rw [parsePort_filter]
    split
    · exact ⟨_, _, rfl, .aborted⟩
    · have hlen := f.two_lt_hlen
      obtain ⟨dport, hdport⟩ :=
        p.exists_be16 (show l3Offset + ipHlen + 2 + 2 ≤ p.length by omega)
      obtain ⟨i, hindex, hi⟩ := exists_index dport
      rw [hdport, Option.map_some, portVerdict, hindex]
      dsimp only
      split
      · rename_i hbit
        exact ⟨_, _, rfl, .port hproto hdport hi hbit⟩
      · exact ⟨_, _, rfl, .pass⟩
  · rw [parsePort_other fun f heq => hf ⟨f, heq⟩]
    exact ⟨_, _, rfl, .pass⟩

/-- **What `handle_eth_protocol()` reads**, whatever the maps are: nothing of a packet without a whole
IPv4 header, which is not dropped, and else the source address and the protocol. -/
theorem handleEthProtocol_cases (cpu : Fin C) (p : Packet) (ethProto : UInt16) (l3Offset : ℕ) :
    (¬ (ethProto = ethPIp ∧ l3Offset + ipHlen ≤ p.length) ∧
      ∃ action, (action = xdpPass ∨ action = xdpAborted) ∧
        ∀ m, handleEthProtocol cpu p ethProto l3Offset m = some (action, m)) ∨
    ((ethProto = ethPIp ∧ l3Offset + ipHlen ≤ p.length) ∧
      ∃ src proto, p.u32 (l3Offset + 12) = some src ∧ p.u8 (l3Offset + 9) = some proto ∧
        ∀ m, handleEthProtocol cpu p ethProto l3Offset m =
          match m.blacklist src with
          | some values => some (xdpDrop, m.countAddr src values cpu)
          | none => parsePort cpu p proto (l3Offset + ipHlen) m) := by
  unfold handleEthProtocol parseIpv4
  by_cases hip : ethProto = ethPIp
  swap
  · exact .inl ⟨fun h => hip h.1, xdpPass, .inl rfl, fun _ => if_neg hip⟩
  simp only [if_pos hip]
  by_cases hlen : l3Offset + ipHlen > p.length
  · exact .inl ⟨fun h => Nat.not_le.mpr hlen h.2, xdpAborted, .inr rfl, fun _ => if_pos hlen⟩
  · -- the 20 bytes of the header are there
    have hhdr : l3Offset + 20 ≤ p.length := Nat.not_lt.mp hlen
    obtain ⟨src, hsrc⟩ := p.exists_u32 (show l3Offset + 12 + 4 ≤ p.length by omega)
    obtain ⟨proto, hproto⟩ := p.exists_u8 (show l3Offset + 9 < p.length by omega)
    refine .inr ⟨⟨hip, Nat.not_lt.mp hlen⟩, src, proto, hsrc, hproto, fun m => ?_⟩
    rw [if_neg hlen, hsrc, hproto]
    rfl

/-- **`handle_eth_protocol()` stays inside the packet**, and what it does. -/
theorem handleEthProtocol_outcome (cpu : Fin C) (p : Packet) (ethProto : UInt16) (l3Offset : ℕ)
    (m : Maps C) :
    ∃ action m', handleEthProtocol cpu p ethProto l3Offset m = some (action, m') ∧
      Outcome cpu p l3Offset m action m' := by
  rcases handleEthProtocol_cases cpu p ethProto l3Offset with
    ⟨-, action, rfl | rfl, hrun⟩ | ⟨-, src, proto, hsrc, hproto, hrun⟩
  · exact ⟨_, _, hrun m, .pass⟩
  · exact ⟨_, _, hrun m, .aborted⟩
  · rw [hrun]
    cases hlisted : m.blacklist src with
    | some values => exact ⟨_, _, rfl, .addr hsrc hlisted⟩
    | none => exact parsePort_outcome cpu m hproto

/-- `parse_eth()` stays inside the packet. -/
theorem exists_parseEth (p : Packet) : ∃ r, parseEth p = some r := by
  unfold parseEth
  dsimp only
  split
  · exact ⟨_, rfl⟩
  · rename_i hlen
    have heth : 14 ≤ p.length := Nat.not_lt.mp hlen
    obtain ⟨ethType, htype⟩ := p.exists_be16 (show 12 + 2 ≤ p.length by omega)
    rw [htype]
    simp only [Option.bind_eq_bind, Option.bind_some]
    split
    · exact ⟨_, rfl⟩
    · split
      · split
        · exact ⟨_, rfl⟩
        · rename_i hvlan
          have htag : ethHlen + 4 ≤ p.length := Nat.not_lt.mp hvlan
          obtain ⟨inner, hinner⟩ := p.exists_be16 (show ethHlen + 2 + 2 ≤ p.length by omega)
          rw [hinner]
          exact ⟨_, rfl⟩
      · exact ⟨_, rfl⟩

/-- **`xdp_program()` stays inside the packet**, and what it does. -/
theorem xdpProgram_cases (cpu : Fin C) (p : Packet) (m : Maps C) :
    (parseEth p = some none ∧ xdpProgram cpu p m = some (xdpPass, m)) ∨
      ∃ ethProto l3Offset action m', parseEth p = some (some (ethProto, l3Offset)) ∧
        Outcome cpu p l3Offset m action m' ∧
        xdpProgram cpu p m = some (action, statsActionVerdict cpu action m') := by
  obtain ⟨r, hparse⟩ := exists_parseEth p
  cases r with
  | none => exact .inl ⟨hparse, by rw [xdpProgram, hparse]; rfl⟩
  | some r =>
    obtain ⟨ethProto, l3Offset⟩ := r
    obtain ⟨action, m', hrun, hout⟩ := handleEthProtocol_outcome cpu p ethProto l3Offset m
    exact .inr ⟨ethProto, l3Offset, action, m', hparse, hout, by simp [xdpProgram, hparse, hrun]⟩

/-! ## The counters -/

/-- The counters of drops: one for each blacklisted address, and one for each port and protocol. -/
inductive DropCounter where
  | addr (src : UInt32)
  | port (f : Filter) (dport : Fin portMax)
  deriving DecidableEq

/-- The counter on CPU `cpu`, if it exists. -/
def Maps.dropCounter (m : Maps C) (cpu : Fin C) : DropCounter → Option UInt64
  | .addr src => (m.blacklist src).map fun values => values cpu
  | .port f i => some (m.dropCountByFproto f i cpu)

/-- The counter is the one of the source address, or of the port and protocol that are parsed. -/
def DropCounter.OfPacket (p : Packet) (l3Offset : ℕ) : DropCounter → Prop
  | .addr src => p.u32 (l3Offset + 12) = some src
  | .port f i => p.u8 (l3Offset + 9) = some f.ipproto ∧
      (p.be16 (l3Offset + ipHlen + 2)).map UInt16.toNat = some i.val

/-- The counter counts in its low word. -/
theorem toUInt32_addOneLow (v : UInt64) : (addOneLow v).toUInt32 = v.toUInt32 + 1 := by
  -- the high half does not reach into the low one
  have hhigh : (v >>> 32 <<< 32).toUInt32 = 0 := by
    apply UInt32.toBitVec_inj.mp
    ext i hi
    simp only [UInt64.toBitVec_toUInt32, UInt64.toBitVec_shiftLeft]
    simp
  rw [addOneLow, UInt64.toUInt32_or, UInt32.toUInt32_toUInt64, hhigh]
  simp

/-- Counting changes the counter. -/
theorem addOneLow_ne (v : UInt64) : addOneLow v ≠ v := by
  intro h
  have hlow := toUInt32_addOneLow v
  rw [h] at hlow
  simp at hlow

/-- A drop for an address changes the counter of this address on this CPU. -/
theorem dropCounter_countAddr (m : Maps C) {src : UInt32} {values : Fin C → UInt64} {cpu : Fin C}
    (hlisted : m.blacklist src = some values) (c : DropCounter) (cpu' : Fin C) :
    (m.countAddr src values cpu).dropCounter cpu' c ≠ m.dropCounter cpu' c ↔
      c = .addr src ∧ cpu' = cpu := by
  cases c with
  | addr src' =>
    by_cases hsrc : src' = src
    · by_cases hcpu : cpu' = cpu <;>
        simp [Maps.dropCounter, Maps.countAddr, hsrc, hlisted, hcpu]
    · simp [Maps.dropCounter, Maps.countAddr, hsrc]
  | port f i =>
    cases f <;> simp [Maps.dropCounter, Maps.countAddr, Maps.dropCountByFproto]

/-- A drop for a port changes the counter of this port and protocol on this CPU. -/
theorem dropCounter_countPort (m : Maps C) (f : Filter) (i : Fin portMax) (cpu : Fin C)
    (c : DropCounter) (cpu' : Fin C) :
    (m.setDropCount f ((m.dropCountByFproto f).modify i cpu addOneLow)).dropCounter cpu' c
        ≠ m.dropCounter cpu' c ↔ c = .port f i ∧ cpu' = cpu := by
  cases c with
  | addr src => simp [Maps.dropCounter]
  | port g j =>
    by_cases hg : g = f
    · have hmodify := (m.dropCountByFproto f).modify_ne_iff i j cpu cpu' addOneLow_ne
      simpa [Maps.dropCounter, hg] using hmodify
    · simp [Maps.dropCounter, dropCountByFproto_setDropCount_of_ne m _ hg, hg]

/-- `stats_action_verdict()` touches `verdict_cnt` only. -/
theorem dropCounter_statsActionVerdict (cpu : Fin C) (action : UInt32) (m : Maps C) :
    (statsActionVerdict cpu action m).dropCounter = m.dropCounter ∧
      (statsActionVerdict cpu action m).portBlacklist = m.portBlacklist := by
  unfold statsActionVerdict
  split
  · exact ⟨rfl, rfl⟩
  · split
    · exact ⟨rfl, rfl⟩
    · constructor
      · funext cpu' c
        cases c with
        | addr src => rfl
        | port f i => cases f <;> rfl
      · rfl

/-- `stats_action_verdict()` of an action that has a counter. -/
theorem verdictCnt_statsActionVerdict (cpu : Fin C) {action : UInt32} (m : Maps C)
    (haction : action < xdpActionMax) (i : Fin xdpActionMax.toNat) (cpu' : Fin C) :
    (statsActionVerdict cpu action m).verdictCnt i cpu' =
      if i.val = action.toNat ∧ cpu' = cpu then m.verdictCnt i cpu' + 1
      else m.verdictCnt i cpu' := by
  have hindex : PercpuArray.index xdpActionMax.toNat action = some ⟨action.toNat, haction⟩ :=
    PercpuArray.index_eq_some.mpr rfl
  rw [statsActionVerdict, if_neg (UInt32.not_le.mpr haction), hindex]
  dsimp only
  split
  · rename_i heq
    obtain ⟨hi, rfl⟩ := heq
    rw [show i = ⟨action.toNat, haction⟩ from Fin.ext hi, PercpuArray.modify_self]
  · rename_i hne
    refine PercpuArray.modify_of_ne _ _ fun heq => hne ?_
    simp only [Prod.mk.injEq] at heq
    exact ⟨congrArg Fin.val heq.1, heq.2⟩

/-- What an outcome does to the counters. -/
theorem Outcome.accounting {cpu : Fin C} {p : Packet} {l3Offset : ℕ} {m m' : Maps C}
    {action : UInt32} (h : Outcome cpu p l3Offset m action m') :
    (action = xdpAborted ∨ action = xdpDrop ∨ action = xdpPass) ∧ m'.verdictCnt = m.verdictCnt ∧
      m'.portBlacklist = m.portBlacklist ∧
      (action = xdpDrop → ∃ c : DropCounter, c.OfPacket p l3Offset ∧
        ∀ c' cpu', m'.dropCounter cpu' c' ≠ m.dropCounter cpu' c' ↔ c' = c ∧ cpu' = cpu) ∧
      (action ≠ xdpDrop → m'.dropCounter = m.dropCounter) := by
  cases h with
  | aborted => exact ⟨.inl rfl, rfl, rfl, fun h => absurd h (by decide), fun _ => rfl⟩
  | pass => exact ⟨.inr (.inr rfl), rfl, rfl, fun h => absurd h (by decide), fun _ => rfl⟩
  | addr hsrc hlisted =>
    exact ⟨.inr (.inl rfl), rfl, rfl,
      fun _ => ⟨.addr _, hsrc, dropCounter_countAddr m hlisted⟩, fun h => absurd rfl h⟩
  | port hproto hdport hi hbit =>
    refine ⟨.inr (.inl rfl), by simp, by simp, fun _ => ⟨.port _ _, ⟨hproto, ?_⟩,
      dropCounter_countPort m _ _ cpu⟩, fun h => absurd rfl h⟩
    rw [hdport, Option.map_some, hi]

/-- **The accounting of `xdp_program()`.** On every packet and with all contents of the maps, it
reads inside the packet and returns `XDP_ABORTED`, `XDP_DROP` or `XDP_PASS`. When `parse_eth()`
succeeds the counter of this action is one more and those of the others are as before, else all are
as before. When it drops the packet, exactly one drop counter changes, that of the source address or
of the port and protocol, and otherwise none does. -/
theorem xdpProgram_accounting (cpu : Fin C) (p : Packet) (m : Maps C) :
    ∃ action m', xdpProgram cpu p m = some (action, m') ∧
      (action = xdpAborted ∨ action = xdpDrop ∨ action = xdpPass) ∧
      ((∃ r, parseEth p = some (some r)) → ∀ i cpu', m'.verdictCnt i cpu' =
        if i.val = action.toNat ∧ cpu' = cpu then m.verdictCnt i cpu' + 1
        else m.verdictCnt i cpu') ∧
      (parseEth p = some none → m'.verdictCnt = m.verdictCnt) ∧
      (action = xdpDrop → ∃ ethProto l3Offset, parseEth p = some (some (ethProto, l3Offset)) ∧
        ∃ c : DropCounter, c.OfPacket p l3Offset ∧
          ∀ c' cpu', m'.dropCounter cpu' c' ≠ m.dropCounter cpu' c' ↔ c' = c ∧ cpu' = cpu) ∧
      (action ≠ xdpDrop → m'.dropCounter = m.dropCounter) ∧
      m'.portBlacklist = m.portBlacklist := by
  rcases xdpProgram_cases cpu p m with
    ⟨hparse, hrun⟩ | ⟨ethProto, l3Offset, action, m₁, hparse, hout, hrun⟩
  · rw [hparse]
    refine ⟨xdpPass, m, hrun, .inr (.inr rfl), ?_, fun _ => rfl, fun h => absurd h (by decide),
      fun _ => rfl, rfl⟩
    rintro ⟨r, hr⟩
    cases hr
  · rw [hparse]
    obtain ⟨haction, hverdict, hport, hdrop, hkeep⟩ := hout.accounting
    obtain ⟨hcounter, hport'⟩ := dropCounter_statsActionVerdict cpu action m₁
    have hlt : action < xdpActionMax := by
      rcases haction with rfl | rfl | rfl <;> decide
    refine ⟨action, statsActionVerdict cpu action m₁, hrun, haction, fun _ i cpu' => ?_,
      (fun h => by cases h), fun h => ⟨ethProto, l3Offset, rfl, ?_⟩, fun h => ?_, ?_⟩
    · rw [verdictCnt_statsActionVerdict cpu m₁ hlt, hverdict]
    · rw [hcounter]
      exact hdrop h
    · rw [hcounter]
      exact hkeep h
    · rw [hport', hport]

/-! ## The verdict -/

/-- The bit of a port and protocol in `port_blacklist`, on CPU `cpu`. -/
def Maps.portListed (m : Maps C) (cpu : Fin C) (f : Filter) (dport : UInt16) : Bool :=
  portBit f (m.portBlacklist ⟨dport.toNat, dport.toNat_lt⟩ cpu)

/-- **A frame to filter**: with at most one tag, the complete header of an unfragmented IPv4 packet
or of a first fragment, with `ihl` words, and after it a complete header of the protocol, which has
the destination port `dport`. -/
structure Frame (p : Packet) (l3Offset ihl : ℕ) (f : Filter) (src : UInt32) (dport : UInt16) :
    Prop where
  eth : (l3Offset = ethHlen ∧ p.be16 12 = some ethPIp) ∨
    (l3Offset = ethHlen + vlanHlen ∧
      (p.be16 12 = some ethP8021Q ∨ p.be16 12 = some ethP8021AD) ∧ p.be16 16 = some ethPIp)
  versionIhl : p.u8 l3Offset = some (UInt8.ofNat (4 * 16 + ihl))
  five_le : 5 ≤ ihl
  le_fifteen : ihl ≤ 15
  fragment : ∃ w, p.be16 (l3Offset + 6) = some w ∧ w &&& 0x1fff = 0
  protocol : p.u8 (l3Offset + 9) = some f.ipproto
  saddr : p.u32 (l3Offset + 12) = some src
  dest : p.be16 (l3Offset + 4 * ihl + 2) = some dport
  complete : l3Offset + 4 * ihl + f.hlen ≤ p.length

/-- The verdict is to drop the packet when its source address or its destination port is listed, and
to pass it otherwise. -/
def VerdictCorrect (cpu : Fin C) (p : Packet) (m : Maps C) (f : Filter) (src : UInt32)
    (dport : UInt16) : Prop :=
  ∃ action, (xdpProgram cpu p m).map Prod.fst = some action ∧
    (action = xdpDrop ↔ (m.blacklist src).isSome ∨ m.portListed cpu f dport) ∧
    (¬ ((m.blacklist src).isSome ∨ m.portListed cpu f dport) → action = xdpPass)

/-- A packet to a listed port is dropped, another one passes. -/
theorem portVerdict_fst (cpu : Fin C) (f : Filter) (dport : UInt16) (m : Maps C) :
    (portVerdict cpu f dport m).1 = if m.portListed cpu f dport then xdpDrop else xdpPass := by
  have hindex : PercpuArray.index portMax dport.toUInt32 = some ⟨dport.toNat, dport.toNat_lt⟩ :=
    PercpuArray.index_eq_some.mpr rfl
  rw [portVerdict, hindex]
  dsimp only
  rw [apply_ite Prod.fst]
  rfl

/-- The network header of a frame is found. -/
theorem Frame.parseEth_eq {p : Packet} {l3Offset ihl : ℕ} {f : Filter} {src : UInt32}
    {dport : UInt16} (h : Frame p l3Offset ihl f src dport) :
    parseEth p = some (some (ethPIp, l3Offset)) := by
  have hlen := h.complete
  rcases h.eth with ⟨rfl, htype⟩ | ⟨rfl, htag, hinner⟩
  · have heth : ¬ ethHlen > p.length := by omega
    rw [parseEth]
    dsimp only
    rw [if_neg heth, htype]
    rfl
  · have heth : ¬ ethHlen > p.length := by omega
    have hvlan : ¬ ethHlen + vlanHlen > p.length := by omega
    rw [parseEth]
    dsimp only
    rw [if_neg heth, if_neg hvlan]
    rcases htag with htag | htag <;> rw [htag, show ethHlen + 2 = 16 from rfl, hinner] <;> rfl

/-- **What the program takes for the port** are the bytes 22 and 23 of the IPv4 header. -/
theorem Frame.xdpProgram_eq {p : Packet} {l3Offset ihl : ℕ} {f : Filter} {src : UInt32}
    {dport : UInt16} (h : Frame p l3Offset ihl f src dport) (cpu : Fin C) (m : Maps C) :
    ∃ w, p.be16 (l3Offset + ipHlen + 2) = some w ∧
      (xdpProgram cpu p m).map Prod.fst = some
        (if (m.blacklist src).isSome ∨ m.portListed cpu f w then xdpDrop else xdpPass) := by
  have hlen := h.complete
  have hihl := h.five_le
  have hport := f.two_lt_hlen
  have hip : ipHlen = 20 := rfl
  obtain ⟨w, hw⟩ := p.exists_be16 (show l3Offset + ipHlen + 2 + 2 ≤ p.length by omega)
  have hbase : ¬ l3Offset + ipHlen > p.length := by omega
  have hfits : ¬ l3Offset + ipHlen + f.hlen > p.length := by omega
  refine ⟨w, hw, ?_⟩
  rw [xdpProgram, h.parseEth_eq]
  simp only [Option.bind_eq_bind, Option.bind_some, handleEthProtocol, if_true, parseIpv4,
    if_neg hbase, h.saddr]
  cases hlisted : m.blacklist src with
  | some values => rfl
  | none =>
    simp only [h.protocol, Option.bind_some, parsePort_filter, if_neg hfits, hw, Option.map_some]
    show some (portVerdict cpu f w m).1 = _
    rw [portVerdict_fst]
    simp

/-- Without options the bytes 22 and 23 are the destination port. -/
theorem Frame.dest_of_five {p : Packet} {l3Offset ihl : ℕ} {f : Filter} {src : UInt32}
    {dport : UInt16} (h : Frame p l3Offset ihl f src dport) (hihl : ihl = 5) :
    p.be16 (l3Offset + ipHlen + 2) = some dport := by
  have hdest := h.dest
  rw [hihl] at hdest
  exact hdest

/-- **When the verdict is right.** It is right for a frame exactly when the IPv4 header has no
options, or the source address is listed, or the port that is read from the options is listed for
the protocol just as the destination port is. -/
theorem verdict_correct_iff {p : Packet} {l3Offset ihl : ℕ} {f : Filter} {src : UInt32}
    {dport : UInt16} (h : Frame p l3Offset ihl f src dport) (cpu : Fin C) (m : Maps C) :
    VerdictCorrect cpu p m f src dport ↔
      ihl = 5 ∨ (m.blacklist src).isSome ∨
        ∀ w, p.be16 (l3Offset + ipHlen + 2) = some w →
          m.portListed cpu f w = m.portListed cpu f dport := by
  obtain ⟨w, hw, hrun⟩ := h.xdpProgram_eq cpu m
  -- the verdict is the one for the port that is read
  have hcorrect : VerdictCorrect cpu p m f src dport ↔
      (m.blacklist src).isSome ∨ m.portListed cpu f w = m.portListed cpu f dport := by
    rw [VerdictCorrect, hrun]
    generalize (m.blacklist src).isSome = listed
    generalize m.portListed cpu f w = read
    generalize m.portListed cpu f dport = actual
    simp only [Option.some.injEq, exists_eq_left']
    revert listed read actual
    decide
  rw [hcorrect]
  constructor
  · rintro (hlisted | heq)
    · exact .inr (.inl hlisted)
    · refine .inr (.inr fun w' hw' => ?_)
      cases hw.symm.trans hw'
      exact heq
  · rintro (hihl | hlisted | hall)
    · cases hw.symm.trans (h.dest_of_five hihl)
      exact .inr rfl
    · exact .inl hlisted
    · exact .inr (hall w hw)

/-- A UDP packet to port 53, with four options of one byte. -/
def withOptions : Packet :=
  List.replicate 12 0 ++ [0x08, 0x00] ++
    [0x46, 0, 0, 32, 0, 1, 0, 0, 64, 17, 0, 0, 192, 0, 2, 1, 198, 51, 100, 1, 1, 1, 1, 1] ++
    [0x13, 0x88, 0, 53, 0, 8, 0, 0]

/-- Port 53 is listed for UDP, and nothing else is. -/
def listedDns : Maps 1 where
  blacklist := fun _ => none
  verdictCnt := fun _ _ => 0
  portBlacklist := fun i _ => if i.val = 53 then 2 else 0
  portBlacklistDropCountTcp := fun _ _ => 0
  portBlacklistDropCountUdp := fun _ _ => 0

/-- A frame with an IP header of six words, to UDP port 53. -/
theorem frame_withOptions : Frame withOptions 14 6 .udp 0x010200C0 53 where
  eth := .inl ⟨rfl, by decide⟩
  versionIhl := by decide
  five_le := by decide
  le_fifteen := by decide
  fragment := ⟨0, by decide⟩
  protocol := by decide
  saddr := by decide
  dest := by decide
  complete := by decide

/-- The frame with IP options, while port 53 is listed. -/
theorem verdict_correct_iff_withOptions :
    VerdictCorrect 0 withOptions listedDns .udp 0x010200C0 53 ↔
      6 = 5 ∨ (listedDns.blacklist 0x010200C0).isSome ∨
        ∀ w, withOptions.be16 (14 + ipHlen + 2) = some w →
          listedDns.portListed 0 .udp w = listedDns.portListed 0 .udp 53 :=
  verdict_correct_iff frame_withOptions 0 listedDns

/-- **A listed port is let through** when the header has options: they are read as port 257. -/
theorem verdict_wrong_withOptions :
    Frame withOptions 14 6 .udp 0x010200C0 53 ∧ listedDns.portListed 0 .udp 53 = true ∧
      withOptions.be16 (14 + ipHlen + 2) = some 257 ∧
      (xdpProgram 0 withOptions listedDns).map Prod.fst = some xdpPass ∧
      ¬ VerdictCorrect 0 withOptions listedDns .udp 0x010200C0 53 := by
  have hrun : (xdpProgram 0 withOptions listedDns).map Prod.fst = some xdpPass := by decide
  refine ⟨frame_withOptions, by decide, by decide, hrun, ?_⟩
  rintro ⟨action, haction, hdrop, -⟩
  cases hrun.symm.trans haction
  exact absurd (hdrop.mpr (.inr (by decide))) (by decide)

end DdosBlacklist
