import PrototypeKernel.Foundation.PercpuArray
import Mathlib.Data.List.Basic

/-! # The XDP program of the DDoS blacklist

`xdp_program()` of `xdp_ddos01_blacklist_kern.c` on a packet and the maps, on one of `C` CPUs. A
packet is the list of its bytes, `data` is offset 0 and `data_end` its length. A load outside the
packet has no result, so a function that returns `none` has read outside `[data, data_end)`. The
CPUs are little-endian. -/

namespace DdosBlacklist

variable {C : ℕ}

/-! ## Packets -/

/-- The bytes between `data` and `data_end`. -/
abbrev Packet := List UInt8

/-- Load a byte. -/
def Packet.u8 (p : Packet) (off : ℕ) : Option UInt8 := p[off]?

/-- Load a 16-bit field in network byte order, as `ntohs()` of the field. -/
def Packet.be16 (p : Packet) (off : ℕ) : Option UInt16 := do
  return (← p.u8 off).toUInt16 <<< 8 ||| (← p.u8 (off + 1)).toUInt16

/-- Load a 32-bit field as it stands in memory. -/
def Packet.u32 (p : Packet) (off : ℕ) : Option UInt32 := do
  return (← p.u8 off).toUInt32 ||| (← p.u8 (off + 1)).toUInt32 <<< 8 |||
    (← p.u8 (off + 2)).toUInt32 <<< 16 ||| (← p.u8 (off + 3)).toUInt32 <<< 24

/-- A byte of the packet can be read. -/
theorem Packet.exists_u8 {p : Packet} {off : ℕ} (h : off < p.length) : ∃ b, p.u8 off = some b :=
  ⟨p[off], List.getElem?_eq_getElem h⟩

/-- Two bytes of the packet can be read. -/
theorem Packet.exists_be16 {p : Packet} {off : ℕ} (h : off + 2 ≤ p.length) :
    ∃ w, p.be16 off = some w := by
  obtain ⟨b₀, h₀⟩ := p.exists_u8 (show off < p.length by omega)
  obtain ⟨b₁, h₁⟩ := p.exists_u8 (show off + 1 < p.length by omega)
  exact ⟨_, by simp [be16, h₀, h₁]; rfl⟩

/-- Four bytes of the packet can be read. -/
theorem Packet.exists_u32 {p : Packet} {off : ℕ} (h : off + 4 ≤ p.length) :
    ∃ w, p.u32 off = some w := by
  obtain ⟨b₀, h₀⟩ := p.exists_u8 (show off < p.length by omega)
  obtain ⟨b₁, h₁⟩ := p.exists_u8 (show off + 1 < p.length by omega)
  obtain ⟨b₂, h₂⟩ := p.exists_u8 (show off + 2 < p.length by omega)
  obtain ⟨b₃, h₃⟩ := p.exists_u8 (show off + 3 < p.length by omega)
  exact ⟨_, by simp [u32, h₀, h₁, h₂, h₃]; rfl⟩

/-! ## Constants -/

/-- `XDP_ABORTED`. -/
def xdpAborted : UInt32 := 0

/-- `XDP_DROP`. -/
def xdpDrop : UInt32 := 1

/-- `XDP_PASS`. -/
def xdpPass : UInt32 := 2

/-- `XDP_TX`. -/
def xdpTx : UInt32 := 3

/-- `XDP_ACTION_MAX`. -/
def xdpActionMax : UInt32 := xdpTx + 1

/-- `sizeof(struct ethhdr)`. -/
def ethHlen : ℕ := 14

/-- `sizeof(struct vlan_hdr)`. -/
def vlanHlen : ℕ := 4

/-- `sizeof(struct iphdr)`, the header without options. -/
def ipHlen : ℕ := 20

/-- `ETH_P_802_3_MIN`. -/
def ethP8023Min : UInt16 := 0x0600

/-- `ETH_P_8021Q`. -/
def ethP8021Q : UInt16 := 0x8100

/-- `ETH_P_8021AD`. -/
def ethP8021AD : UInt16 := 0x88A8

/-- `ETH_P_IP`. -/
def ethPIp : UInt16 := 0x0800

/-- The protocols of the port blacklist. -/
inductive Filter where
  | tcp
  | udp
  deriving DecidableEq, Repr

/-- `DDOS_FILTER_TCP` and `DDOS_FILTER_UDP`: the bit of the protocol. -/
def Filter.bit : Filter → UInt32
  | .tcp => 0
  | .udp => 1

/-- `IPPROTO_TCP` and `IPPROTO_UDP`. -/
def Filter.ipproto : Filter → UInt8
  | .tcp => 6
  | .udp => 17

/-- `sizeof(struct tcphdr)` and `sizeof(struct udphdr)`. -/
def Filter.hlen : Filter → ℕ
  | .tcp => 20
  | .udp => 8

/-! ## Maps -/

/-- `max_entries` of the maps that have a port as key. -/
def portMax : ℕ := 65536

/-- The maps of the program. `blacklist` is a hash map, the others are arrays. The values of
`port_blacklist` are declared as `u32`, of which each CPU keeps 8 bytes. -/
structure Maps (C : ℕ) where
  blacklist : UInt32 → Option (Fin C → UInt64)
  verdictCnt : PercpuArray xdpActionMax.toNat C
  portBlacklist : PercpuArray portMax C
  portBlacklistDropCountTcp : PercpuArray portMax C
  portBlacklistDropCountUdp : PercpuArray portMax C

/-- No address and no port is listed. -/
def Maps.zero (C : ℕ) : Maps C where
  blacklist := fun _ => none
  verdictCnt := fun _ _ => 0
  portBlacklist := fun _ _ => 0
  portBlacklistDropCountTcp := fun _ _ => 0
  portBlacklistDropCountUdp := fun _ _ => 0

/-- `drop_count_by_fproto()`. -/
def Maps.dropCountByFproto (m : Maps C) : Filter → PercpuArray portMax C
  | .udp => m.portBlacklistDropCountUdp
  | .tcp => m.portBlacklistDropCountTcp

/-- Replace the map that `drop_count_by_fproto()` returns. -/
def Maps.setDropCount (m : Maps C) (f : Filter) (a : PercpuArray portMax C) : Maps C :=
  match f with
  | .udp => { m with portBlacklistDropCountUdp := a }
  | .tcp => { m with portBlacklistDropCountTcp := a }

/-- The drop counters of a filter are those that were set. -/
@[simp] theorem dropCountByFproto_setDropCount (m : Maps C) (f : Filter)
    (a : PercpuArray portMax C) : (m.setDropCount f a).dropCountByFproto f = a := by
  cases f <;> rfl

/-- The other filter keeps its drop counters. -/
theorem dropCountByFproto_setDropCount_of_ne (m : Maps C) {f g : Filter}
    (a : PercpuArray portMax C) (h : g ≠ f) :
    (m.setDropCount f a).dropCountByFproto g = m.dropCountByFproto g := by
  cases f <;> cases g <;> first | rfl | exact absurd rfl h

/-- Drop counters leave the addresses. -/
@[simp] theorem setDropCount_blacklist (m : Maps C) (f : Filter) (a : PercpuArray portMax C) :
    (m.setDropCount f a).blacklist = m.blacklist := by cases f <;> rfl

/-- Drop counters leave the ports. -/
@[simp] theorem setDropCount_portBlacklist (m : Maps C) (f : Filter) (a : PercpuArray portMax C) :
    (m.setDropCount f a).portBlacklist = m.portBlacklist := by cases f <;> rfl

/-- Drop counters leave the verdict counters. -/
@[simp] theorem setDropCount_verdictCnt (m : Maps C) (f : Filter) (a : PercpuArray portMax C) :
    (m.setDropCount f a).verdictCnt = m.verdictCnt := by cases f <;> rfl

/-- `*drops += 1` through a pointer to `u32`: the low half of the counter, without a carry. -/
def addOneLow (v : UInt64) : UInt64 := v >>> 32 <<< 32 ||| (v.toUInt32 + 1).toUInt64

/-! ## The program -/

/-- `stats_action_verdict()`. -/
def statsActionVerdict (cpu : Fin C) (action : UInt32) (m : Maps C) : Maps C :=
  if action ≥ xdpActionMax then m
  else
    match PercpuArray.index _ action with
    | none => m
    | some i => { m with verdictCnt := m.verdictCnt.modify i cpu (· + 1) }

/-- `parse_eth()`: the protocol and the offset of the network header, or `none` for `false`. -/
def parseEth (p : Packet) : Option (Option (UInt16 × ℕ)) :=
  let offset := ethHlen
  if offset > p.length then some none
  else do
    let ethType ← p.be16 12
    -- lengths instead of types
    if ethType < ethP8023Min then return none
    else if ethType = ethP8021Q ∨ ethType = ethP8021AD then
      let vlanHdr := offset
      let offset := offset + vlanHlen
      if offset > p.length then return none
      else
        let ethType ← p.be16 (vlanHdr + 2)
        return some (ethType, offset)
    else return some (ethType, offset)

/-- The bit of the protocol in a value of `port_blacklist`, of which the program loads a `u32`. -/
def portBit (f : Filter) (value : UInt64) : Bool := value.toUInt32 &&& (1 <<< f.bit) ≠ 0

/-- `parse_port()` from the lookup of the port on. -/
def portVerdict (cpu : Fin C) (f : Filter) (dport : UInt16) (m : Maps C) : UInt32 × Maps C :=
  let dportIdx := dport.toUInt32
  match PercpuArray.index _ dportIdx with
  | none => (xdpPass, m)
  | some i =>
      if portBit f (m.portBlacklist i cpu) then
        (xdpDrop, m.setDropCount f ((m.dropCountByFproto f).modify i cpu addOneLow))
      else (xdpPass, m)

/-- `parse_port()` with the header at offset `hdr`. -/
def parsePort (cpu : Fin C) (p : Packet) (proto : UInt8) (hdr : ℕ) (m : Maps C) :
    Option (UInt32 × Maps C) :=
  if proto = Filter.udp.ipproto then
    if hdr + Filter.udp.hlen > p.length then some (xdpAborted, m)
    else do
      let dport ← p.be16 (hdr + 2)
      return portVerdict cpu .udp dport m
  else if proto = Filter.tcp.ipproto then
    if hdr + Filter.tcp.hlen > p.length then some (xdpAborted, m)
    else do
      let dport ← p.be16 (hdr + 2)
      return portVerdict cpu .tcp dport m
  else some (xdpPass, m)

/-- Count a drop for a blacklisted address. -/
def Maps.countAddr (m : Maps C) (src : UInt32) (values : Fin C → UInt64) (cpu : Fin C) : Maps C :=
  { m with
    blacklist := Function.update m.blacklist src
      (some (Function.update values cpu (values cpu + 1))) }

/-- `parse_ipv4()`. -/
def parseIpv4 (cpu : Fin C) (p : Packet) (l3Offset : ℕ) (m : Maps C) :
    Option (UInt32 × Maps C) :=
  let iph := l3Offset
  if iph + ipHlen > p.length then some (xdpAborted, m)
  else do
    let ipSrc ← p.u32 (iph + 12)
    match m.blacklist ipSrc with
    | some values => return (xdpDrop, m.countAddr ipSrc values cpu)
    | none =>
        let protocol ← p.u8 (iph + 9)
        -- the header after one without options
        parsePort cpu p protocol (iph + ipHlen) m

/-- `handle_eth_protocol()`. -/
def handleEthProtocol (cpu : Fin C) (p : Packet) (ethProto : UInt16) (l3Offset : ℕ) (m : Maps C) :
    Option (UInt32 × Maps C) :=
  if ethProto = ethPIp then parseIpv4 cpu p l3Offset m else some (xdpPass, m)

/-- `xdp_program()` on CPU `cpu`. -/
def xdpProgram (cpu : Fin C) (p : Packet) (m : Maps C) : Option (UInt32 × Maps C) := do
  match ← parseEth p with
  | none => return (xdpPass, m)
  | some (ethProto, l3Offset) =>
      let (action, m) ← handleEthProtocol cpu p ethProto l3Offset m
      return (action, statsActionVerdict cpu action m)

end DdosBlacklist
