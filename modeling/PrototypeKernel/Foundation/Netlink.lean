import Mathlib.Tactic.TypeStar
import PrototypeKernel.Foundation.Records

/-! # Netlink messages

The messages of a netlink socket and the attributes in them, and what a reader finds in them. -/

namespace Netlink

open Records

/-- `struct nlattr` with its payload. -/
structure Attr where
  type : UInt16
  payload : List UInt8
  deriving DecidableEq, Repr

/-- `struct nlmsghdr` with what comes behind it. -/
structure Msg where
  type : UInt16
  flags : UInt16
  seq : UInt32
  pid : UInt32
  payload : List UInt8
  deriving DecidableEq, Repr

/-- The bytes of an attribute: `nla_len`, `nla_type` and the payload. -/
def Attr.bytes (attr : Attr) : List UInt8 :=
  bytesOf 2 (4 + attr.payload.length) ++ bytesOf 2 attr.type.toNat ++ attr.payload

/-- The bytes of a message: `nlmsg_len`, `nlmsg_type`, `nlmsg_flags`, `nlmsg_seq`, `nlmsg_pid` and
the payload. -/
def Msg.bytes (msg : Msg) : List UInt8 :=
  bytesOf 4 (16 + msg.payload.length) ++ bytesOf 2 msg.type.toNat ++ bytesOf 2 msg.flags.toNat ++
    bytesOf 4 msg.seq.toNat ++ bytesOf 4 msg.pid.toNat ++ msg.payload

/-- The number in the `k` bytes from `off` on. -/
def load (off k : ℕ) (bytes : List UInt8) : ℕ := numOf ((bytes.drop off).take k)

/-- The attribute at the start of some bytes. -/
def Attr.ofBytes (bytes : List UInt8) : Attr where
  type := UInt16.ofNat (load 2 2 bytes)
  payload := bytes.drop 4

/-- The message at the start of some bytes. -/
def Msg.ofBytes (bytes : List UInt8) : Msg where
  type := UInt16.ofNat (load 4 2 bytes)
  flags := UInt16.ofNat (load 6 2 bytes)
  seq := UInt32.ofNat (load 8 4 bytes)
  pid := UInt32.ofNat (load 12 4 bytes)
  payload := bytes.drop 16

/-- The attributes at the start of the bytes. -/
def attrs (bytes : List UInt8) : List Attr := (split 2 4 bytes).map Attr.ofBytes

/-- The messages at the start of the bytes. -/
def msgs (bytes : List UInt8) : List Msg := (split 4 16 bytes).map Msg.ofBytes

/-! ## Round trips -/

/-- A `u16` is read back from its bytes. -/
theorem numOf_u16 (n : UInt16) : numOf (bytesOf 2 n.toNat) = n.toNat := numOf_bytesOf n.toNat_lt

/-- A `u32` is read back from its bytes. -/
theorem numOf_u32 (n : UInt32) : numOf (bytesOf 4 n.toNat) = n.toNat := numOf_bytesOf n.toNat_lt

/-- An attribute has a header of four bytes. -/
theorem length_attr (attr : Attr) : attr.bytes.length = 4 + attr.payload.length := by
  rw [Attr.bytes, List.length_append, List.length_append, length_bytesOf, length_bytesOf]

/-- A message has a header of 16 bytes. -/
theorem length_msg (msg : Msg) : msg.bytes.length = 16 + msg.payload.length := by
  rw [Msg.bytes, List.length_append, List.length_append, List.length_append, List.length_append,
    List.length_append, length_bytesOf, length_bytesOf, length_bytesOf, length_bytesOf,
    length_bytesOf]

/-- An attribute that fits is read back from its bytes. -/
theorem Attr.ofBytes_bytes (attr : Attr) : Attr.ofBytes attr.bytes = attr := by
  have htype : load 2 2 attr.bytes = attr.type.toNat := numOf_u16 attr.type
  rw [Attr.ofBytes, htype, UInt16.ofNat_toNat]
  rfl

/-- A message that fits is read back from its bytes. -/
theorem Msg.ofBytes_bytes (msg : Msg) : Msg.ofBytes msg.bytes = msg := by
  have htype : load 4 2 msg.bytes = msg.type.toNat := numOf_u16 msg.type
  have hflags : load 6 2 msg.bytes = msg.flags.toNat := numOf_u16 msg.flags
  have hseq : load 8 4 msg.bytes = msg.seq.toNat := numOf_u32 msg.seq
  have hpid : load 12 4 msg.bytes = msg.pid.toNat := numOf_u32 msg.pid
  rw [Msg.ofBytes, htype, hflags, hseq, hpid, UInt16.ofNat_toNat, UInt16.ofNat_toNat,
    UInt32.ofNat_toNat, UInt32.ofNat_toNat]
  rfl

/-- The length of an attribute fits its field. -/
def Attr.Fits (attr : Attr) : Prop := 4 + attr.payload.length < 256 ^ 2

/-- The length of a message fits its field. -/
def Msg.Fits (msg : Msg) : Prop := 16 + msg.payload.length < 256 ^ 4

/-- An attribute that fits is a record. -/
theorem Attr.Fits.wellFormed {attr : Attr} (h : attr.Fits) : WellFormed 2 4 attr.bytes where
  pos := by decide
  field := by decide
  header := by
    rw [length_attr]
    exact Nat.le_add_right ..
  length := by
    rw [length_attr]
    exact numOf_bytesOf h

/-- A message that fits is a record. -/
theorem Msg.Fits.wellFormed {msg : Msg} (h : msg.Fits) : WellFormed 4 16 msg.bytes where
  pos := by decide
  field := by decide
  header := by
    rw [length_msg]
    exact Nat.le_add_right ..
  length := by
    rw [length_msg]
    exact numOf_bytesOf h

/-- **The attributes are read back.** -/
theorem attrs_pad {l : List Attr} (h : ∀ attr ∈ l, attr.Fits) :
    attrs (l.flatMap fun attr => pad attr.bytes) = l := by
  have hflat : (l.flatMap fun attr => pad attr.bytes) = (l.map Attr.bytes).flatMap pad := by
    rw [List.flatMap_map]
  rw [attrs, hflat, split_pad (List.forall_mem_map.mpr fun attr hmem => (h attr hmem).wellFormed)
    (by decide), List.map_map]
  exact (List.map_congr_left fun attr _ => attr.ofBytes_bytes).trans (List.map_id l)

/-- **The messages are read back.** -/
theorem msgs_pad {l : List Msg} (h : ∀ msg ∈ l, msg.Fits) :
    msgs (l.flatMap fun msg => pad msg.bytes) = l := by
  have hflat : (l.flatMap fun msg => pad msg.bytes) = (l.map Msg.bytes).flatMap pad := by
    rw [List.flatMap_map]
  rw [msgs, hflat, split_pad (List.forall_mem_map.mpr fun msg hmem => (h msg hmem).wellFormed)
    (by decide), List.map_map]
  exact (List.map_congr_left fun msg _ => msg.ofBytes_bytes).trans (List.map_id l)

end Netlink
