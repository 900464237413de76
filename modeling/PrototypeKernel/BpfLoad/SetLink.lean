import PrototypeKernel.Foundation.Netlink

/-! # Attaching a program to a link

`set_link_xdp_fd()` sends an `RTM_SETLINK` request with the program in nested attributes, which it
stores piece by piece in a zeroed buffer, and walks over the messages of the reply. -/

namespace BpfLoad

open Records Netlink

/-! ## The request -/

/-- The bytes are stored at `off`. -/
def store (off : ℕ) (bytes buf : List UInt8) : List UInt8 :=
  buf.take off ++ bytes ++ buf.drop (off + bytes.length)

/-- `sizeof(req)`: the header, the `struct ifinfomsg` and `attrbuf`. -/
def sizeofReq : ℕ := 16 + 16 + 64

/-- `RTM_SETLINK`. -/
def rtmSetlink : UInt16 := 19

/-- `NLM_F_REQUEST`. -/
def nlmFRequest : UInt16 := 1

/-- `NLM_F_ACK`. -/
def nlmFAck : UInt16 := 4

/-- `NLA_F_NESTED`. -/
def nlaFNested : UInt16 := 0x8000

/-- `IFLA_XDP`. -/
def iflaXdp : UInt16 := 43

/-- `IFLA_XDP_FD`. -/
def iflaXdpFd : UInt16 := 1

/-- `IFLA_XDP_FLAGS`. -/
def iflaXdpFlags : UInt16 := 3

/-- `NLMSG_ERROR`. -/
def nlmsgError : ℕ := 2

/-- An attribute header and its payload at `nla_xdp`, behind the attributes that are nested in the
one at `nla`, whose length grows. -/
def addNested (nla : ℕ) (type : UInt16) (payload : List UInt8) (req : List UInt8) : List UInt8 :=
  let nlaXdp := nla + load nla 2 req
  let req := store (nlaXdp + 2) (bytesOf 2 type.toNat) req
  let req := store nlaXdp (bytesOf 2 (4 + payload.length)) req
  let req := store (nlaXdp + 4) payload req
  store nla (bytesOf 2 (load nla 2 req + load nlaXdp 2 req)) req

/-- The buffer `req` of `set_link_xdp_fd()`. -/
def request (seq : UInt32) (ifindex fd : Int32) (flags : UInt32) : List UInt8 :=
  let req := List.replicate sizeofReq 0
  let req := store 0 (bytesOf 4 (16 + 16)) req
  let req := store 6 (bytesOf 2 (nlmFRequest ||| nlmFAck).toNat) req
  let req := store 4 (bytesOf 2 rtmSetlink.toNat) req
  let req := store 12 (bytesOf 4 0) req
  let req := store 8 (bytesOf 4 seq.toNat) req
  let req := store 16 [0] req
  let req := store 20 (bytesOf 4 ifindex.toUInt32.toNat) req
  -- the nested attribute for XDP
  let nla := align (load 0 4 req)
  let req := store (nla + 2) (bytesOf 2 (nlaFNested ||| iflaXdp).toNat) req
  let req := store nla (bytesOf 2 4) req
  let req := addNested nla iflaXdpFd (bytesOf 4 fd.toUInt32.toNat) req
  let req := if flags ≠ 0 then addNested nla iflaXdpFlags (bytesOf 4 flags.toNat) req else req
  store 0 (bytesOf 4 (load 0 4 req + align (load nla 2 req))) req

/-- The bytes of the buffer that are sent. -/
def sent (req : List UInt8) : List UInt8 := req.take (load 0 4 req)

/-! ## The reply -/

/-- `NLMSG_OK(nh, len)`. -/
def nlmsgOk (buf : List UInt8) (nh : ℕ) (len : ℤ) : Bool :=
  16 ≤ len && 16 ≤ load nh 4 buf && (load nh 4 buf : ℤ) ≤ len

/-- The walk over the messages: whether it ends without `goto cleanup`. The `break` behind
`NLMSG_DONE` leaves the `switch` only. -/
def readReply (pid seq : UInt32) (buf : List UInt8) (nh : ℕ) (len : ℤ) : Bool :=
  if _hok : nlmsgOk buf nh len then
    if load (nh + 12) 4 buf ≠ pid.toNat then false
    else if load (nh + 8) 4 buf ≠ seq.toNat then false
    else if load (nh + 4) 2 buf = nlmsgError ∧ load (nh + 16) 4 buf ≠ 0 then false
    else readReply pid seq buf (nh + align (load nh 4 buf)) (len - align (load nh 4 buf))
  else true
termination_by len.toNat
decreasing_by
  have hle := le_align (load nh 4 buf)
  simp only [nlmsgOk, Bool.and_eq_true, decide_eq_true_eq] at _hok
  omega

/-- What the system calls return: `recv()` returns a length, and leaves the buffer. -/
structure Net where
  getpid : UInt32
  socket : ℤ
  bind : ℤ
  send : List UInt8 → ℤ
  recv : ℤ × List UInt8

/-- What the function has done: the result, the bytes sent and the socket closed. -/
structure SetLinkResult where
  ret : ℤ
  sent : Option (List UInt8)
  closed : Option ℤ
  deriving DecidableEq, Repr

/-- `set_link_xdp_fd()`. -/
def setLinkXdpFd (net : Net) (ifindex fd : Int32) (flags : UInt32) : SetLinkResult :=
  if net.socket < 0 then ⟨-1, none, none⟩
  else if net.bind < 0 then ⟨-1, none, some net.socket⟩
  else
    let bytes := sent (request 1 ifindex fd flags)
    if net.send bytes < 0 then ⟨-1, some bytes, some net.socket⟩
    else if net.recv.1 < 0 then ⟨-1, some bytes, some net.socket⟩
    else if readReply net.getpid 1 net.recv.2 0 net.recv.1 then ⟨0, some bytes, some net.socket⟩
    else ⟨-1, some bytes, some net.socket⟩

/-! ## What the request says -/

/-- The attributes of the request. -/
def nested (fd : Int32) (flags : UInt32) : List Attr :=
  ⟨iflaXdpFd, bytesOf 4 fd.toUInt32.toNat⟩ ::
    if flags = 0 then [] else [⟨iflaXdpFlags, bytesOf 4 flags.toNat⟩]

/-- The bytes of the nested attributes, as they are stored. -/
def nestedBytes (fd : Int32) (flags : UInt32) : List UInt8 :=
  (nested fd flags).flatMap fun attr => pad attr.bytes

/-- The message of the request. -/
def message (seq : UInt32) (ifindex fd : Int32) (flags : UInt32) : Msg where
  type := rtmSetlink
  flags := nlmFRequest ||| nlmFAck
  seq := seq
  pid := 0
  payload := bytesOf 4 0 ++ bytesOf 4 ifindex.toUInt32.toNat ++ bytesOf 8 0 ++
    pad (Attr.bytes ⟨nlaFNested ||| iflaXdp, nestedBytes fd flags⟩)

/-! ## The buffer of the request -/

/-- A store behind a prefix leaves the prefix. -/
theorem store_append {pre : List UInt8} {off k : ℕ} (h : off = pre.length + k)
    (buf bytes : List UInt8) : store off bytes (pre ++ buf) = pre ++ store k bytes buf := by
  rw [h, store, store, List.take_length_add_append, Nat.add_assoc, List.drop_length_add_append,
    List.append_assoc, List.append_assoc, List.append_assoc]

/-- What stood there is overwritten. -/
theorem store_over {pre old bytes : List UInt8} {off : ℕ} (hoff : off = pre.length)
    (h : bytes.length = old.length) (buf : List UInt8) :
    store off bytes (pre ++ (old ++ buf)) = pre ++ (bytes ++ buf) := by
  have hbuf : store 0 bytes (old ++ buf) = bytes ++ buf := by
    rw [store, Nat.zero_add, h, List.drop_left]
    rfl
  rw [store_append (hoff.trans (Nat.add_zero _).symm), hbuf]

/-- The number that stands there. -/
theorem load_here {k n : ℕ} (h : n < 256 ^ k) {pre : List UInt8} {off : ℕ} (hoff : off = pre.length)
    (buf : List UInt8) : load off k (pre ++ (bytesOf k n ++ buf)) = n := by
  rw [load, hoff, List.drop_left, List.take_append_of_le_length (Nat.le_of_eq (by simp)),
    List.take_of_length_le (Nat.le_of_eq (by simp)), numOf_bytesOf h]

/-- The length of an attribute that stands in a buffer. -/
theorem load_attr {attr : Attr} (h : attr.Fits) {pre : List UInt8} {off : ℕ}
    (hoff : off = pre.length) (buf : List UInt8) :
    load off 2 (pre ++ (attr.bytes ++ buf)) = 4 + attr.payload.length := by
  rw [Attr.bytes, List.append_assoc, List.append_assoc, load_here h hoff]

/-- The stores of an attribute in the rest of `attrbuf`. -/
theorem store_attr (type : UInt16) (payload : List UInt8) {m : ℕ} (hm : 4 + payload.length ≤ m) :
    store 4 payload (store 0 (bytesOf 2 (4 + payload.length))
      (store 2 (bytesOf 2 type.toNat) (List.replicate m 0)))
      = Attr.bytes ⟨type, payload⟩ ++ List.replicate (m - (4 + payload.length)) 0 := by
  obtain ⟨r, rfl⟩ := Nat.exists_eq_add_of_le hm
  rw [Nat.add_sub_cancel_left, List.replicate_add, List.replicate_add, List.append_assoc]
  have hheader : ∀ buf, store 0 (bytesOf 2 (4 + payload.length)) (store 2 (bytesOf 2 type.toNat)
      (List.replicate 4 0 ++ buf)) =
        bytesOf 2 (4 + payload.length) ++ bytesOf 2 type.toNat ++ buf :=
    fun _ => rfl
  have hoff : 4 = (bytesOf 2 (4 + payload.length) ++ bytesOf 2 type.toNat).length := rfl
  rw [hheader, store_over hoff (List.length_replicate ..).symm, Attr.bytes]
  simp only [List.append_assoc]

/-- **An attribute is added behind the nested ones**, and the length around them grows. -/
theorem addNested_eq (pre inner : List UInt8) (outer type : UInt16) (payload : List UInt8) {m : ℕ}
    (hm : 4 + payload.length ≤ m) (hfits : 4 + inner.length + (4 + payload.length) < 256 ^ 2) :
    addNested pre.length type payload (pre ++ (Attr.bytes ⟨outer, inner⟩ ++ List.replicate m 0))
      = pre ++ (Attr.bytes ⟨outer, inner ++ Attr.bytes ⟨type, payload⟩⟩ ++
          List.replicate (m - (4 + payload.length)) 0) := by
  have houter : Attr.Fits ⟨outer, inner⟩ := by
    show 4 + inner.length < _
    omega
  have hnew : Attr.Fits ⟨type, payload⟩ := by
    show 4 + payload.length < _
    omega
  have hnla : pre.length + (4 + inner.length) = (pre ++ Attr.bytes ⟨outer, inner⟩).length := by
    rw [List.length_append, length_attr]
  have hstores : store (pre.length + (4 + inner.length) + 4) payload
      (store (pre.length + (4 + inner.length)) (bytesOf 2 (4 + payload.length))
        (store (pre.length + (4 + inner.length) + 2) (bytesOf 2 type.toNat)
          (pre ++ (Attr.bytes ⟨outer, inner⟩ ++ List.replicate m 0))))
      = pre ++ (Attr.bytes ⟨outer, inner⟩ ++
          (Attr.bytes ⟨type, payload⟩ ++ List.replicate (m - (4 + payload.length)) 0)) := by
    rw [← List.append_assoc pre, hnla, store_append rfl, store_append (Nat.add_zero _).symm,
      store_append rfl, store_attr type payload hm, List.append_assoc]
  have hlength : load (pre.length + (4 + inner.length)) 2 (pre ++ (Attr.bytes ⟨outer, inner⟩ ++
      (Attr.bytes ⟨type, payload⟩ ++ List.replicate (m - (4 + payload.length)) 0)))
      = 4 + payload.length := by
    rw [← List.append_assoc pre, load_attr hnew hnla]
  simp only [addNested, load_attr houter rfl, hstores, hlength]
  have hgrown : 4 + (inner ++ Attr.bytes ⟨type, payload⟩).length
      = 4 + inner.length + (4 + payload.length) := by
    rw [List.length_append, length_attr, Nat.add_assoc]
  have hbytes : ∀ payload, Attr.bytes ⟨outer, payload⟩
      = bytesOf 2 (4 + payload.length) ++ (bytesOf 2 outer.toNat ++ payload) := fun _ =>
    List.append_assoc ..
  have hsame : (bytesOf 2 (4 + inner.length + (4 + payload.length))).length
      = (bytesOf 2 (4 + inner.length)).length := rfl
  rw [hbytes inner, hbytes (inner ++ _), hgrown, List.append_assoc, store_over rfl hsame]
  simp only [List.append_assoc]

/-- The request up to `attrbuf`, with the length of the message. -/
def requestHead (len : ℕ) (seq : UInt32) (ifindex : Int32) : List UInt8 :=
  bytesOf 4 len ++ (bytesOf 2 rtmSetlink.toNat ++ (bytesOf 2 (nlmFRequest ||| nlmFAck).toNat ++
    (bytesOf 4 seq.toNat ++ (bytesOf 4 0 ++ (bytesOf 4 0 ++ (bytesOf 4 ifindex.toUInt32.toNat ++
      bytesOf 8 0))))))

/-- The buffer with the attribute for XDP around `inner`, before the last store. -/
def requestBody (seq : UInt32) (ifindex : Int32) (inner : List UInt8) : List UInt8 :=
  requestHead 32 seq ifindex ++
    (Attr.bytes ⟨nlaFNested ||| iflaXdp, inner⟩ ++ List.replicate (60 - inner.length) 0)

/-- The attribute for XDP holds nothing at first. -/
theorem requestBody_nil (seq : UInt32) (ifindex : Int32) :
    store 32 (bytesOf 2 4) (store 34 (bytesOf 2 (nlaFNested ||| iflaXdp).toNat)
      (requestHead 32 seq ifindex ++ List.replicate 64 0)) = requestBody seq ifindex [] := rfl

/-- Another attribute. -/
theorem addNested_requestBody (seq : UInt32) (ifindex : Int32) (inner : List UInt8) (type : UInt16)
    (payload : List UInt8) (hroom : inner.length + (4 + payload.length) ≤ 60) :
    addNested 32 type payload (requestBody seq ifindex inner)
      = requestBody seq ifindex (inner ++ Attr.bytes ⟨type, payload⟩) := by
  have hlength : (inner ++ Attr.bytes ⟨type, payload⟩).length
      = inner.length + (4 + payload.length) := by
    rw [List.length_append, length_attr]
  have h32 : 32 = (requestHead 32 seq ifindex).length := rfl
  conv_lhs => rw [h32]
  rw [requestBody, requestBody, hlength, ← Nat.sub_sub]
  exact addNested_eq _ _ _ _ _ (by omega) (by omega)

/-- The last store, of the length of the message. -/
theorem store_requestBody (seq : UInt32) (ifindex : Int32) {inner : List UInt8}
    (hroom : inner.length ≤ 60) :
    store 0 (bytesOf 4 (load 0 4 (requestBody seq ifindex inner)
        + align (load 32 2 (requestBody seq ifindex inner)))) (requestBody seq ifindex inner)
      = requestHead (32 + align (4 + inner.length)) seq ifindex ++
        (Attr.bytes ⟨nlaFNested ||| iflaXdp, inner⟩ ++ List.replicate (60 - inner.length) 0) := by
  have hfits : Attr.Fits ⟨nlaFNested ||| iflaXdp, inner⟩ := by
    show 4 + inner.length < _
    omega
  have hload : load 0 4 (requestBody seq ifindex inner) = 32 := rfl
  have h32 : 32 = (requestHead 32 seq ifindex).length := rfl
  have hnla : load 32 2 (requestBody seq ifindex inner) = 4 + inner.length := load_attr hfits h32 _
  rw [hload, hnla]
  rfl

/-- An attribute with a number in it has no padding. -/
theorem pad_attr (type : UInt16) (n : ℕ) :
    pad (Attr.bytes ⟨type, bytesOf 4 n⟩) = Attr.bytes ⟨type, bytesOf 4 n⟩ := by
  apply pad_of_aligned
  rw [length_attr, length_bytesOf]
  rfl

/-- The nested attributes are the descriptor, and the flags if there are any. -/
theorem nestedBytes_eq (fd : Int32) (flags : UInt32) :
    nestedBytes fd flags = Attr.bytes ⟨iflaXdpFd, bytesOf 4 fd.toUInt32.toNat⟩ ++
      if flags = 0 then [] else Attr.bytes ⟨iflaXdpFlags, bytesOf 4 flags.toNat⟩ := by
  rw [nestedBytes, nested]
  split
  · rw [List.flatMap_singleton, pad_attr, List.append_nil]
  · rw [List.flatMap_cons, List.flatMap_singleton, pad_attr, pad_attr]

/-- An attribute of a word takes eight bytes. -/
theorem length_nestedBytes (fd : Int32) (flags : UInt32) :
    (nestedBytes fd flags).length = if flags = 0 then 8 else 16 := by
  rw [nestedBytes_eq, List.length_append, length_attr, length_bytesOf]
  split
  · rfl
  · rw [length_attr, length_bytesOf]

/-- **The buffer at the end.** -/
theorem request_eq (seq : UInt32) (ifindex fd : Int32) (flags : UInt32) :
    request seq ifindex fd flags
      = requestHead (32 + align (4 + (nestedBytes fd flags).length)) seq ifindex ++
        (Attr.bytes ⟨nlaFNested ||| iflaXdp, nestedBytes fd flags⟩ ++
          List.replicate (60 - (nestedBytes fd flags).length) 0) := by
  have hhead : store 20 (bytesOf 4 ifindex.toUInt32.toNat) (store 16 [0]
      (store 8 (bytesOf 4 seq.toNat) (store 12 (bytesOf 4 0) (store 4 (bytesOf 2 rtmSetlink.toNat)
        (store 6 (bytesOf 2 (nlmFRequest ||| nlmFAck).toNat)
          (store 0 (bytesOf 4 (16 + 16)) (List.replicate sizeofReq 0)))))))
      = requestHead 32 seq ifindex ++ List.replicate 64 0 := rfl
  have hload : load 0 4 (requestHead 32 seq ifindex ++ List.replicate 64 0) = 32 := rfl
  have halign : align 32 = 32 := rfl
  simp only [request, hhead, hload, halign, Nat.reduceAdd, requestBody_nil]
  have hfd := addNested_requestBody seq ifindex [] iflaXdpFd (bytesOf 4 fd.toUInt32.toNat) (by simp)
  rw [hfd, nestedBytes_eq]
  by_cases hflags : flags = 0
  · rw [if_neg (not_not_intro hflags), if_pos hflags, List.append_nil]
    exact store_requestBody seq ifindex (by simp [length_attr])
  · rw [if_pos hflags, if_neg hflags, addNested_requestBody _ _ _ _ _ (by simp [length_attr])]
    exact store_requestBody seq ifindex (by simp [length_attr])

/-- **What is sent** is the message, and the buffer is large enough for it. -/
theorem sent_request (seq : UInt32) (ifindex fd : Int32) (flags : UInt32) :
    (request seq ifindex fd flags).length = sizeofReq ∧
      sent (request seq ifindex fd flags) = pad (message seq ifindex fd flags).bytes := by
  have hlength := length_nestedBytes fd flags
  rw [sent, request_eq, message]
  generalize nestedBytes fd flags = inner at hlength ⊢
  have halign : align (4 + inner.length) = 4 + inner.length := by
    rw [hlength]
    split <;> rfl
  have hle : inner.length ≤ 16 := by
    rw [hlength]
    split <;> omega
  have hattr : pad (Attr.bytes ⟨nlaFNested ||| iflaXdp, inner⟩)
      = Attr.bytes ⟨nlaFNested ||| iflaXdp, inner⟩ := by
    apply pad_of_aligned
    rw [length_attr]
    exact halign
  rw [halign, hattr]
  have hhead : (requestHead (32 + (4 + inner.length)) seq ifindex).length = 32 := rfl
  have hload : ∀ buf, load 0 4 (requestHead (32 + (4 + inner.length)) seq ifindex ++ buf)
      = 32 + (4 + inner.length) := fun buf =>
    load_here (by omega) (show 0 = ([] : List UInt8).length from rfl) _
  refine ⟨?_, ?_⟩
  · rw [List.length_append, List.length_append, hhead, length_attr, List.length_replicate,
      sizeofReq]
    show 32 + (4 + inner.length + (60 - inner.length)) = 96
    omega
  · have htake : ∀ a rest : List UInt8, a.length = 4 + inner.length →
        (requestHead (32 + (4 + inner.length)) seq ifindex ++ (a ++ rest)).take
          (32 + (4 + inner.length)) = requestHead (32 + (4 + inner.length)) seq ifindex ++ a := by
      intro a rest ha
      rw [← List.append_assoc]
      exact List.take_left' (by rw [List.length_append, hhead, ha])
    have hpayload : (bytesOf 4 0 ++ bytesOf 4 ifindex.toUInt32.toNat ++ bytesOf 8 0 ++
        Attr.bytes ⟨nlaFNested ||| iflaXdp, inner⟩).length = 16 + (4 + inner.length) := by
      rw [List.length_append, length_attr]
      rfl
    rw [hload, htake _ _ (length_attr _), pad_of_aligned, Msg.bytes, hpayload, ← Nat.add_assoc 16]
    · simp only [requestHead, List.append_assoc, UInt32.toNat_zero]
    · rw [length_msg, hpayload]
      simp only [align] at halign ⊢
      omega

/-! ## What the request asks for -/

/-- What an `RTM_SETLINK` request with an attribute for XDP asks for. -/
structure XdpRequest where
  ifindex : Int32
  fd : Int32
  flags : UInt32
  deriving DecidableEq, Repr

/-- The request in the bytes: a message of its type, `ifi_index`, and the nested attributes for the
program and the flags, which are zero when they are missing. -/
def XdpRequest.decode (bytes : List UInt8) : Option XdpRequest :=
  match msgs bytes with
  | [msg] => do
      if msg.type ≠ rtmSetlink then none
      else
        let xdp ← (attrs (msg.payload.drop 16)).find? fun attr => attr.type &&& 0x3fff = iflaXdp
        let fd ← (attrs xdp.payload).find? fun attr => attr.type = iflaXdpFd
        let flags := (attrs xdp.payload).find? fun attr => attr.type = iflaXdpFlags
        some {
          ifindex := (UInt32.ofNat (load 4 4 msg.payload)).toInt32
          fd := (UInt32.ofNat (load 0 4 fd.payload)).toInt32
          flags := flags.elim 0 fun attr => UInt32.ofNat (load 0 4 attr.payload) }
  | _ => none

/-- A `u32` is read back from its bytes. -/
theorem load_u32 (n : UInt32) : UInt32.ofNat (load 0 4 (bytesOf 4 n.toNat)) = n := by
  have hlt : n.toNat < 256 ^ 4 := n.toNat_lt
  have hload : load 0 4 ([] ++ (bytesOf 4 n.toNat ++ [])) = n.toNat :=
    load_here hlt (List.length_nil (α := UInt8)).symm []
  rw [List.append_nil] at hload
  exact (congrArg UInt32.ofNat hload).trans (UInt32.ofNat_toNat ..)

/-- The nested attributes decode to the descriptor and the flags. -/
theorem attrs_nestedBytes (fd : Int32) (flags : UInt32) :
    attrs (nestedBytes fd flags) = nested fd flags := by
  apply attrs_pad
  intro attr hattr
  show 4 + attr.payload.length < 256 ^ 2
  have hlength : attr.payload.length = 4 := by
    rw [nested] at hattr
    split at hattr
    · rw [List.mem_singleton.mp hattr]
      exact length_bytesOf ..
    · rcases List.mem_cons.mp hattr with rfl | hattr
      · exact length_bytesOf ..
      · rw [List.mem_singleton.mp hattr]
        exact length_bytesOf ..
  omega

/-- **The request asks for what the caller asks for.** -/
theorem decode_sent (seq : UInt32) (ifindex fd : Int32) (flags : UInt32) :
    XdpRequest.decode (sent (request seq ifindex fd flags)) = some ⟨ifindex, fd, flags⟩ := by
  have hlength := length_nestedBytes fd flags
  have hle : (nestedBytes fd flags).length ≤ 16 := by
    rw [hlength]
    split <;> omega
  have hxdp : Attr.Fits ⟨nlaFNested ||| iflaXdp, nestedBytes fd flags⟩ := by
    show 4 + (nestedBytes fd flags).length < _
    omega
  have hmsg : (message seq ifindex fd flags).Fits := by
    show 16 + (message seq ifindex fd flags).payload.length < _
    rw [message, List.length_append, length_pad, length_attr]
    show 16 + (16 + align (4 + (nestedBytes fd flags).length)) < _
    rw [align]
    omega
  have hmsgs : msgs (sent (request seq ifindex fd flags)) = [message seq ifindex fd flags] := by
    rw [(sent_request ..).2, ← msgs_pad (List.forall_mem_singleton.mpr hmsg),
      List.flatMap_singleton]
  have hattrs : attrs ((message seq ifindex fd flags).payload.drop 16)
      = [⟨nlaFNested ||| iflaXdp, nestedBytes fd flags⟩] := by
    have hdrop : (message seq ifindex fd flags).payload.drop 16
        = pad (Attr.bytes ⟨nlaFNested ||| iflaXdp, nestedBytes fd flags⟩) := rfl
    rw [hdrop, ← attrs_pad (List.forall_mem_singleton.mpr hxdp), List.flatMap_singleton]
  have hifindex : load 4 4 (message seq ifindex fd flags).payload
      = load 0 4 (bytesOf 4 ifindex.toUInt32.toNat) := rfl
  have hfd : (nested fd flags).find? (fun attr => attr.type = iflaXdpFd)
      = some ⟨iflaXdpFd, bytesOf 4 fd.toUInt32.toNat⟩ := rfl
  have hflags : ((nested fd flags).find? fun attr => attr.type = iflaXdpFlags).elim 0
      (fun attr => UInt32.ofNat (load 0 4 attr.payload)) = flags := by
    by_cases hzero : flags = 0
    · rw [hzero]
      rfl
    · rw [nested, if_neg hzero]
      exact load_u32 flags
  have hmask : (nlaFNested ||| iflaXdp) &&& 0x3fff = iflaXdp := by decide
  have hfound : [(⟨nlaFNested ||| iflaXdp, nestedBytes fd flags⟩ : Attr)].find?
      (fun attr => attr.type &&& 0x3fff = iflaXdp)
      = some ⟨nlaFNested ||| iflaXdp, nestedBytes fd flags⟩ :=
    List.find?_cons_of_pos (decide_eq_true hmask)
  have htype : ¬(message seq ifindex fd flags).type ≠ rtmSetlink := not_not_intro rfl
  rw [XdpRequest.decode, hmsgs]
  simp only [if_neg htype, hattrs, hfound, attrs_nestedBytes, hfd, hflags, hifindex, load_u32,
    Option.bind_some, Option.bind_eq_bind, Int32.toInt32_toUInt32]

/-! ## What the reply says -/

/-- A message that the walk passes. -/
def Passes (pid seq : UInt32) (msg : Msg) : Prop :=
  msg.pid = pid ∧ msg.seq = seq ∧ (msg.type.toNat = nlmsgError → load 0 4 msg.payload = 0)

instance (pid seq : UInt32) (msg : Msg) : Decidable (Passes pid seq msg) :=
  inferInstanceAs (Decidable (_ ∧ _ ∧ (_ → _)))

/-- A message of the reply: one of type `NLMSG_ERROR` holds a `struct nlmsgerr`. -/
structure ReplyMsg (msg : Msg) : Prop where
  fits : msg.Fits
  error : msg.type.toNat = nlmsgError → 4 ≤ msg.payload.length

/-- A field of a message that stands in a buffer. -/
theorem load_msg {pre buf : List UInt8} {off k n v : ℕ} {msg : Msg} (hoff : off = pre.length + k)
    (hload : ∀ rest, load k n (msg.bytes ++ rest) = v) :
    load off n (pre ++ (pad msg.bytes ++ buf)) = v := by
  rw [load, hoff, List.drop_length_add_append, pad, List.append_assoc]
  exact hload _

/-- **The walk ends well exactly when every message passes.** -/
theorem readReply_iff (pid seq : UInt32) {reply : List Msg} (h : ∀ msg ∈ reply, ReplyMsg msg)
    (pre rest : List UInt8) :
    readReply pid seq (pre ++ ((reply.flatMap fun msg => pad msg.bytes) ++ rest)) pre.length
        (reply.flatMap fun msg => pad msg.bytes).length
      ↔ ∀ msg ∈ reply, Passes pid seq msg := by
  induction reply generalizing pre with
  | nil =>
    rw [readReply, dif_neg]
    · simp
    · simp [nlmsgOk]
  | cons msg reply ih =>
    have hmsg := h msg List.mem_cons_self
    have hle := le_align (16 + msg.payload.length)
    rw [List.flatMap_cons, List.append_assoc, List.length_append, length_pad, length_msg]
    generalize hbuf : (reply.flatMap fun msg => pad msg.bytes) ++ rest = buf
    have hlen : load pre.length 4 (pre ++ (pad msg.bytes ++ buf)) = 16 + msg.payload.length :=
      load_msg (Nat.add_zero _).symm fun _ => numOf_bytesOf hmsg.fits
    have hpid : load (pre.length + 12) 4 (pre ++ (pad msg.bytes ++ buf)) = msg.pid.toNat :=
      load_msg rfl fun _ => numOf_u32 msg.pid
    have hseq : load (pre.length + 8) 4 (pre ++ (pad msg.bytes ++ buf)) = msg.seq.toNat :=
      load_msg rfl fun _ => numOf_u32 msg.seq
    have htype : load (pre.length + 4) 2 (pre ++ (pad msg.bytes ++ buf)) = msg.type.toNat :=
      load_msg rfl fun _ => numOf_u16 msg.type
    have herror : msg.type.toNat = nlmsgError →
        load (pre.length + 16) 4 (pre ++ (pad msg.bytes ++ buf)) = load 0 4 msg.payload := by
      intro htype
      have htake : ∀ rest, (msg.payload ++ rest).take 4 = msg.payload.take 4 := fun rest =>
        List.take_append_of_le_length (hmsg.error htype)
      exact load_msg rfl fun rest => congrArg numOf (htake rest)
    have hok : nlmsgOk (pre ++ (pad msg.bytes ++ buf)) pre.length
        (align (16 + msg.payload.length) +
          (reply.flatMap fun msg => pad msg.bytes).length : ℕ) := by
      rw [nlmsgOk, hlen]
      simp only [Bool.and_eq_true, decide_eq_true_eq]
      omega
    have hnext : (align (16 + msg.payload.length) +
          (reply.flatMap fun msg => pad msg.bytes).length : ℕ)
        - (align (16 + msg.payload.length) : ℤ)
        = (reply.flatMap fun msg => pad msg.bytes).length := by omega
    have hpre : pre.length + align (16 + msg.payload.length) = (pre ++ pad msg.bytes).length := by
      rw [List.length_append, length_pad, length_msg]
    have hih := ih (fun m hm => h m (List.mem_cons_of_mem _ hm)) (pre ++ pad msg.bytes)
    rw [List.append_assoc, hbuf] at hih
    rw [readReply, dif_pos hok, hlen, hpid, hseq, htype, hnext, hpre, List.forall_mem_cons, ← hih,
      Passes]
    by_cases hpid : msg.pid = pid
    · by_cases hseq : msg.seq = seq
      · by_cases herr : msg.type.toNat = nlmsgError
        · rw [herror herr]
          by_cases hzero : load 0 4 msg.payload = 0
          · simp [hpid, hseq, herr, hzero]
          · simp [hpid, hseq, herr, hzero]
        · simp [hpid, hseq, herr]
      · simp [hpid, hseq, UInt32.toNat_inj]
    · simp [hpid, UInt32.toNat_inj]

/-- **`set_link_xdp_fd()`**: what it sends asks for what the caller asks for, a socket that is open
is closed, and the function succeeds exactly when all calls do and every message of the reply is
for it and reports no error. -/
theorem set_link_xdp_fd_correct (net : Net) (ifindex fd : Int32) (flags : UInt32)
    (reply : List Msg) (hreply : ∀ msg ∈ reply, ReplyMsg msg) (rest : List UInt8)
    (hbuf : net.recv.2 = (reply.flatMap fun msg => pad msg.bytes) ++ rest)
    (hlen : 0 ≤ net.recv.1 → net.recv.1 = (reply.flatMap fun msg => pad msg.bytes).length) :
    (∀ bytes, (setLinkXdpFd net ifindex fd flags).sent = some bytes →
      XdpRequest.decode bytes = some ⟨ifindex, fd, flags⟩) ∧
    (setLinkXdpFd net ifindex fd flags).closed
      = (if 0 ≤ net.socket then some net.socket else none) ∧
    (setLinkXdpFd net ifindex fd flags).ret =
      if 0 ≤ net.socket ∧ 0 ≤ net.bind ∧ 0 ≤ net.send (sent (request 1 ifindex fd flags)) ∧
        0 ≤ net.recv.1 ∧ ∀ msg ∈ reply, Passes net.getpid 1 msg then 0 else -1 := by
  have hdecode : ∀ bytes, some (sent (request 1 ifindex fd flags)) = some bytes →
      XdpRequest.decode bytes = some ⟨ifindex, fd, flags⟩ := by
    rintro bytes ⟨⟩
    exact decode_sent ..
  rw [setLinkXdpFd]
  by_cases hsocket : net.socket < 0
  · rw [if_pos hsocket, if_neg (Int.not_le.mpr hsocket), if_neg fun h => absurd h.1 (by omega)]
    exact ⟨nofun, rfl, rfl⟩
  rw [if_neg hsocket, if_pos (Int.not_lt.mp hsocket)]
  by_cases hbind : net.bind < 0
  · rw [if_pos hbind, if_neg fun h => absurd h.2.1 (by omega)]
    exact ⟨nofun, rfl, rfl⟩
  rw [if_neg hbind]
  by_cases hsend : net.send (sent (request 1 ifindex fd flags)) < 0
  · simp only [if_pos hsend]
    rw [if_neg fun h => absurd h.2.2.1 (by omega)]
    exact ⟨hdecode, trivial, rfl⟩
  by_cases hrecv : net.recv.1 < 0
  · simp only [if_neg hsend, if_pos hrecv]
    rw [if_neg fun h => absurd h.2.2.2.1 (by omega)]
    exact ⟨hdecode, trivial, rfl⟩
  have hread := readReply_iff net.getpid 1 hreply [] rest
  rw [List.nil_append, ← hbuf, List.length_nil, ← hlen (Int.not_lt.mp hrecv)] at hread
  simp only [if_neg hsend, if_neg hrecv]
  by_cases hpass : ∀ msg ∈ reply, Passes net.getpid 1 msg
  · rw [if_pos (hread.mpr hpass), if_pos ⟨by omega, by omega, by omega, by omega, hpass⟩]
    exact ⟨hdecode, rfl, rfl⟩
  · rw [if_neg (mt hread.mp hpass), if_neg fun h => hpass h.2.2.2.2]
    exact ⟨hdecode, rfl, rfl⟩

/-- The acknowledgement of the kernel: an `NLMSG_ERROR` that reports no error. -/
def ack : Msg := ⟨2, 0x100, 1, 42, bytesOf 4 0 ++ List.replicate 16 0⟩

/-- Program 7 is attached to link 3. -/
theorem set_link_xdp_fd_acknowledged :
    (setLinkXdpFd ⟨42, 5, 0, fun bytes => bytes.length, (36, pad ack.bytes)⟩ 3 7 2).ret = 0 := by
  have hack : ReplyMsg ack := ⟨show 16 + ack.payload.length < 256 ^ 4 by decide, fun _ => by decide⟩
  have h := set_link_xdp_fd_correct ⟨42, 5, 0, fun bytes => bytes.length, (36, pad ack.bytes)⟩ 3 7 2
    [ack] (List.forall_mem_singleton.mpr hack) [] rfl (fun _ => rfl)
  rw [h.2.2]
  decide

end BpfLoad
