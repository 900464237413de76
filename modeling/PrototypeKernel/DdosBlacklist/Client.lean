import PrototypeKernel.DdosBlacklist.Program
import PrototypeKernel.Foundation.KernelInt
import Mathlib.Algebra.Group.Int.Defs

/-! # Changing the port blacklist from user space

`blacklist_port_modify()` of `xdp_ddos01_blacklist_common.h` looks up the values of a port on all
CPUs, changes the bit of the protocol in its copy, and writes the values back. A delete also resets
the drop counters. A client is at one of its map syscalls, `ClientPc`, and what one call does alone
is `blacklistPortModify`. For a valid request this is `Maps.apply`, and otherwise nothing. -/

namespace DdosBlacklist

open KernelInt

variable {C : ℕ}

/-! ## Constants -/

/-- `EXIT_OK`. -/
def exitOk : ℤ := 0

/-- `EXIT_FAIL_OPTION`. -/
def exitFailOption : ℤ := 2

/-- `EXIT_FAIL_MAP_KEY`. -/
def exitFailMapKey : ℤ := 21

/-- `EXIT_FAIL_MAP_FILE`. -/
def exitFailMapFile : ℤ := 22

/-- `EXIT_FAIL_IP`. -/
def exitFailIp : ℤ := 30

/-- `EXIT_FAIL_PORT`. -/
def exitFailPort : ℤ := 31

/-- `ACTION_ADD` and `ACTION_DEL`. -/
def actionAdd : UInt32 := (1 : UInt32) <<< 0

/-- `ACTION_DEL`. -/
def actionDel : UInt32 := (1 : UInt32) <<< 1

/-! ## The call -/

/-- The arguments of `blacklist_port_modify()`. The file descriptors are those of `port_blacklist`
and, for a known protocol, of the drop counters of this protocol. -/
structure Call where
  dport : Int32
  action : UInt32
  proto : Int32
  deriving DecidableEq

/-- `__u32 key = dport`. -/
def Call.key (c : Call) : UInt32 := c.dport.toUInt32

/-- The checks of the arguments: the protocol, or the exit code. -/
def Call.check (c : Call) : Except ℤ Filter :=
  if c.action ≠ actionAdd ∧ c.action ≠ actionDel then .error exitFailOption
  else if c.proto = 6 then if c.dport > 65535 then .error exitFailPort else .ok .tcp
  else if c.proto = 17 then if c.dport > 65535 then .error exitFailPort else .ok .udp
  else .error exitFailOption

/-- `1 << DDOS_FILTER_TCP` and `1 << DDOS_FILTER_UDP`, the bit in the values of user space. -/
def Filter.value : Filter → UInt64
  | .tcp => (1 : UInt64) <<< 0
  | .udp => (1 : UInt64) <<< 1

/-- The loops over `curr_values`. -/
def Call.change (c : Call) (f : Filter) (values : Fin C → UInt64) : Fin C → UInt64 :=
  if c.action = actionAdd then fun cpu => values cpu ||| f.value
  else if c.action = actionDel then fun cpu => values cpu &&& ~~~ f.value
  else values

/-- `blacklist_port_modify()`: the exit code and the maps. -/
def blacklistPortModify (c : Call) (m : Maps C) : ℤ × Maps C :=
  match c.check with
  | .error code => (code, m)
  | .ok f =>
      -- a failed lookup is reported, and leaves the zeroes
      let currValues := (m.portBlacklist.lookup c.key).getD fun _ => 0
      match m.portBlacklist.update c.key (c.change f currValues) with
      -- an update beyond the size of the array fails with `E2BIG`
      | none => (if e2big = eexist then exitOk else exitFailMapKey, m)
      | some a =>
          let m := { m with portBlacklist := a }
          if c.action = actionDel then
            match (m.dropCountByFproto f).update c.key fun _ => 0 with
            | none => (exitFailMapKey, m)
            | some a => (exitOk, m.setDropCount f a)
          else (exitOk, m)

/-! ## One syscall at a time -/

/-- Where a client stands, with the values it is about to write. -/
inductive ClientPc (C : ℕ) where
  | lookup (f : Filter)
  | update (f : Filter) (values : Fin C → UInt64)
  | clear (f : Filter)
  | exit (code : ℤ)

/-- The first syscall of a call. -/
def Call.start (c : Call) : ClientPc C :=
  match c.check with
  | .error code => .exit code
  | .ok f => .lookup f

/-- The next syscall of the client. -/
def Call.syscall (c : Call) (m : Maps C) : ClientPc C → Option (ClientPc C × Maps C)
  | .lookup f =>
      let currValues := (m.portBlacklist.lookup c.key).getD fun _ => 0
      some (.update f (c.change f currValues), m)
  | .update f values =>
      match m.portBlacklist.update c.key values with
      | none => some (.exit (if e2big = eexist then exitOk else exitFailMapKey), m)
      | some a =>
          some (if c.action = actionDel then .clear f else .exit exitOk,
            { m with portBlacklist := a })
  | .clear f =>
      match (m.dropCountByFproto f).update c.key fun _ => 0 with
      | none => some (.exit exitFailMapKey, m)
      | some a => some (.exit exitOk, m.setDropCount f a)
  | .exit _ => none

/-- The syscalls of a client without anyone else, for at most `fuel` of them. -/
def Call.runAlone (c : Call) : ℕ → ClientPc C → Maps C → Option (ℤ × Maps C)
  | _, .exit code, m => some (code, m)
  | 0, _, _ => none
  | fuel + 1, pc, m => do
      let (pc, m) ← c.syscall m pc
      c.runAlone fuel pc m

/-- **A client without anyone else does what `blacklist_port_modify()` does.** -/
theorem runAlone_eq (c : Call) (m : Maps C) :
    c.runAlone 3 c.start m = some (blacklistPortModify c m) := by
  unfold Call.start blacklistPortModify
  cases c.check with
  | error code => rfl
  | ok f =>
    simp only [Call.runAlone, Call.syscall, Option.bind_eq_bind, Option.bind_some]
    cases m.portBlacklist.update c.key _ with
    | none => rfl
    | some a =>
      by_cases hdel : c.action = actionDel
      · simp only [hdel, if_true, Option.bind_some, Call.runAlone, Call.syscall]
        cases (({ m with portBlacklist := a } : Maps C).dropCountByFproto f).update c.key
          fun _ => 0 <;> rfl
      · simp [hdel, Call.runAlone]

/-! ## Valid requests -/

/-- What a valid call asks for. -/
structure Request where
  port : Fin portMax
  filter : Filter
  add : Bool
  deriving DecidableEq

/-- The request of a call, unless the action, the protocol or the port is invalid. -/
def Call.request (c : Call) : Option Request :=
  if h : 0 ≤ c.dport.toInt ∧ c.dport.toInt.toNat < portMax then
    if c.action ≠ actionAdd ∧ c.action ≠ actionDel then none
    else if c.proto = 6 then some ⟨⟨c.dport.toInt.toNat, h.2⟩, .tcp, c.action = actionAdd⟩
    else if c.proto = 17 then some ⟨⟨c.dport.toInt.toNat, h.2⟩, .udp, c.action = actionAdd⟩
    else none
  else none

/-- What a request does to the values of its port. -/
def Request.change (r : Request) (values : Fin C → UInt64) : Fin C → UInt64 := fun cpu =>
  if r.add then values cpu ||| r.filter.value else values cpu &&& ~~~ r.filter.value

/-- **What a request does to the maps**: it changes the values of its port, and when it deletes it
resets the drop counters of its port and protocol. -/
def Maps.apply (m : Maps C) (r : Request) : Maps C :=
  let m := { m with
    portBlacklist := Function.update m.portBlacklist r.port (r.change (m.portBlacklist r.port)) }
  if r.add then m
  else m.setDropCount r.filter (Function.update (m.dropCountByFproto r.filter) r.port fun _ => 0)

/-- The key of a port is its bits as a `u32`. -/
theorem toInt_dport (c : Call) :
    c.dport.toInt = if 2 * c.key.toNat < 2 ^ 32 then (c.key.toNat : ℤ) else c.key.toNat - 2 ^ 32 :=
  BitVec.toInt_eq_toNat_cond c.dport.toUInt32.toBitVec

/-- A port in range is the key of its element. -/
theorem index_key {c : Call} {i : Fin portMax} (hnonneg : 0 ≤ c.dport.toInt)
    (hi : c.dport.toInt.toNat = i) : PercpuArray.index portMax c.key = some i := by
  have hkey := c.key.toNat_lt
  have hint := toInt_dport c
  refine PercpuArray.index_eq_some.mpr ?_
  split at hint <;> omega

/-- A negative port is a key out of range. -/
theorem index_key_of_neg {c : Call} (hneg : c.dport.toInt < 0) :
    PercpuArray.index portMax c.key = none := by
  have hkey := c.key.toNat_lt
  have hint := toInt_dport c
  have hmax : portMax = 65536 := rfl
  refine PercpuArray.index_eq_none.mpr ?_
  split at hint <;> omega

/-- A port beyond 65535 is one that no map has. -/
theorem dport_gt {c : Call} : c.dport > 65535 ↔ (portMax : ℤ) ≤ c.dport.toInt := by
  rw [gt_iff_lt, Int32.lt_iff_toInt_lt]
  exact Int.lt_iff_add_one_le

/-- A valid request passes the checks, and its port is the key. -/
theorem Call.check_of_request {c : Call} {r : Request} (h : c.request = some r) :
    c.check = .ok r.filter ∧ PercpuArray.index portMax c.key = some r.port ∧
      r.add = decide (c.action = actionAdd) ∧ (c.action = actionAdd ∨ c.action = actionDel) := by
  unfold Call.request at h
  split at h
  · rename_i hport
    have hrange : ¬ c.dport > 65535 := by
      rw [dport_gt]
      have := hport.2
      omega
    unfold Call.check
    split at h
    · cases h
    · rename_i haction
      have haction' : c.action = actionAdd ∨ c.action = actionDel := by tauto
      rw [if_neg haction]
      split at h
      · rename_i hproto
        cases h
        exact ⟨by rw [if_pos hproto, if_neg hrange], index_key hport.1 rfl, rfl, haction'⟩
      · rename_i hproto
        rw [if_neg hproto]
        split at h
        · rename_i hudp
          cases h
          exact ⟨by rw [if_pos hudp, if_neg hrange], index_key hport.1 rfl, rfl, haction'⟩
        · cases h
  · cases h

/-- A call that is refused does not return `EXIT_OK`. -/
theorem Call.check_error_ne {c : Call} {code : ℤ} (h : c.check = .error code) : code ≠ exitOk := by
  unfold Call.check at h
  repeat' split at h
  all_goals cases h
  all_goals decide

/-- An invalid call fails a check, or its key is out of range. -/
theorem Call.check_of_invalid {c : Call} {f : Filter} (h : c.request = none)
    (hcheck : c.check = .ok f) : PercpuArray.index portMax c.key = none := by
  by_cases hneg : c.dport.toInt < 0
  · exact index_key_of_neg hneg
  · -- a port that is not negative and passes the checks makes a valid request
    unfold Call.check at hcheck
    split at hcheck
    · cases hcheck
    · rename_i haction
      by_cases hbig : c.dport > 65535
      · simp only [if_pos hbig] at hcheck
        repeat' split at hcheck
        all_goals cases hcheck
      · have hport : 0 ≤ c.dport.toInt ∧ c.dport.toInt.toNat < portMax := by
          rw [dport_gt] at hbig
          omega
        rw [Call.request, dif_pos hport, if_neg haction] at h
        simp only [if_neg hbig] at hcheck
        repeat' split at hcheck
        all_goals simp_all

/-! ## The bits -/

/-- The bit of a protocol in a value. -/
theorem portBit_eq (f : Filter) (v : UInt64) : portBit f v = v.toBitVec.getLsbD f.bit.toNat := by
  have hmask : ((1 : UInt32) <<< f.bit).toBitVec = BitVec.twoPow 32 f.bit.toNat := by
    cases f <;> rfl
  have hlt : f.bit.toNat < 32 := by cases f <;> decide
  have hne : BitVec.twoPow 32 f.bit.toNat ≠ 0#32 := by cases f <;> decide
  rw [Bool.eq_iff_iff, portBit, decide_eq_true_eq, ne_eq, ← UInt32.toBitVec_inj,
    UInt32.toBitVec_and, hmask, BitVec.and_twoPow, UInt64.toBitVec_toUInt32,
    BitVec.getLsbD_setWidth]
  cases v.toBitVec.getLsbD f.bit.toNat
  · simp
  · simpa [hlt] using hne

/-- The value of a filter has its bit and no other. -/
theorem getLsbD_value_bit (f : Filter) (n : ℕ) :
    f.value.toBitVec.getLsbD n = decide (n = f.bit.toNat) := by
  have hvalue : f.value.toBitVec = BitVec.twoPow 64 f.bit.toNat := by cases f <;> rfl
  have hlt : f.bit.toNat < 64 := by cases f <;> decide
  rw [hvalue, BitVec.getLsbD_twoPow, decide_eq_true hlt, Bool.true_and]
  exact decide_eq_decide.mpr eq_comm

/-- Different filters have different bits. -/
theorem Filter.bit_inj {f g : Filter} : f.bit.toNat = g.bit.toNat ↔ f = g := by
  cases f <;> cases g <;> decide

/-- A request sets or clears the bit of its protocol, and leaves the other one. -/
theorem portBit_change (r : Request) (values : Fin C → UInt64) (cpu : Fin C) (g : Filter) :
    portBit g (r.change values cpu) = if g = r.filter then r.add else portBit g (values cpu) := by
  have hlt : g.bit.toNat < 64 := by cases g <;> decide
  simp only [portBit_eq, Request.change]
  cases hadd : r.add with
  | true =>
    simp only [if_true, UInt64.toBitVec_or, BitVec.getLsbD_or, getLsbD_value_bit, Filter.bit_inj]
    split <;> simp_all
  | false =>
    simp only [Bool.false_eq_true, if_false, UInt64.toBitVec_and, UInt64.toBitVec_not,
      BitVec.getLsbD_and, BitVec.getLsbD_not, hlt, getLsbD_value_bit, Filter.bit_inj]
    split <;> simp_all

/-- A delete changes the values unless no CPU has the bit. -/
theorem change_eq_self {r : Request} (hdel : r.add = false) {values : Fin C → UInt64} :
    r.change values = values ↔ ∀ cpu, portBit r.filter (values cpu) = false := by
  constructor
  · intro heq cpu
    rw [← heq, portBit_change, if_pos rfl, hdel]
  · intro hbit
    funext cpu
    simp only [Request.change, hdel, Bool.false_eq_true, if_false]
    apply UInt64.toBitVec_inj.mp
    apply BitVec.eq_of_getLsbD_eq
    intro n hn
    have hn' := hbit cpu
    rw [portBit_eq] at hn'
    rw [UInt64.toBitVec_and, UInt64.toBitVec_not, BitVec.getLsbD_and, BitVec.getLsbD_not,
      getLsbD_value_bit]
    by_cases hbit : n = r.filter.bit.toNat <;> simp_all

/-! ## What a call does -/

/-- The loops over the values do what the request says. -/
theorem Call.change_eq {c : Call} {r : Request} (hadd : r.add = decide (c.action = actionAdd))
    (haction : c.action = actionAdd ∨ c.action = actionDel) (values : Fin C → UInt64) :
    c.change r.filter values = r.change values := by
  funext cpu
  rcases haction with h | h
  · simp [Call.change, Request.change, hadd, h]
  · have hne : actionDel ≠ actionAdd := by decide
    simp [Call.change, Request.change, hadd, h, hne]

/-- **A valid call carries out its request.** -/
theorem blacklistPortModify_of_request {c : Call} {r : Request} (h : c.request = some r)
    (m : Maps C) : blacklistPortModify c m = (exitOk, m.apply r) := by
  obtain ⟨hcheck, hindex, hadd, haction⟩ := Call.check_of_request h
  rw [blacklistPortModify, hcheck]
  simp only [PercpuArray.lookup, PercpuArray.update, hindex, Option.map_some, Option.getD_some,
    Call.change_eq hadd haction]
  rcases haction with hact | hact
  · have hne : ¬ actionAdd = actionDel := by decide
    simp [Maps.apply, hadd, hact, hne]
  · have hne : ¬ actionDel = actionAdd := by decide
    simp [Maps.apply, hadd, hact, hne]

/-- **An invalid call changes no map**, and fails. -/
theorem blacklistPortModify_of_invalid {c : Call} (h : c.request = none) (m : Maps C) :
    ∃ code, blacklistPortModify c m = (code, m) ∧ code ≠ exitOk := by
  cases hcheck : c.check with
  | error code => exact ⟨code, by rw [blacklistPortModify, hcheck], Call.check_error_ne hcheck⟩
  | ok f =>
    have hindex := Call.check_of_invalid h hcheck
    refine ⟨exitFailMapKey, ?_, by decide⟩
    rw [blacklistPortModify, hcheck]
    simp only [PercpuArray.update, hindex, Option.map_none]
    rfl

end DdosBlacklist
