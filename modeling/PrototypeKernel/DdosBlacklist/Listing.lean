import PrototypeKernel.DdosBlacklist.Tool
import PrototypeKernel.Foundation.KeyLoop
import Mathlib.Data.List.FinRange

/-! # Listing the blacklists

`blacklist_list_all_ipv4()` and `blacklist_list_all_ports()` of the command-line tool begin with the
key 0. The one does not print this key and relies on it not being an address of the map. The other
prints the key that it has before it asks for the next one, and so never the last one; and it looks
up the values of all CPUs into a single variable. -/

namespace DdosBlacklist

variable {C : ℕ}

/-! ## The functions -/

/-- `blacklist_print_ipv4()`. -/
def blacklistPrintIpv4 (ip : UInt32) (count : UInt64) : Tool C Unit := printf (.ipv4 ip count)

/-- `blacklist_print_proto()`. -/
def blacklistPrintProto (f : Filter) (count : UInt64) : Tool C Unit := printf (.proto f count)

/-- The body of the loop of `blacklist_print_port()`. -/
def printFilter (host : Host) (m : Maps C) (key val : UInt32) (started : Bool) (f : Filter) :
    Tool C Bool :=
  if val &&& (1 <<< f.bit) ≠ 0 then do
    printf (.str (if started then "," else "\x7b").toList)
    let count ← getKey32Value64Percpu host m (.portBlacklistCount f) key
    blacklistPrintProto f count
    return true
  else return started

/-- `blacklist_print_port()`. -/
def blacklistPrintPort (host : Host) (m : Maps C) (key val : UInt32) : Tool C Unit := do
  printf (.port key)
  let started ← [Filter.tcp, .udp].foldlM (printFilter host m key val) false
  if started then printf (.str "\n \x7d".toList)

/-- The body of the loop of `blacklist_list_all_ipv4()`. -/
def listIpv4 (host : Host) (m : Maps C) (key nextKey : UInt32) (_ : Unit) : Tool C Unit := do
  printf (.str (if key ≠ 0 then "," else "").toList)
  let value ← getKey32Value64Percpu host m .blacklist nextKey
  blacklistPrintIpv4 nextKey value

/-- `blacklist_list_all_ipv4()`, for at most `fuel` keys. -/
def blacklistListAllIpv4 (host : Host) (m : Maps C) (fuel : ℕ) : Tool C Unit := do
  let (key, _) ← KeyLoop.loop (KeyLoop.hashNext host.order) (listIpv4 host m)
    (Logged.stop .running) fuel 0 ()
  printf (.str (if key ≠ 0 then "," else "").toList)

/-- The body of the loop of `blacklist_list_all_ports()`, with `value` as a buffer of one slot and
`started`. -/
def listPort (host : Host) (m : Maps C) (key _nextKey : UInt32) (s : List UInt64 × Bool) :
    Tool C (List UInt64 × Bool) := do
  let (buffer, started) := s
  -- a failed lookup is reported, and leaves the value of the last one
  let buffer := (← lookupElem m .portBlacklist none key buffer).getD buffer
  let value := buffer.headD 0
  if value ≠ 0 then do
    printf (.str (if started then "," else "").toList)
    blacklistPrintPort host m key value.toUInt32
    return (buffer, true)
  else return (buffer, started)

/-- `blacklist_list_all_ports()`, for at most `fuel` keys. -/
def blacklistListAllPorts (host : Host) (m : Maps C) (fuel : ℕ) : Tool C Unit := do
  let _ ← KeyLoop.loop (KeyLoop.arrayNext portMax) (listPort host m) (Logged.stop .running) fuel 0
    ([host.junk], false)
  return ()

/-- What `main()` does for `--list`. -/
def listAll (host : Host) (m : Maps C) (fuel : ℕ) : Tool C Unit := do
  printf (.str "\x7b".toList)
  openBpfMap host .blacklist
  blacklistListAllIpv4 host m fuel
  openBpfMap host .portBlacklist
  [Filter.tcp, .udp].forM fun f => openBpfMap host (.portBlacklistCount f)
  blacklistListAllPorts host m fuel
  printf (.str "\n\x7d\n".toList)

/-! ## Output -/

/-- A part of the tool ends with a result, and what it has printed until then. -/
def Outputs {α : Type} (x : Tool C α) (ps : List Print) (a : α) : Prop :=
  x.result = .ok a ∧ prints x = ps

/-- Nothing is printed. -/
theorem outputs_pure {α : Type} (a : α) : Outputs (pure a : Tool C α) [] a := ⟨rfl, rfl⟩

/-- One text is printed. -/
theorem outputs_printf (p : Print) : Outputs (printf p : Tool C Unit) [p] () := ⟨rfl, rfl⟩

/-- What is printed first stands first. -/
theorem Outputs.bind {α β : Type} {x : Tool C α} {f : α → Tool C β} {ps qs : List Print} {a : α}
    {b : β} (hx : Outputs x ps a) (hf : Outputs (f a) qs b) : Outputs (x >>= f) (ps ++ qs) b := by
  obtain ⟨log, result⟩ := x
  obtain ⟨rfl, rfl⟩ := hx
  obtain ⟨hresult, rfl⟩ := hf
  exact ⟨hresult, List.filterMap_append⟩

/-- The sum over the CPUs. -/
def sumPercpu (values : Fin C → UInt64) : UInt64 := (List.ofFn values).foldl (· + ·) 0

/-- A counter is read by one lookup, as the sum over the CPUs. -/
theorem getKey32Value64Percpu_eq (host : Host) (m : Maps C) (file : MapFile) (key : UInt32)
    {values : Fin C → UInt64} (hfind : m.find file key = some values) :
    getKey32Value64Percpu host m file key =
      ⟨[.access (.lookup file key (some values) (List.ofFn values))], .ok (sumPercpu values)⟩ := by
  have htake : (List.ofFn values).take C = List.ofFn values :=
    List.take_of_length_le (Nat.le_of_eq List.length_ofFn)
  rw [getKey32Value64Percpu, lookupElem_eq m file key (List.length_replicate ..) hfind,
    Logged.ok_bind]
  dsimp only
  rw [htake]
  rfl

/-- Reading a counter prints nothing. -/
theorem outputs_getKey32Value64Percpu (host : Host) (m : Maps C) (file : MapFile) (key : UInt32)
    {values : Fin C → UInt64} (hfind : m.find file key = some values) :
    Outputs (getKey32Value64Percpu host m file key) [] (sumPercpu values) := by
  rw [getKey32Value64Percpu_eq host m file key hfind]
  exact ⟨rfl, rfl⟩

/-! ## The addresses -/

/-- The order of the kernel is one of the keys of the map. -/
structure KernelOrder (host : Host) (m : Maps C) : Prop where
  nodup : host.order.Nodup
  mem_iff : ∀ ip, ip ∈ host.order ↔ (m.blacklist ip).isSome

/-- The keys that the listing gets from the kernel. -/
def Host.visited (host : Host) : List UInt32 :=
  if 0 ∈ host.order then KeyLoop.keysAfter host.order 0 else host.order

/-- The loop over the keys visits those that the kernel gives. -/
theorem KernelOrder.visits {host : Host} {m : Maps C} (h : KernelOrder host m) :
    KeyLoop.Visits (KeyLoop.hashNext host.order) 0 host.visited := by
  unfold Host.visited
  split
  · rename_i hmem
    exact KeyLoop.visits_hash h.nodup hmem
  · rename_i hmem
    exact KeyLoop.visits_hash_of_notMem h.nodup hmem

/-- An address that is visited is in the map. -/
theorem KernelOrder.isSome_of_visited {host : Host} {m : Maps C} (h : KernelOrder host m)
    {ip : UInt32} (hip : ip ∈ host.visited) : (m.blacklist ip).isSome := by
  rw [← h.mem_iff]
  unfold Host.visited at hip
  split at hip
  · exact (List.dropWhile_sublist _).mem (List.mem_of_mem_tail hip)
  · exact hip

/-- The key to begin with is not visited. -/
theorem KernelOrder.ne_zero_of_visited {host : Host} {m : Maps C} (h : KernelOrder host m)
    {ip : UInt32} (hip : ip ∈ host.visited) : ip ≠ 0 := by
  unfold Host.visited at hip
  rintro rfl
  split at hip
  · rename_i hmem
    exact KeyLoop.notMem_keysAfter h.nodup hmem hip
  · rename_i hmem
    exact hmem hip

/-- The drop count of an address. -/
def Maps.addrCount (m : Maps C) (ip : UInt32) : UInt64 := ((m.blacklist ip).map sumPercpu).getD 0

/-- What is printed for addresses, the last of them being `key` before. -/
def ipv4Prints (m : Maps C) : UInt32 → List UInt32 → List Print
  | _, [] => []
  | key, ip :: ips =>
      .str (if key ≠ 0 then "," else "").toList :: .ipv4 ip (m.addrCount ip) :: ipv4Prints m ip ips

/-- The loop over the addresses prints the one before each key. -/
theorem outputs_visitAll_ipv4 (host : Host) (m : Maps C) {ips : List UInt32}
    (h : ∀ ip ∈ ips, (m.blacklist ip).isSome) (key : UInt32) :
    Outputs (KeyLoop.visitAll (listIpv4 host m) key ips ()) (ipv4Prints m key ips)
      (ips.getLast?.getD key, ()) := by
  induction ips generalizing key with
  | nil => exact outputs_pure _
  | cons ip ips ih =>
    obtain ⟨hip, hips⟩ := List.forall_mem_cons.mp h
    obtain ⟨values, hvalues⟩ := Option.isSome_iff_exists.mp hip
    have hcount : m.addrCount ip = sumPercpu values := by
      rw [Maps.addrCount, hvalues]
      rfl
    have hbody : Outputs (listIpv4 host m key ip ())
        [.str (if key ≠ 0 then "," else "").toList, .ipv4 ip (m.addrCount ip)] () := by
      rw [hcount]
      exact (outputs_printf _).bind
        ((outputs_getKey32Value64Percpu host m .blacklist ip hvalues).bind (outputs_printf _))
    rw [List.getLast?_cons, Option.getD_some]
    exact hbody.bind (ih hips ip)

/-- **What `blacklist_list_all_ipv4()` prints.** -/
theorem outputs_listAllIpv4 {host : Host} {m : Maps C} (h : KernelOrder host m) {fuel : ℕ}
    (hfuel : host.visited.length < fuel) :
    Outputs (blacklistListAllIpv4 host m fuel) (ipv4Prints m 0 host.visited ++
      [.str (if host.visited.getLast?.getD 0 ≠ 0 then "," else "").toList]) () := by
  unfold blacklistListAllIpv4
  rw [KeyLoop.loop_eq_visitAll h.visits hfuel]
  exact (outputs_visitAll_ipv4 host m (fun ip hip => h.isSome_of_visited hip) 0).bind
    (outputs_printf _)

/-- The addresses in an output. -/
def printedAddresses (ps : List Print) : List UInt32 :=
  ps.filterMap fun
    | .ipv4 ip _ => some ip
    | _ => none

/-- The addresses that the loop prints are those that it visits. -/
theorem printedAddresses_ipv4Prints (m : Maps C) (key : UInt32) (ips : List UInt32)
    (s : List Char) :
    printedAddresses (ipv4Prints m key ips ++ [.str s]) = ips := by
  induction ips generalizing key with
  | nil => rfl
  | cons ip ips ih => exact congrArg (ip :: ·) (ih ip)

/-- **All addresses are listed**: the function ends and has printed each address of the map once,
and no other one. -/
def AddressesListed (host : Host) (m : Maps C) : Prop :=
  ∃ bound, ∀ fuel, bound ≤ fuel →
    (blacklistListAllIpv4 host m fuel).result = .ok () ∧
    ∀ ip, (printedAddresses (prints (blacklistListAllIpv4 host m fuel))).count ip =
      if (m.blacklist ip).isSome then 1 else 0

/-- The listing prints the addresses that the kernel gives. -/
theorem printedAddresses_listAllIpv4 {host : Host} {m : Maps C} (h : KernelOrder host m) {fuel : ℕ}
    (hfuel : host.visited.length < fuel) :
    printedAddresses (prints (blacklistListAllIpv4 host m fuel)) = host.visited := by
  rw [(outputs_listAllIpv4 h hfuel).2, printedAddresses_ipv4Prints]

/-- The address 0.0.0.0 is not printed. -/
theorem not_addressesListed_of_zero {host : Host} {m : Maps C} (h : KernelOrder host m)
    (hlisted : (m.blacklist 0).isSome) : ¬ AddressesListed host m := by
  rintro ⟨bound, hall⟩
  obtain ⟨-, hcount⟩ := hall (max bound (host.visited.length + 1)) (Nat.le_max_left ..)
  have hzero := hcount 0
  have hnot : 0 ∉ host.visited := fun hmem => h.ne_zero_of_visited hmem rfl
  rw [printedAddresses_listAllIpv4 h (by omega), if_pos hlisted,
    List.count_eq_zero.mpr hnot] at hzero
  exact absurd hzero (by decide)

/-- **All addresses are listed exactly when 0.0.0.0 is not one of them.** -/
theorem addressesListed_iff {host : Host} {m : Maps C} (h : KernelOrder host m) :
    AddressesListed host m ↔ m.blacklist 0 = none := by
  constructor
  · intro hall
    by_contra hlisted
    exact not_addressesListed_of_zero h (Option.isSome_iff_ne_none.mpr hlisted) hall
  · intro hzero
    have hnot : 0 ∉ host.order := by
      rw [h.mem_iff, hzero]
      simp
    refine ⟨host.visited.length + 1, fun fuel hfuel => ⟨(outputs_listAllIpv4 h hfuel).1, ?_⟩⟩
    intro ip
    rw [printedAddresses_listAllIpv4 h hfuel, Host.visited, if_neg hnot, h.nodup.count]
    simp only [h.mem_iff]

/-- A host on which nothing fails. -/
def Host.sample (order : List UInt32) : Host where
  opens := fun _ => true
  order := order
  junk := 0
  ipFault := none
  portFaults := .none

/-- Maps with certain addresses. -/
def Maps.ofAddresses (C : ℕ) (ips : List UInt32) : Maps C :=
  { Maps.zero C with blacklist := fun ip => if ip ∈ ips then some fun _ => 0 else none }

/-- Different addresses can be given in their order. -/
theorem kernelOrder_ofAddresses {ips : List UInt32} (h : ips.Nodup) :
    KernelOrder (.sample ips) (.ofAddresses C ips) := by
  refine ⟨h, fun ip => ?_⟩
  simp only [Host.sample, Maps.ofAddresses]
  split <;> simp_all

/-- Two addresses, neither of them 0.0.0.0. -/
theorem addressesListed_iff_twoAddresses :
    AddressesListed (.sample [0x0100000A, 0x0200000A])
        (.ofAddresses 4 [0x0100000A, 0x0200000A]) ↔
      (Maps.ofAddresses 4 [0x0100000A, 0x0200000A]).blacklist 0 = none :=
  addressesListed_iff (kernelOrder_ofAddresses (by decide))

/-- **The address 0.0.0.0 is not listed**, and neither is one before it in the order. -/
theorem not_addressesListed_anyAddress :
    ((Maps.ofAddresses 1 [0x0100000A, 0]).blacklist 0).isSome ∧
      printedAddresses (prints (blacklistListAllIpv4 (.sample [0x0100000A, 0])
        (.ofAddresses 1 [0x0100000A, 0]) 3)) = [] ∧
      ¬ AddressesListed (.sample [0x0100000A, 0]) (.ofAddresses 1 [0x0100000A, 0]) :=
  ⟨rfl, by decide, not_addressesListed_of_zero (kernelOrder_ofAddresses (by decide)) rfl⟩

/-! ## The ports -/

/-- The key of a port. -/
def portKey (i : Fin portMax) : UInt32 := .ofNat i

/-- The key of a port is its index in the map. -/
theorem index_portKey (i : Fin portMax) : PercpuArray.index portMax (portKey i) = some i := by
  have hi := i.isLt
  have hmax : portMax = 65536 := rfl
  refine PercpuArray.index_eq_some.mpr ?_
  rw [portKey, UInt32.toNat_ofNat', Nat.mod_eq_of_lt (by omega)]

/-- The value of a port is found under its key. -/
theorem find_portBlacklist (m : Maps C) (i : Fin portMax) :
    m.find .portBlacklist (portKey i) = some (m.portBlacklist i) := by
  rw [Maps.find, PercpuArray.lookup, index_portKey, Option.map_some]

/-- The counter of a port is found under its key. -/
theorem find_portBlacklistCount (m : Maps C) (f : Filter) (i : Fin portMax) :
    m.find (.portBlacklistCount f) (portKey i) = some (m.dropCountByFproto f i) := by
  rw [Maps.find, PercpuArray.lookup, index_portKey, Option.map_some]

/-- What is printed for the protocols of a port. -/
def protoPrints (m : Maps C) (i : Fin portMax) (value : UInt64) : Bool → List Filter → List Print
  | started, [] => if started then [.str "\n \x7d".toList] else []
  | started, f :: fs =>
      if portBit f value then
        .str (if started then "," else "\x7b").toList ::
          .proto f (sumPercpu (m.dropCountByFproto f i)) :: protoPrints m i value true fs
      else protoPrints m i value started fs

/-- What is printed for a port. -/
def portPrints (m : Maps C) (i : Fin portMax) (value : UInt64) : List Print :=
  .port (portKey i) :: protoPrints m i value false [.tcp, .udp]

/-- What the loop over the filters prints of a port. -/
theorem outputs_printFilters (host : Host) (m : Maps C) (i : Fin portMax) (value : UInt64)
    (started : Bool) (fs : List Filter) :
    Outputs (do
      let started ← fs.foldlM (printFilter host m (portKey i) value.toUInt32) started
      if started then printf (.str "\n \x7d".toList))
      (protoPrints m i value started fs) () := by
  induction fs generalizing started with
  | nil => cases started <;> exact ⟨rfl, rfl⟩
  | cons f fs ih =>
    rw [List.foldlM_cons, protoPrints]
    by_cases hbit : portBit f value
    · have hbit' : value.toUInt32 &&& (1 <<< f.bit) ≠ 0 := by simpa [portBit] using hbit
      have hbody : Outputs (printFilter host m (portKey i) value.toUInt32 started f)
          [.str (if started then "," else "\x7b").toList,
            .proto f (sumPercpu (m.dropCountByFproto f i))] true := by
        rw [printFilter, if_pos hbit']
        exact (outputs_printf _).bind ((outputs_getKey32Value64Percpu host m _ _
          (find_portBlacklistCount m f i)).bind ((outputs_printf _).bind (outputs_pure true)))
      rw [if_pos hbit, Logged.bind_assoc]
      exact hbody.bind (ih true)
    · have hbit' : ¬ value.toUInt32 &&& (1 <<< f.bit) ≠ 0 := by simpa [portBit] using hbit
      rw [if_neg hbit, printFilter, if_neg hbit', Logged.pure_bind]
      exact ih started

/-- What is printed of a port. -/
theorem outputs_blacklistPrintPort (host : Host) (m : Maps C) (i : Fin portMax) (value : UInt64) :
    Outputs (blacklistPrintPort host m (portKey i) value.toUInt32) (portPrints m i value) () :=
  (outputs_printf _).bind (outputs_printFilters host m i value false [.tcp, .udp])

/-- What is printed for a list of ports. -/
def listPrints (m : Maps 1) : Bool → List (Fin portMax) → List Print
  | _, [] => []
  | started, i :: is =>
      if m.portBlacklist i 0 ≠ 0 then
        .str (if started then "," else "").toList ::
          (portPrints m i (m.portBlacklist i 0) ++ listPrints m true is)
      else listPrints m started is

/-- With one CPU the body of the loop prints its port. -/
theorem outputs_listPort (host : Host) (m : Maps 1) (i : Fin portMax) (nextKey : UInt32)
    (value : UInt64) (started : Bool) :
    Outputs (listPort host m (portKey i) nextKey ([value], started))
      (if m.portBlacklist i 0 ≠ 0 then
        .str (if started then "," else "").toList :: portPrints m i (m.portBlacklist i 0)
      else [])
      ([m.portBlacklist i 0], started || m.portBlacklist i 0 ≠ 0) := by
  have hlookup : Outputs (lookupElem m .portBlacklist none (portKey i) [value]) []
      (some [m.portBlacklist i 0]) := by
    rw [lookupElem_eq m .portBlacklist (portKey i) rfl (find_portBlacklist m i)]
    exact ⟨rfl, rfl⟩
  rw [← List.nil_append (ite _ _ _)]
  refine hlookup.bind ?_
  show Outputs (if m.portBlacklist i 0 ≠ 0 then _ else _) _ _
  by_cases hvalue : m.portBlacklist i 0 ≠ 0
  · have hport := outputs_blacklistPrintPort host m i (m.portBlacklist i 0)
    rw [if_pos hvalue, if_pos hvalue, decide_eq_true hvalue, Bool.or_true,
      ← List.append_nil (portPrints m i (m.portBlacklist i 0))]
    exact (outputs_printf _).bind (hport.bind (outputs_pure _))
  · rw [if_neg hvalue, if_neg hvalue, decide_eq_false hvalue, Bool.or_false]
    exact outputs_pure _

/-- The loop over the ports prints all but the last one. -/
theorem outputs_visitAll_ports (host : Host) (m : Maps 1) (i : Fin portMax)
    (is : List (Fin portMax)) (value : UInt64) (started : Bool) :
    ∃ s, Outputs (KeyLoop.visitAll (listPort host m) (portKey i) (is.map portKey)
      ([value], started)) (listPrints m started (i :: is).dropLast) s := by
  induction is generalizing i value started with
  | nil => exact ⟨_, outputs_pure _⟩
  | cons j is ih =>
    have hbody := outputs_listPort host m i (portKey j) value started
    obtain ⟨s, hrest⟩ := ih j (m.portBlacklist i 0) (started || m.portBlacklist i 0 ≠ 0)
    refine ⟨s, ?_⟩
    have hprints : listPrints m started (i :: j :: is).dropLast =
        (if m.portBlacklist i 0 ≠ 0 then
          .str (if started then "," else "").toList :: portPrints m i (m.portBlacklist i 0)
        else []) ++ listPrints m (started || m.portBlacklist i 0 ≠ 0) (j :: is).dropLast := by
      rw [List.dropLast_cons_cons, listPrints]
      by_cases hvalue : m.portBlacklist i 0 ≠ 0
      · rw [if_pos hvalue, if_pos hvalue, decide_eq_true hvalue, Bool.or_true, List.cons_append]
      · rw [if_neg hvalue, if_neg hvalue, decide_eq_false hvalue, Bool.or_false, List.nil_append]
    rw [hprints]
    exact hbody.bind hrest

/-- The ports from 0 on, as the kernel gives them. -/
theorem visits_ports : ∃ i is, List.finRange portMax = i :: is ∧ portKey i = 0 ∧
    KeyLoop.Visits (KeyLoop.arrayNext portMax) 0 (is.map portKey) := by
  have hvisits : KeyLoop.Visits (KeyLoop.arrayNext portMax) 0
      ((List.range' 1 (portMax - 1)).map UInt32.ofNat) :=
    KeyLoop.visits_array (by decide) (show 0 < portMax by decide)
  have hkeys : (List.finRange portMax).map portKey =
      0 :: (List.range' 1 (portMax - 1)).map UInt32.ofNat := by
    have hval : (List.finRange portMax).map portKey =
        ((List.finRange portMax).map Fin.val).map UInt32.ofNat := by
      rw [List.map_map]
      rfl
    rw [hval, List.map_coe_finRange_eq_range, List.range_eq_range']
    rfl
  cases hports : List.finRange portMax with
  | nil =>
    rw [hports] at hkeys
    cases hkeys
  | cons i is =>
    rw [hports, List.map_cons, List.cons.injEq] at hkeys
    exact ⟨i, is, rfl, hkeys.1, hkeys.2 ▸ hvisits⟩

/-- **What `blacklist_list_all_ports()` prints with one CPU**: the ports up to the last one. -/
theorem outputs_listAllPorts (host : Host) (m : Maps 1) {fuel : ℕ} (hfuel : portMax ≤ fuel) :
    Outputs (blacklistListAllPorts host m fuel)
      (listPrints m false (List.finRange portMax).dropLast) () := by
  obtain ⟨i, is, hports, hzero, hvisits⟩ := visits_ports
  have hlength : (is.map portKey).length < fuel := by
    have hlength := congrArg List.length hports
    rw [List.length_finRange, List.length_cons] at hlength
    rw [List.length_map]
    omega
  obtain ⟨s, hvisit⟩ := outputs_visitAll_ports host m i is host.junk false
  rw [hzero] at hvisit
  unfold blacklistListAllPorts
  rw [KeyLoop.loop_eq_visitAll hvisits hlength, hports,
    ← List.append_nil (listPrints m false (i :: is).dropLast)]
  exact hvisit.bind (outputs_pure _)

/-- With more CPUs the first lookup does not fit into the variable. -/
theorem listAllPorts_crash (host : Host) (m : Maps C) (hC : 1 < C) {fuel : ℕ} (hfuel : 0 < fuel) :
    blacklistListAllPorts host m fuel =
      ⟨[.access (.lookup .portBlacklist 0 (some (m.portBlacklist ⟨0, by decide⟩))
        (copyOut (m.portBlacklist ⟨0, by decide⟩) [host.junk]))], .error .crash⟩ := by
  obtain ⟨fuel, rfl⟩ := Nat.exists_eq_add_one_of_ne_zero (Nat.ne_of_gt hfuel)
  have hfind : m.find .portBlacklist 0 = some (m.portBlacklist ⟨0, by decide⟩) :=
    find_portBlacklist m ⟨0, by decide⟩
  have hshort : [host.junk].length < C := hC
  have hlookup : lookupElem m .portBlacklist none 0 [host.junk] =
      ⟨[.access (.lookup .portBlacklist 0 (some (m.portBlacklist ⟨0, by decide⟩))
        (copyOut (m.portBlacklist ⟨0, by decide⟩) [host.junk]))], .error .crash⟩ := by
    rw [lookupElem, hfind, attempt]
    dsimp only
    rw [if_pos hshort]
    rfl
  have hnext : KeyLoop.arrayNext portMax 0 = some 1 := by decide
  unfold blacklistListAllPorts
  rw [KeyLoop.loop, hnext]
  dsimp only [listPort]
  rw [hlookup]
  rfl

/-- When all files open. -/
theorem listAll_of_opens {host : Host} (hopens : ∀ file, host.opens file) (m : Maps C)
    (fuel : ℕ) :
    listAll host m fuel = (do
      printf (.str "\x7b".toList)
      blacklistListAllIpv4 host m fuel
      blacklistListAllPorts host m fuel
      printf (.str "\n\x7d\n".toList)) := by
  have hfiles : ([Filter.tcp, .udp].forM fun f =>
      openBpfMap (C := C) host (.portBlacklistCount f)) = pure () := by
    simp [List.forM, openBpfMap_of_opens (hopens _)]
  rw [listAll, openBpfMap_of_opens (hopens _), openBpfMap_of_opens (hopens _), hfiles]
  rfl

/-- The protocols that follow in an output, up to the next port. -/
def protosOf : List Print → List Filter
  | [] => []
  | .proto f _ :: ps => f :: protosOf ps
  | .port _ :: _ => []
  | _ :: ps => protosOf ps

/-- The ports of an output, each with its protocols. -/
def portEntries : List Print → List (UInt32 × List Filter)
  | [] => []
  | .port key :: ps => (key, protosOf ps) :: portEntries ps
  | _ :: ps => portEntries ps

/-- The entry of a port. -/
def portEntry (i : Fin portMax) (value : UInt64) : UInt32 × List Filter :=
  (portKey i, [Filter.tcp, .udp].filter fun f => portBit f value)

/-- The list of the ports starts with no protocol. -/
theorem protosOf_listPrints (m : Maps 1) (started : Bool) (is : List (Fin portMax)) :
    protosOf (listPrints m started is) = [] := by
  induction is generalizing started with
  | nil => rfl
  | cons i is ih =>
    rw [listPrints]
    split
    · rfl
    · exact ih started

/-- What is printed for the protocols belongs to the entry of the port. -/
theorem protoPrints_append (m : Maps C) (i : Fin portMax) (value : UInt64) (started : Bool)
    (fs : List Filter) (ps : List Print) :
    protosOf (protoPrints m i value started fs ++ ps) =
        fs.filter (fun f => portBit f value) ++ protosOf ps ∧
      portEntries (protoPrints m i value started fs ++ ps) = portEntries ps := by
  induction fs generalizing started with
  | nil => cases started <;> exact ⟨rfl, rfl⟩
  | cons f fs ih =>
    rw [protoPrints]
    by_cases hbit : portBit f value
    · rw [if_pos hbit, List.filter_cons_of_pos (p := (portBit · value)) hbit]
      exact ⟨congrArg (f :: ·) (ih true).1, (ih true).2⟩
    · rw [if_neg hbit, List.filter_cons_of_neg (p := (portBit · value)) hbit]
      exact ih started

/-- The entries that are printed are those of the ports with a value. -/
theorem portEntries_listPrints (m : Maps 1) (started : Bool) (is : List (Fin portMax)) :
    portEntries (listPrints m started is) =
      (is.filter fun i => m.portBlacklist i 0 ≠ 0).map fun i =>
        portEntry i (m.portBlacklist i 0) := by
  induction is generalizing started with
  | nil => rfl
  | cons i is ih =>
    rw [listPrints]
    by_cases hvalue : m.portBlacklist i 0 ≠ 0
    · obtain ⟨hprotos, hentries⟩ := protoPrints_append m i (m.portBlacklist i 0) false
        [.tcp, .udp] (listPrints m true is)
      rw [protosOf_listPrints, List.append_nil] at hprotos
      rw [if_pos hvalue, List.filter_cons_of_pos (by simpa using hvalue), List.map_cons, ← ih true,
        ← hentries, portEntry, ← hprotos]
      rfl
    · rw [if_neg hvalue, List.filter_cons_of_neg (by simpa using hvalue)]
      exact ih started

/-- **All ports are listed**: the function ends and has printed an entry for each port with a value,
in increasing order, with the protocols whose bit is set. -/
def PortsListed (host : Host) (m : Maps C) (cpu : Fin C) : Prop :=
  ∃ bound, ∀ fuel, bound ≤ fuel →
    (blacklistListAllPorts host m fuel).result = .ok () ∧
    portEntries (prints (blacklistListAllPorts host m fuel)) =
      ((List.finRange portMax).filter fun i => m.portBlacklist i cpu ≠ 0).map fun i =>
        portEntry i (m.portBlacklist i cpu)

/-- The last key of the array. -/
def lastPort : Fin portMax := ⟨65535, by decide⟩

/-- The last port is the last one of all. -/
theorem finRange_portMax :
    List.finRange portMax = (List.finRange portMax).dropLast ++ [lastPort] := by
  have hlast : ∃ ports, List.finRange portMax = ports ++ [lastPort] :=
    ⟨_, List.finRange_succ_last⟩
  obtain ⟨ports, hports⟩ := hlast
  rw [hports, List.dropLast_concat]

/-- The ports that are looked up and printed are those before the last one. -/
theorem mem_dropLast_finRange {i : Fin portMax} :
    i ∈ (List.finRange portMax).dropLast ↔ i ≠ lastPort := by
  have hmem := List.mem_finRange i
  have hnodup := List.nodup_finRange portMax
  rw [finRange_portMax, List.mem_append, List.mem_singleton] at hmem
  rw [finRange_portMax, List.nodup_append] at hnodup
  constructor
  · rintro hi rfl
    exact hnodup.2.2 lastPort hi lastPort List.mem_cons_self rfl
  · exact fun hne => hmem.resolve_right hne

/-- The listing has an entry for each listed port but the last one. -/
theorem portEntries_listAllPorts (host : Host) (m : Maps 1) {fuel : ℕ} (hfuel : portMax ≤ fuel) :
    portEntries (prints (blacklistListAllPorts host m fuel)) =
      ((List.finRange portMax).dropLast.filter fun i => m.portBlacklist i 0 ≠ 0).map fun i =>
        portEntry i (m.portBlacklist i 0) := by
  rw [(outputs_listAllPorts host m hfuel).2, portEntries_listPrints]

/-- The last port is not printed. -/
theorem not_portsListed_of_last (host : Host) {m : Maps 1}
    (hvalue : m.portBlacklist lastPort 0 ≠ 0) : ¬ PortsListed host m 0 := by
  rintro ⟨bound, hall⟩
  have hlisted := (hall (max bound portMax) (Nat.le_max_left ..)).2
  rw [portEntries_listAllPorts host m (Nat.le_max_right ..)] at hlisted
  have hlength := congrArg List.length hlisted
  rw [finRange_portMax, List.dropLast_concat, List.filter_append,
    List.filter_cons_of_pos (by simpa using hvalue), List.length_map, List.length_map,
    List.length_append] at hlength
  simp at hlength

/-- **All ports are listed exactly when there is one CPU and the last port has no value.** -/
theorem portsListed_iff (host : Host) (m : Maps C) (cpu : Fin C) :
    PortsListed host m cpu ↔ C = 1 ∧ m.portBlacklist lastPort cpu = 0 := by
  rcases Nat.lt_or_ge 1 C with hC | hC
  · -- the stack is overwritten
    refine iff_of_false ?_ fun h => by omega
    rintro ⟨bound, hall⟩
    have hresult := (hall (bound + 1) (Nat.le_succ bound)).1
    rw [listAllPorts_crash host m hC (Nat.succ_pos bound)] at hresult
    cases hresult
  · obtain rfl : C = 1 := by
      have := cpu.isLt
      omega
    obtain rfl : cpu = 0 := Subsingleton.elim _ _
    rw [and_iff_right rfl]
    constructor
    · intro hall
      by_contra hvalue
      exact not_portsListed_of_last host hvalue hall
    · intro hzero
      refine ⟨portMax, fun fuel hfuel => ⟨(outputs_listAllPorts host m hfuel).1, ?_⟩⟩
      rw [portEntries_listAllPorts host m hfuel]
      conv_rhs => rw [finRange_portMax]
      rw [List.filter_append, List.filter_cons_of_neg (by simp [hzero]), List.filter_nil,
        List.append_nil]

/-- The last port is listed for UDP. -/
def udpLast : Maps 1 :=
  { Maps.zero 1 with portBlacklist := fun i _ => if i = lastPort then 2 else 0 }

/-- **The last port is not listed**: nothing is printed though it has a value. -/
theorem not_portsListed_udpLast :
    udpLast.portBlacklist lastPort 0 = 2 ∧
      portEntries (prints (blacklistListAllPorts (.sample []) udpLast portMax)) = [] ∧
      ¬ PortsListed (.sample []) udpLast 0 := by
  have hvalue : udpLast.portBlacklist lastPort 0 = 2 := rfl
  refine ⟨hvalue, ?_, not_portsListed_of_last _ (by rw [hvalue]; decide)⟩
  rw [portEntries_listAllPorts _ _ le_rfl, List.map_eq_nil_iff, List.filter_eq_nil_iff]
  intro i hi
  simp [udpLast, mem_dropLast_finRange.mp hi]

end DdosBlacklist
