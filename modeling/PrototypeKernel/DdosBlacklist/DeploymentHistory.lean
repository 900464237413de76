import PrototypeKernel.DdosBlacklist.Deployment

/-! # Runs on several devices

Every map holds what its history says. New maps have new numbers, so once the file of a map is
unlinked nothing but packets changes it any more: a device keeps the filter that it had, and the
tool does not reach it until the program is loaded for it again. -/

namespace DdosBlacklist

open Getopt

variable {Dev : Type*} {C : ℕ} {w : World Dev C}

/-! ## Changes of maps -/

/-- Changes of maps load, pin and attach nothing. -/
theorem foldl_change (w : World Dev C) (cs : List ((MapFile → Option ℕ) × Change C)) :
    (cs.foldl World.change w).loads = w.loads ∧ (cs.foldl World.change w).pinned = w.pinned ∧
      (cs.foldl World.change w).attached = w.attached := by
  induction cs generalizing w with
  | nil => exact ⟨rfl, rfl, rfl⟩
  | cons c cs ih => exact ih (w.change c)

/-- The changes of one map in two sequences. -/
theorem changesAt_append (cs cs' : List ((MapFile → Option ℕ) × Change C)) (file : MapFile)
    (n : ℕ) : changesAt (cs ++ cs') file n = changesAt cs file n ++ changesAt cs' file n :=
  List.filterMap_append

/-- The changes of one map, when the first change may be one of it. -/
theorem changesAt_cons (c : (MapFile → Option ℕ) × Change C)
    (cs : List ((MapFile → Option ℕ) × Change C)) (file : MapFile) (n : ℕ) :
    changesAt (c :: cs) file n =
      (if c.1 file = some n then [c.2] else []) ++ changesAt cs file n := by
  rw [changesAt, List.filterMap_cons]
  by_cases hc : c.1 file = some n
  · simp only [if_pos hc]
    rfl
  · simp only [if_neg hc]
    rfl

/-- Changes of other maps are no changes of this one. -/
theorem changesAt_eq_nil {cs : List ((MapFile → Option ℕ) × Change C)} {file : MapFile} {n : ℕ}
    (h : ∀ c ∈ cs, c.1 file ≠ some n) : changesAt cs file n = [] :=
  List.filterMap_eq_nil_iff.mpr fun c hc => if_neg (h c hc)

/-- **The maps hold what their histories say.** -/
structure World.Replays (w : World Dev C) (hist : MapFile → ℕ → List (Change C)) : Prop where
  blacklist : ∀ n src, (w.store n).blacklist src
    = (sinceAdded (hist .blacklist n) src).map fun k cpu => UInt64.ofNat (k cpu)
  ports : ∀ n i, (w.store n).portBlacklist i
    = fun _ => filterValue (portAdded (hist .portBlacklist n) i)

/-- A change is added to the histories of the maps that it is made to. -/
theorem World.Replays.change {hist : MapFile → ℕ → List (Change C)} (h : w.Replays hist)
    (c : (MapFile → Option ℕ) × Change C) :
    (w.change c).Replays fun file n => hist file n ++ changesAt [c] file n := by
  have hat : ∀ file n, changesAt [c] file n = if c.1 file = some n then [c.2] else [] :=
    fun file n => (changesAt_cons c [] file n).trans (List.append_nil _)
  constructor
  case blacklist =>
    intro n src
    rw [hat]
    show (if c.1 .blacklist = some n then (w.mapsOf c.1).change c.2 else w.store n).blacklist src
      = _
    split
    · rename_i hfd
      have hmap : (w.mapsOf c.1).blacklist = (w.store n).blacklist := by
        show ((c.1 .blacklist).elim (Maps.zero C) w.store).blacklist = _
        rw [hfd]
        rfl
      rw [blacklist_change ((congrFun hmap src).trans (h.blacklist n src)), sinceAdded, sinceAdded,
        List.foldl_append]
      rfl
    · rw [List.append_nil]
      exact h.blacklist n src
  case ports =>
    intro n i
    rw [hat]
    show (if c.1 .portBlacklist = some n then (w.mapsOf c.1).change c.2
      else w.store n).portBlacklist i = _
    split
    · rename_i hfd
      have hmap : (w.mapsOf c.1).portBlacklist = (w.store n).portBlacklist := by
        show ((c.1 .portBlacklist).elim (Maps.zero C) w.store).portBlacklist = _
        rw [hfd]
        rfl
      rw [portBlacklist_change ((congrFun hmap i).trans (h.ports n i))]
      exact funext fun _ => congrArg filterValue (funext fun f =>
        (portAdded_append_singleton _ c.2 i f).symm)
    · rw [List.append_nil]
      exact h.ports n i

/-- After some changes each map replays its longer history. -/
theorem World.Replays.foldl {hist : MapFile → ℕ → List (Change C)} (h : w.Replays hist)
    (cs : List ((MapFile → Option ℕ) × Change C)) :
    (cs.foldl World.change w).Replays fun file n => hist file n ++ changesAt cs file n := by
  induction cs generalizing w hist with
  | nil =>
    simp only [changesAt, List.filterMap_nil, List.append_nil]
    exact h
  | cons c cs ih =>
    have hrest := ih (h.change c)
    simp only [List.append_assoc, ← changesAt_append, List.singleton_append] at hrest
    exact hrest

/-! ## The lists -/

/-- The addresses that are listed and the ports are as before. -/
def SameLists (m m' : Maps C) : Prop :=
  (∀ src, (m'.blacklist src).isSome = (m.blacklist src).isSome) ∧ m'.portBlacklist = m.portBlacklist

/-- Lists that stay what they are twice stay what they are. -/
theorem SameLists.trans {m m' m'' : Maps C} (h : SameLists m m') (h' : SameLists m' m'') :
    SameLists m m'' := ⟨fun src => (h'.1 src).trans (h.1 src), h'.2.trans h.2⟩

/-- Packets leave the lists alone. -/
theorem sameLists_packet (m : Maps C) (cpu : Fin C) (p : Packet) :
    SameLists m (m.change (.packet cpu p)) := by
  refine ⟨fun src => ?_, (event_packet m cpu p).1⟩
  rw [Maps.change, (blacklist_packet m cpu p src).1]
  split
  · exact Option.isSome_map
  · rfl

/-- Every packet has the same verdict when the lists are the same. -/
theorem SameLists.verdict {m m' : Maps C} (h : SameLists m m') (cpu : Fin C) (p : Packet) :
    (xdpProgram cpu p m').map Prod.fst = (xdpProgram cpu p m).map Prod.fst :=
  verdict_congr h.1 h.2 cpu p

/-- The files of neither list lead to the lists of the maps. -/
def World.Orphan (w : World Dev C) (fds : MapFile → ℕ) : Prop :=
  w.pinned .blacklist ≠ some (fds .blacklist) ∧ w.pinned .portBlacklist ≠ some (fds .portBlacklist)

/-- The maps of a program. -/
def World.deviceMaps (w : World Dev C) (fds : MapFile → ℕ) : Maps C :=
  w.mapsOf fun file => some (fds file)

/-- A change that is not made to a list, or is a packet, leaves it alone. -/
theorem sameLists_change {fds : MapFile → ℕ} (c : (MapFile → Option ℕ) × Change C)
    (h : (∃ cpu p, c.2 = .packet cpu p) ∨ c.1 .blacklist ≠ some (fds .blacklist) ∧
      c.1 .portBlacklist ≠ some (fds .portBlacklist)) :
    SameLists (w.deviceMaps fds) ((w.change c).deviceMaps fds) := by
  have hblacklist : ((w.change c).deviceMaps fds).blacklist =
      (if c.1 .blacklist = some (fds .blacklist) then (w.mapsOf c.1).change c.2
        else w.store (fds .blacklist)).blacklist := rfl
  have hports : ((w.change c).deviceMaps fds).portBlacklist =
      (if c.1 .portBlacklist = some (fds .portBlacklist) then (w.mapsOf c.1).change c.2
        else w.store (fds .portBlacklist)).portBlacklist := rfl
  rcases h with ⟨cpu, p, hpacket⟩ | ⟨hne, hne'⟩
  · obtain ⟨haddrs, hport⟩ := sameLists_packet (w.mapsOf c.1) cpu p
    refine ⟨fun src => ?_, ?_⟩
    · rw [hblacklist, hpacket]
      split
      · rename_i hfd
        rw [haddrs]
        show (((c.1 .blacklist).elim (Maps.zero C) w.store).blacklist src).isSome = _
        rw [hfd]
        rfl
      · rfl
    · rw [hports, hpacket]
      split
      · rename_i hfd
        rw [hport]
        show ((c.1 .portBlacklist).elim (Maps.zero C) w.store).portBlacklist = _
        rw [hfd]
        rfl
      · rfl
  · rw [if_neg hne] at hblacklist
    rw [if_neg hne'] at hports
    exact ⟨fun src => congrArg (fun l => (l src).isSome) hblacklist, hports⟩

/-- Packets, and changes of other maps, leave the lists of a device. -/
theorem sameLists_foldl {fds : MapFile → ℕ} (cs : List ((MapFile → Option ℕ) × Change C))
    (h : ∀ c ∈ cs, (∃ cpu p, c.2 = .packet cpu p) ∨ c.1 .blacklist ≠ some (fds .blacklist) ∧
      c.1 .portBlacklist ≠ some (fds .portBlacklist)) :
    SameLists (w.deviceMaps fds) ((cs.foldl World.change w).deviceMaps fds) := by
  induction cs generalizing w with
  | nil => exact ⟨fun _ => rfl, rfl⟩
  | cons c cs ih =>
    obtain ⟨hc, hcs⟩ := List.forall_mem_cons.mp h
    exact (sameLists_change c hc).trans (ih hcs)

/-- Changes of ports leave the addresses alone. -/
theorem blacklist_foldl_ports (cs : List ((MapFile → Option ℕ) × Change C))
    (hports : ∀ c ∈ cs, ∃ call countfd faults, c.2 = .port call countfd faults) (n : ℕ) :
    ((cs.foldl World.change w).store n).blacklist = (w.store n).blacklist := by
  induction cs generalizing w with
  | nil => rfl
  | cons c cs ih =>
    obtain ⟨⟨call, countfd, faults, hc⟩, hcs⟩ := List.forall_mem_cons.mp hports
    rw [List.foldl_cons, ih hcs]
    show (if c.1 .blacklist = some n then (w.mapsOf c.1).change c.2 else w.store n).blacklist = _
    split
    · rename_i hfd
      rw [hc, (rest_port _ call countfd faults).1]
      show ((c.1 .blacklist).elim (Maps.zero C) w.store).blacklist = _
      rw [hfd]
      rfl
    · rfl

/-! ## Operations -/

/-- Numbers of maps are given once. -/
structure World.Fresh (w : World Dev C) : Prop where
  pinned : ∀ file n, w.pinned file = some n → n < w.loads
  attached : ∀ d fds, w.attached d = some fds → ∀ file, fds file < w.loads

/-- At the start no map is in use. -/
theorem World.Fresh.init : (World.init : World Dev C).Fresh := ⟨nofun, nofun⟩

/-- What a history leaves in the world. -/
structure World.Inv (w : World Dev C) (hist : MapFile → ℕ → List (Change C)) : Prop where
  fresh : w.Fresh
  replays : w.Replays hist
  unused : ∀ file n, w.loads ≤ n → hist file n = []

/-- The invariant at the start, with empty histories. -/
theorem World.Inv.init : (World.init : World Dev C).Inv fun _ _ => [] :=
  ⟨.init, ⟨fun _ _ => rfl, fun _ _ => funext fun _ => filterValue_false.symm⟩, fun _ _ _ => rfl⟩

variable [DecidableEq Dev] {op : Operation Dev C} {d : Dev}

/-- After its effect, an operation loads, pins and attaches nothing. -/
theorem step_frame (w : World Dev C) (op : Operation Dev C) :
    (w.step op).loads = (w.effect op).world.loads ∧
      (w.step op).pinned = (w.effect op).world.pinned ∧
      (w.step op).attached = (w.effect op).world.attached :=
  foldl_change ..

/-- **A change that is not a packet is made to maps with files, or to new ones.** -/
theorem of_mem_changes {c : (MapFile → Option ℕ) × Change C} (hc : c ∈ (w.effect op).changes) :
    (∃ d fds cpu p, w.attached d = some fds ∧ c = (fun file => some (fds file), .packet cpu p)) ∨
      ∀ file n, c.1 file = some n →
        w.pinned file = some n ∨ n = w.loads ∧ w.loads < (w.effect op).world.loads := by
  cases op with
  | load h d =>
    rcases load_cases w h d with ⟨-, heq⟩ | ⟨fds, hloads⟩
    · rw [World.effect, heq] at hc
      cases hc
    · refine .inr fun file n hn => ?_
      have hlt : w.loads < (w.load h d).2.world.loads := by
        rw [hloads.loads]
        exact Nat.lt_succ_self _
      have hfds : c.1 = fun file => some (fds file) := by
        rcases hloads.attached with ⟨-, -, hnil⟩ | ⟨-, hnil | htest⟩
        · rw [World.effect, hnil] at hc
          cases hc
        · rw [World.effect, hnil] at hc
          cases hc
        · rw [World.effect, htest] at hc
          obtain ⟨e, -, rfl⟩ := List.mem_map.mp hc
          rfl
      rw [hfds] at hn
      cases hn
      exact (hloads.found file).imp id fun heq => ⟨heq, hlt⟩
  | remove detaches unlinks d => cases hc
  | tool host argv =>
    obtain ⟨e, -, rfl⟩ := List.mem_map.mp hc
    exact .inr fun file n hn => .inl hn
  | packet d cpu p =>
    rw [World.effect, World.packet, Option.mem_toList, Option.map_eq_some_iff] at hc
    obtain ⟨fds, hfds, rfl⟩ := hc
    exact .inl ⟨d, fds, cpu, p, hfds, rfl⟩

/-- Operations leave the maps that there are to their changes, and empty new ones. -/
theorem store_effect (w : World Dev C) (op : Operation Dev C) (n : ℕ) :
    (w.effect op).world.store n = w.store n ∨
      n = w.loads ∧ (w.effect op).world.store n = Maps.zero C := by
  cases op with
  | load h d =>
    rcases load_cases w h d with ⟨-, heq⟩ | ⟨fds, hto⟩
    · exact .inl (by rw [World.effect, heq])
    · rw [World.effect, hto.store]
      by_cases hn : n = w.loads
      · subst hn
        exact .inr ⟨rfl, Function.update_self ..⟩
      · exact .inl (Function.update_of_ne hn ..)
  | remove detaches unlinks d => cases detaches <;> exact .inl rfl
  | tool host argv => exact .inl rfl
  | packet d cpu p => exact .inl rfl

/-- The number of loads does not go down. -/
theorem loads_le_effect (w : World Dev C) (op : Operation Dev C) :
    w.loads ≤ (w.effect op).world.loads := by
  cases op with
  | load h d =>
    rcases load_cases w h d with ⟨-, heq⟩ | ⟨fds, hloads⟩
    · rw [World.effect, heq]
    · rw [World.effect, hloads.loads]
      exact Nat.le_succ _
  | remove detaches unlinks d => cases detaches <;> exact le_rfl
  | tool host argv => exact le_rfl
  | packet d cpu p => exact le_rfl

/-- **What an operation makes of the files**: a file that is there stays, with its map, unless it is
unlinked, and a new file has a new map. -/
theorem pinned_step (w : World Dev C) (op : Operation Dev C) (file : MapFile) :
    (w.step op).pinned file = (if op.unlinks file then none else w.pinned file) ∨
      w.pinned file = none ∧ (w.step op).pinned file = some w.loads ∧
        (w.step op).loads = w.loads + 1 := by
  obtain ⟨hloads, hpinned, -⟩ := step_frame w op
  rw [hloads, hpinned]
  cases op with
  | load h d =>
    rcases load_cases w h d with ⟨-, heq⟩ | ⟨fds, hto⟩
    · rw [World.effect, heq]
      exact .inl rfl
    · rw [World.effect, hto.pinned]
      split
      · rename_i hnew
        exact .inr ⟨hnew.1, rfl, hto.loads⟩
      · exact .inl rfl
  | remove detaches unlinks d => cases detaches <;> exact .inl rfl
  | tool host argv => exact .inl rfl
  | packet d cpu p => exact .inl rfl

/-- **A device keeps its maps** when no operation is for it, and a load gives it the ones found. -/
theorem attached_step (w : World Dev C) (op : Operation Dev C) (d : Dev) :
    (w.step op).attached d = w.attached d ∨
      ¬ op.leaves d ∧ ((w.step op).attached d = none ∨
        ∃ h fds, op = .load h d ∧ (w.step op).attached d = some fds ∧
          w.LoadsTo h d fds (w.load h d).1 (w.load h d).2) := by
  rw [(step_frame w op).2.2]
  cases op with
  | load h d' =>
    rcases load_cases w h d' with ⟨-, heq⟩ | ⟨fds, hto⟩
    · rw [World.effect, heq]
      exact .inl rfl
    · rw [World.effect]
      rcases hto.attached with ⟨-, hsame, -⟩ | ⟨hnew, -⟩
      · rw [hsame]
        exact .inl rfl
      · rw [hnew]
        by_cases hd : d = d'
        · subst hd
          exact .inr ⟨fun h => h rfl, .inr ⟨h, fds, rfl, Function.update_self .., hto⟩⟩
        · exact .inl (Function.update_of_ne hd ..)
  | remove detaches unlinks d' =>
    cases detaches with
    | false => exact .inl rfl
    | true =>
      by_cases hd : d = d'
      · subst hd
        exact .inr ⟨fun h => h rfl, .inl (Function.update_self ..)⟩
      · exact .inl (Function.update_of_ne hd ..)
  | tool host argv => exact .inl rfl
  | packet d cpu p => exact .inl rfl

/-- The number of loads does not go down in a step. -/
theorem loads_le_step (w : World Dev C) (op : Operation Dev C) : w.loads ≤ (w.step op).loads := by
  rw [(step_frame w op).1]
  exact loads_le_effect w op

/-- The maps of later loads stay unused. -/
theorem World.Fresh.step (h : w.Fresh) (op : Operation Dev C) : (w.step op).Fresh := by
  have hle := loads_le_step w op
  constructor
  · intro file n hn
    rcases pinned_step w op file with hkept | ⟨-, hnew, hloads⟩
    · rw [hkept] at hn
      split at hn
      · cases hn
      · exact (h.pinned file n hn).trans_le hle
    · rw [hnew] at hn
      cases hn
      omega
  · intro d fds hfds file
    rcases attached_step w op d with hkept | ⟨-, hnone | ⟨env, fds', rfl, hnew, hto⟩⟩
    · exact (h.attached d fds (hkept ▸ hfds) file).trans_le hle
    · rw [hnone] at hfds
      cases hfds
    · rw [hnew] at hfds
      cases hfds
      rw [(step_frame w _).1]
      show fds file < (w.load env d).2.world.loads
      rw [hto.loads]
      rcases hto.found file with hpinned | hfd
      · exact (h.pinned file _ hpinned).trans (Nat.lt_succ_self _)
      · rw [hfd]
        exact Nat.lt_succ_self _

/-! ## Histories -/

/-- A load empties maps that have no history. -/
theorem World.Inv.replays_effect {hist : MapFile → ℕ → List (Change C)} (h : w.Inv hist)
    (op : Operation Dev C) : (w.effect op).world.Replays hist := by
  constructor
  · intro n src
    rcases store_effect w op n with hsame | ⟨rfl, hzero⟩
    · rw [hsame]
      exact h.replays.blacklist n src
    · rw [hzero, h.unused _ _ le_rfl]
      rfl
  · intro n i
    rcases store_effect w op n with hsame | ⟨rfl, hzero⟩
    · rw [hsame]
      exact h.replays.ports n i
    · rw [hzero, h.unused _ _ le_rfl]
      exact funext fun _ => filterValue_false.symm

/-- An operation appends its changes to the histories. -/
theorem World.Inv.step {hist : MapFile → ℕ → List (Change C)} (h : w.Inv hist)
    (op : Operation Dev C) :
    (w.step op).Inv fun file n => hist file n ++ changesAt (w.effect op).changes file n := by
  refine ⟨h.fresh.step op, (h.replays_effect op).foldl _, fun file n hn => ?_⟩
  have hle := loads_le_effect w op
  rw [(step_frame w op).1] at hn
  rw [h.unused file n (hle.trans hn), List.nil_append]
  refine changesAt_eq_nil fun c hc hfd => ?_
  rcases of_mem_changes hc with ⟨d, fds, cpu, p, hfds, rfl⟩ | hvia
  · cases hfd
    exact absurd (h.fresh.attached d fds hfds file) (by omega)
  · rcases hvia file n hfd with hpinned | ⟨rfl, hlt⟩
    · exact absurd (h.fresh.pinned file n hpinned) (by omega)
    · omega

/-- **Every run is replayed by its histories.** -/
theorem World.Inv.run {hist : MapFile → ℕ → List (Change C)} (h : w.Inv hist)
    (ops : List (Operation Dev C)) :
    (w.run ops).Inv fun file n => hist file n ++ w.history ops file n := by
  induction ops generalizing w hist with
  | nil =>
    simp only [World.history, List.append_nil]
    exact h
  | cons op ops ih =>
    have hrest := ih (h.step op)
    simp only [List.append_assoc] at hrest
    exact hrest

/-- **Every run on any devices**, with any failures of the loads, of the exports, of the unlinks and
of the calls of the tool: a program filters by the histories of the maps that it was loaded with. -/
theorem filters_of_run (ops : List (Operation Dev C)) (fds : MapFile → ℕ) :
    Filters (World.init.history ops .blacklist (fds .blacklist))
      (World.init.history ops .portBlacklist (fds .portBlacklist))
      ((World.init.run ops).deviceMaps fds) := by
  have hinv := World.Inv.init.run ops
  simp only [List.nil_append] at hinv
  exact filters_of_lists (fun src => hinv.replays.blacklist _ src)
    (fun i => hinv.replays.ports _ i)

/-! ## Devices that the tool does not reach -/

/-- The operations leave the program and its maps, and a file leads to its map exactly until it is
unlinked. -/
theorem pinned_run_iff (h : w.Fresh) {fds : MapFile → ℕ} (hd : w.attached d = some fds)
    {ops : List (Operation Dev C)} (hleaves : ∀ op ∈ ops, op.leaves d) :
    (w.run ops).Fresh ∧ (w.run ops).attached d = some fds ∧
      ∀ file, (w.run ops).pinned file = some (fds file) ↔
        w.pinned file = some (fds file) ∧ ∀ op ∈ ops, op.unlinks file = false := by
  induction ops generalizing w with
  | nil => exact ⟨h, hd, fun file => ⟨fun hfile => ⟨hfile, List.forall_mem_nil _⟩, And.left⟩⟩
  | cons op ops ih =>
    obtain ⟨hop, hrest⟩ := List.forall_mem_cons.mp hleaves
    have hd' : (w.step op).attached d = some fds := by
      rcases attached_step w op d with hkept | ⟨hnot, -⟩
      · rw [hkept, hd]
      · exact absurd hop hnot
    obtain ⟨hfresh, hattached, hpinned⟩ := ih (h.step op) hd' hrest
    refine ⟨hfresh, hattached, fun file => (hpinned file).trans ?_⟩
    rw [List.forall_mem_cons, ← and_assoc]
    refine and_congr_left fun _ => ?_
    rcases pinned_step w op file with hkept | ⟨hnone, hnew, -⟩
    · rw [hkept]
      cases op.unlinks file <;> simp
    · -- a new map is not that of the device
      have hlt := h.attached d fds hd file
      rw [hnew, hnone]
      simp [hlt.ne']

/-- An operation leaves the lists of a device alone that the files do not lead to. -/
theorem sameLists_step (h : w.Fresh) {fds : MapFile → ℕ} (hd : w.attached d = some fds)
    (horphan : w.Orphan fds) (op : Operation Dev C) :
    SameLists (w.deviceMaps fds) ((w.step op).deviceMaps fds) := by
  have hlt := h.attached d fds hd
  have hworld : (w.effect op).world.deviceMaps fds = w.deviceMaps fds :=
    congrArg Maps.mix (funext fun file => (store_effect w op (fds file)).resolve_right
      fun hnew => (hlt file).ne hnew.1)
  rw [← hworld]
  refine sameLists_foldl _ fun c hc => ?_
  rcases of_mem_changes hc with ⟨d', fds', cpu, p, -, rfl⟩ | hvia
  · exact .inl ⟨cpu, p, rfl⟩
  · refine .inr ⟨fun hfd => ?_, fun hfd => ?_⟩
    · rcases hvia _ _ hfd with hpinned | ⟨heq, -⟩
      · exact horphan.1 hpinned
      · exact absurd (hlt .blacklist) (by omega)
    · rcases hvia _ _ hfd with hpinned | ⟨heq, -⟩
      · exact horphan.2 hpinned
      · exact absurd (hlt .portBlacklist) (by omega)

/-- **Once the files do not lead to the lists of a device, they are as they are.** -/
theorem sameLists_run (h : w.Fresh) {fds : MapFile → ℕ} (hd : w.attached d = some fds)
    (horphan : w.Orphan fds) {ops : List (Operation Dev C)} (hleaves : ∀ op ∈ ops, op.leaves d) :
    SameLists (w.deviceMaps fds) ((w.run ops).deviceMaps fds) := by
  induction ops generalizing w with
  | nil => exact ⟨fun _ => rfl, rfl⟩
  | cons op ops ih =>
    obtain ⟨hop, hrest⟩ := List.forall_mem_cons.mp hleaves
    have hone : ∀ o ∈ [op], o.leaves d := List.forall_mem_singleton.mpr hop
    obtain ⟨hfresh, hd', hpinned⟩ := pinned_run_iff h hd hone
    exact (sameLists_step h hd horphan op).trans (ih hfresh hd'
      ⟨fun hfile => horphan.1 ((hpinned _).mp hfile).1,
        fun hfile => horphan.2 ((hpinned _).mp hfile).1⟩ hrest)

/-- A command line that adds an address makes this change first, if the files open. -/
theorem toolChanges_of_add {host : Host} {argv : List Word} {o : Options} {ip : List Char}
    (hparse : Options.parse (optionsOf argv) = .ok o) (hverdict : host.opens .verdict)
    (hopens : host.opens .blacklist) (haction : o.action = actionAdd)
    (hip : o.ipString = some ip) :
    ∃ ports : List (Change C), toolChanges host argv = .addr host ip actionAdd :: ports ∧
      ∀ e ∈ ports, ∃ call countfd faults, e = .port call countfd faults := by
  have hadd : o.action ≠ 0 := by
    rw [haction]
    decide
  have hall : (Change.addr host ip actionAdd : Change C).files.all host.opens = true := by
    simp [Change.files, hopens]
  rw [toolChanges, hparse]
  dsimp only
  rw [if_pos (And.intro hverdict hadd), Options.commands, hip, haction, Option.map_some,
    Option.toList_some, List.singleton_append, List.takeWhile_cons, if_pos hall]
  refine ⟨_, rfl, fun e he => ?_⟩
  have hmem := (List.takeWhile_prefix _).subset he
  split at hmem
  · exact ⟨_, _, _, List.mem_singleton.mp hmem⟩
  · cases hmem

/-- A call of the tool that adds an address reaches the devices that the file leads to. -/
theorem listed_of_tool {host : Host} {argv : List Word} {o : Options} {ip : List Char}
    {src : UInt32} {fds : MapFile → ℕ} (hfile : w.pinned .blacklist = some (fds .blacklist))
    (hparse : Options.parse (optionsOf argv) = .ok o) (hverdict : w.opens host .verdict)
    (hopens : host.opens .blacklist) (haction : o.action = actionAdd)
    (hip : o.ipString = some ip) (hsrc : inetPton ip = some src) (hfault : host.ipFault = none) :
    (((w.step (.tool host argv)).deviceMaps fds).blacklist src).isSome := by
  have hthere : (w.surround host).opens .blacklist := by
    show (host.opens .blacklist && (w.pinned .blacklist).isSome) = true
    rw [hopens, hfile]
    rfl
  obtain ⟨ports, hchanges, hports⟩ :=
    toolChanges_of_add (C := C) hparse hverdict hthere haction hip
  have hone : ((w.change (w.pinned, .addr (w.surround host) ip actionAdd)).store
      (fds .blacklist)).blacklist
      = ((w.mapsOf w.pinned).change (.addr (w.surround host) ip actionAdd)).blacklist := by
    show (if w.pinned .blacklist = some (fds .blacklist) then
      (w.mapsOf w.pinned).change (.addr (w.surround host) ip actionAdd)
      else w.store (fds .blacklist)).blacklist = _
    rw [if_pos hfile]
  have hrest : ∀ c ∈ ports.map fun e => (w.pinned, e),
      ∃ call countfd faults, c.2 = .port call countfd faults := by
    intro c hc
    obtain ⟨e, he, rfl⟩ := List.mem_map.mp hc
    exact hports e he
  show (((w.step (.tool host argv)).store (fds .blacklist)).blacklist src).isSome
  rw [World.step, World.effect, World.tool, hchanges, List.map_cons, List.foldl_cons,
    blacklist_foldl_ports _ hrest, hone, Maps.change, result_blacklistModify]
  simp [Maps.setBlacklist, addrEntry, hsrc, World.surround, hfault]

/-! ## What a maintainer relies on -/

/-- **How long the tool manages a device**, from a world on in which it runs a program. -/
structure Managed (w : World Dev C) (d : Dev) (fds : MapFile → ℕ) (ops : List (Operation Dev C)) :
    Prop where
  attached : (w.run ops).attached d = some fds
  /-- A file leads to the map of the device exactly until it is unlinked, for any device. -/
  pinned : ∀ file, (w.run ops).pinned file = some (fds file) ↔
    w.pinned file = some (fds file) ∧ ∀ op ∈ ops, op.unlinks file = false
  /-- As long as the file of the addresses does, the device drops what the tool adds. -/
  reached : ∀ host argv o ip src cpu p, (w.run ops).pinned .blacklist = some (fds .blacklist) →
    Options.parse (optionsOf argv) = .ok o → (w.run ops).opens host .verdict →
    host.opens .blacklist → o.action = actionAdd → o.ipString = some ip →
    inetPton ip = some src → host.ipFault = none → fromAddr p src →
    (xdpProgram cpu p (((w.run ops).step (.tool host argv)).deviceMaps fds)).map Prod.fst
      = some xdpDrop
  /-- Once the files of both lists do not, every packet has the verdict that it had, whatever is
  done. -/
  orphan : w.Orphan fds → ∀ cpu p, (xdpProgram cpu p ((w.run ops).deviceMaps fds)).map Prod.fst
    = (xdpProgram cpu p (w.deviceMaps fds)).map Prod.fst

/-- **The tool manages a device until the files are unlinked**, and never again until a program is
loaded for it anew. -/
theorem managed_until_unlinked {ops₀ ops : List (Operation Dev C)} {fds : MapFile → ℕ}
    (hd : (World.init.run ops₀).attached d = some fds) (hleaves : ∀ op ∈ ops, op.leaves d) :
    Managed (World.init.run ops₀) d fds ops := by
  have hfresh := (World.Inv.init.run ops₀).fresh
  obtain ⟨-, hattached, hpinned⟩ := pinned_run_iff hfresh hd hleaves
  refine ⟨hattached, hpinned, fun host argv o ip src cpu p hfile hparse hverdict hopens haction hip
    hsrc hfault hfrom => ?_, fun horphan cpu p => ?_⟩
  · exact (blacklist_packet _ cpu p src).2 hfrom
      (listed_of_tool hfile hparse hverdict hopens haction hip hsrc hfault)
  · exact (sameLists_run hfresh hd horphan hleaves).verdict cpu p

/-- All goes well on the machine. -/
def okHost : LoadHost where
  opens := fun _ => true
  order := []
  junk := 0
  ipFault := none
  portFaults := .none
  rlimit := true
  elf := true
  onBpfFs := fun _ => true
  creates := fun _ => true
  accepts := true
  pins := fun _ => true
  link := .done

/-- The program is loaded for the devices 2 and 3. -/
def twoDevices : List (Operation ℕ 2) := [.load okHost 2, .load okHost 3]

/-- The maps of device 2. -/
def sharedMaps : MapFile → ℕ := ((World.init.run twoDevices).attached 2).get (by decide)

/-- Taking the program off device 3 ends the management of device 2. -/
theorem managed_until_unlinked_two :
    (World.init.run twoDevices).pinned .blacklist = some (sharedMaps .blacklist) ∧
      ((World.init.run twoDevices).run [.remove true (fun _ => true) 3]).pinned .blacklist = none ∧
      Managed (World.init.run twoDevices) 2 sharedMaps [.remove true (fun _ => true) 3] :=
  ⟨by decide, by decide, managed_until_unlinked (Option.some_get _).symm
    (List.forall_mem_singleton.mpr (show 3 ≠ 2 by decide))⟩

/-! ## Runs without failures of the file system -/

/-- Files that are there can be opened, and pinning and unlinking them succeeds. -/
def Operation.Clean : Operation Dev C → Prop
  | .load h _ => ∀ file, h.opens file ∧ h.pins file
  | .remove _ unlinks _ => ∀ file, unlinks file
  | _ => True

/-- **Every program has the maps of one load**, and these hold what one history says. -/
structure World.Whole (w : World Dev C) (hist : MapFile → ℕ → List (Change C)) : Prop where
  inv : w.Inv hist
  pinned : ∃ current, w.pinned = fun _ => current
  attached : ∀ d fds, w.attached d = some fds → ∃ n, fds = fun _ => n
  same : ∀ file n, hist file n = hist .blacklist n
  store : ∀ n, w.store n = (Maps.zero C).changes (hist .blacklist n)

omit [DecidableEq Dev] in
/-- The invariant of the single filter at the start. -/
theorem World.Whole.init : (World.init : World Dev C).Whole fun _ _ => [] :=
  ⟨.init, ⟨none, rfl⟩, nofun, fun _ _ => rfl, fun _ => rfl⟩

omit [DecidableEq Dev] in
/-- Changes of whole filters are replayed by one history. -/
theorem store_foldl (cs : List ((MapFile → Option ℕ) × Change C))
    (hwhole : ∀ c ∈ cs, ∃ k, c.1 = fun _ => k) (n : ℕ) :
    (cs.foldl World.change w).store n = (w.store n).changes (changesAt cs .blacklist n) := by
  induction cs generalizing w with
  | nil => rfl
  | cons c cs ih =>
    obtain ⟨⟨k, hk⟩, hcs⟩ := List.forall_mem_cons.mp hwhole
    obtain ⟨via, e⟩ := c
    subst hk
    rw [List.foldl_cons, ih hcs, changesAt_cons]
    have hone : (w.change (fun _ => k, e)).store n
        = if k = some n then (w.mapsOf fun _ => k).change e else w.store n := rfl
    rw [hone]
    by_cases hkn : k = some n
    · subst hkn
      rw [if_pos rfl, if_pos rfl]
      rfl
    · rw [if_neg hkn, if_neg hkn]
      rfl

omit [DecidableEq Dev] in
/-- Changes through whole filters are the same for all five maps. -/
theorem changesAt_same {cs : List ((MapFile → Option ℕ) × Change C)}
    (hwhole : ∀ c ∈ cs, ∃ k, c.1 = fun _ => k) (file : MapFile) (n : ℕ) :
    changesAt cs file n = changesAt cs .blacklist n :=
  List.filterMap_congr fun c hc => by
    obtain ⟨k, hk⟩ := hwhole c hc
    rw [hk]

section Clean

variable {hist : MapFile → ℕ → List (Change C)}

/-- The maps that a load finds are those of one load. -/
theorem World.Whole.fds_eq {h : LoadHost} {fds : MapFile → ℕ} {code : ℤ} {e : Effect Dev C}
    (hw : w.Whole hist) (hto : w.LoadsTo h d fds code e) (hopens : ∀ file, h.opens file) :
    fds = fun _ => (w.pinned .blacklist).getD w.loads := by
  obtain ⟨current, hcurrent⟩ := hw.pinned
  funext file
  rw [hto.found_of_opens file (hopens file), hcurrent]

/-- Changes are made to whole filters. -/
theorem World.Whole.changes (hw : w.Whole hist) (hclean : op.Clean) :
    ∀ c ∈ (w.effect op).changes, ∃ k, c.1 = fun _ => k := by
  obtain ⟨current, hcurrent⟩ := hw.pinned
  cases op with
  | load h d =>
    intro c hc
    rcases load_cases w h d with ⟨-, heq⟩ | ⟨fds, hto⟩
    · rw [World.effect, heq] at hc
      cases hc
    · have hfds := hw.fds_eq hto fun file => (hclean file).1
      rcases hto.attached with ⟨-, -, hnil⟩ | ⟨-, hnil | htest⟩
      · rw [World.effect, hnil] at hc
        cases hc
      · rw [World.effect, hnil] at hc
        cases hc
      · rw [World.effect, htest] at hc
        obtain ⟨e, -, rfl⟩ := List.mem_map.mp hc
        exact ⟨_, by rw [hfds]⟩
  | remove detaches unlinks d => exact fun c hc => by cases hc
  | tool host argv =>
    intro c hc
    obtain ⟨e, -, rfl⟩ := List.mem_map.mp hc
    exact ⟨current, hcurrent⟩
  | packet d cpu p =>
    intro c hc
    rw [World.effect, World.packet, Option.mem_toList, Option.map_eq_some_iff] at hc
    obtain ⟨fds, hfds, rfl⟩ := hc
    obtain ⟨n, rfl⟩ := hw.attached d fds hfds
    exact ⟨some n, rfl⟩

/-- Operations that go well keep the filters whole. -/
theorem World.Whole.step (hw : w.Whole hist) (hclean : op.Clean) :
    (w.step op).Whole fun file n => hist file n ++ changesAt (w.effect op).changes file n := by
  have hchanges := hw.changes hclean
  obtain ⟨current, hcurrent⟩ := hw.pinned
  refine ⟨hw.inv.step op, ?_, fun d fds hfds => ?_, fun file n => ?_, fun n => ?_⟩
  · rw [(step_frame w op).2.1]
    cases op with
    | load h d =>
      rcases load_cases w h d with ⟨-, heq⟩ | ⟨fds, hto⟩
      · exact ⟨current, by rw [World.effect, heq, hcurrent]⟩
      · refine ⟨if current = none then some w.loads else current, funext fun file => ?_⟩
        simp only [World.effect, hto.pinned, hcurrent, (hclean file).2, and_true]
    | remove detaches unlinks d =>
      refine ⟨none, ?_⟩
      cases detaches <;> exact funext fun file => if_pos (hclean file)
    | tool host argv => exact ⟨current, hcurrent⟩
    | packet d cpu p => exact ⟨current, hcurrent⟩
  · rcases attached_step w op d with hkept | ⟨-, hnone | ⟨h, fds', rfl, hnew, hto⟩⟩
    · exact hw.attached d fds (hkept ▸ hfds)
    · rw [hnone] at hfds
      cases hfds
    · rw [hnew] at hfds
      cases hfds
      exact ⟨_, hw.fds_eq hto fun file => (hclean file).1⟩
  · rw [hw.same file, changesAt_same hchanges]
  · rw [World.step, store_foldl _ hchanges, Maps.changes, Maps.changes, List.foldl_append]
    congr 1
    rcases store_effect w op n with hsame | ⟨rfl, hzero⟩
    · rw [hsame, hw.store]
      rfl
    · rw [hzero, hw.inv.unused _ _ le_rfl]
      rfl

/-- The single filter in every run in which the map files do not fail. -/
theorem World.Whole.run (hw : w.Whole hist) {ops : List (Operation Dev C)}
    (hclean : ∀ op ∈ ops, op.Clean) :
    (w.run ops).Whole fun file n => hist file n ++ w.history ops file n := by
  induction ops generalizing w hist with
  | nil =>
    simp only [World.history, List.append_nil]
    exact hw
  | cons op ops ih =>
    obtain ⟨hop, hrest⟩ := List.forall_mem_cons.mp hclean
    have hrun := ih (hw.step hop) hrest
    simp only [List.append_assoc] at hrun
    exact hrun

end Clean

end DdosBlacklist
