import PrototypeKernel.DdosBlacklist.FilterHistory

/-! # The filter on several devices

`xdp_ddos01_blacklist_user.c` loads the program for a device, with the maps behind the files that
are there already, and pins the maps that it had to create. With `--remove` it takes the program off
a device and unlinks the files, also when other devices still run the program. The command-line tool
changes the maps behind the files. -/

namespace DdosBlacklist

open Getopt

variable {Dev : Type*} {C : ℕ}

/-! ## Maps and files -/

/-- `EXIT_FAIL`. -/
def exitFail : ℤ := 1

/-- `EXIT_FAIL_XDP`. -/
def exitFailXdp : ℤ := 3

/-- `EXIT_FAIL_MAP_FS`. -/
def exitFailMapFs : ℤ := 23

/-- A failed load does not return `EXIT_OK`. -/
theorem exitFail_ne : exitFail ≠ exitOk := by decide

/-- A failed attachment does not return `EXIT_OK`. -/
theorem exitFailXdp_ne : exitFailXdp ≠ exitOk := by decide

/-- `NR_MAPS`. -/
def nrMaps : ℕ := 5

/-- `map_idx_to_export_filename()`. -/
def mapIdxToExportFilename : ℕ → Option MapFile
  | 0 => some .blacklist
  | 1 => some .verdict
  | 2 => some .portBlacklist
  | 3 => some (.portBlacklistCount .tcp)
  | 4 => some (.portBlacklistCount .udp)
  | _ => none

/-- The files in the order of the maps in the program. -/
def mapFiles : List MapFile := (List.range nrMaps).filterMap mapIdxToExportFilename

/-- The five files are different. -/
theorem nodup_mapFiles : mapFiles.Nodup := by decide

/-- There are no other map files. -/
theorem mem_mapFiles (file : MapFile) : file ∈ mapFiles := by
  cases file with
  | portBlacklistCount f => cases f <;> decide
  | _ => decide

/-- The map behind each file is the one of `ms file`. -/
def Maps.mix (ms : MapFile → Maps C) : Maps C where
  blacklist := (ms .blacklist).blacklist
  verdictCnt := (ms .verdict).verdictCnt
  portBlacklist := (ms .portBlacklist).portBlacklist
  portBlacklistDropCountTcp := (ms (.portBlacklistCount .tcp)).portBlacklistDropCountTcp
  portBlacklistDropCountUdp := (ms (.portBlacklistCount .udp)).portBlacklistDropCountUdp

/-- The devices and the BPF file system. The maps with number `n` in `store` are those that the
`n`-th load creates. A program has one map for each file, and so has the file system. -/
structure World (Dev : Type*) (C : ℕ) where
  loads : ℕ
  store : ℕ → Maps C
  pinned : MapFile → Option ℕ
  attached : Dev → Option (MapFile → ℕ)

/-- No device runs the program. -/
def World.init : World Dev C where
  loads := 0
  store := fun _ => Maps.zero C
  pinned := fun _ => none
  attached := fun _ => none

/-- The maps behind file descriptors. -/
def World.mapsOf (w : World Dev C) (fds : MapFile → Option ℕ) : Maps C :=
  Maps.mix fun file => (fds file).elim (Maps.zero C) w.store

/-- A change of the maps behind file descriptors. -/
def World.change (w : World Dev C) (c : (MapFile → Option ℕ) × Change C) : World Dev C :=
  { w with
    store := fun n => Maps.mix fun file =>
      if c.1 file = some n then (w.mapsOf c.1).change c.2 else w.store n }

/-- What a program does: the files and devices as it leaves them, and the changes that it makes to
maps. -/
structure Effect (Dev : Type*) (C : ℕ) where
  world : World Dev C
  changes : List ((MapFile → Option ℕ) × Change C)

/-! ## The loader -/

/-- How the kernel takes the request to attach a program: it refuses, it attaches the program but
`set_link_xdp_fd()` does not get to know, or all goes well. -/
inductive Link where
  | refused
  | unanswered
  | done
  deriving DecidableEq

/-- What surrounds the loader, beside what surrounds the tool: whether `setrlimit()` succeeds, the
object file can be read, a path is on the BPF file system, a map can be created, the program is
accepted and a map can be pinned. -/
structure LoadHost extends Host where
  rlimit : Bool
  elf : Bool
  onBpfFs : MapFile → Bool
  creates : MapFile → Bool
  accepts : Bool
  pins : MapFile → Bool
  link : Link

/-- `map_fd[]` and `maps_marked_for_export[]`. -/
structure Loaded where
  mapFd : MapFile → ℕ
  marked : MapFile → Bool

/-- A round of `load_maps()`, with `pre_load_maps_via_fs()`. -/
def World.loadMap (w : World Dev C) (h : LoadHost) (l : Loaded) (file : MapFile) :
    Except ℤ Loaded :=
  if h.onBpfFs file then
    match if h.opens file then w.pinned file else none with
    | some n => .ok { l with mapFd := Function.update l.mapFd file n }
    | none =>
        if h.creates file then
          .ok ⟨Function.update l.mapFd file w.loads, Function.update l.marked file true⟩
        else .error exitFail
  else .error exitFailMapFs

/-- `load_maps()`. -/
def World.loadMaps (w : World Dev C) (h : LoadHost) : Except ℤ Loaded :=
  mapFiles.foldlM (w.loadMap h) ⟨fun _ => w.loads, fun _ => false⟩

/-- A round of `export_maps()`. A file that is there already is not replaced. -/
def Loaded.exportMap (l : Loaded) (h : LoadHost) (pinned : MapFile → Option ℕ) (file : MapFile) :
    MapFile → Option ℕ :=
  if l.marked file ∧ h.pins file ∧ pinned file = none then
    Function.update pinned file (some (l.mapFd file))
  else pinned

section Load

variable {w : World Dev C} {h : LoadHost} {l l' : Loaded}

/-- The map of a file is the one that is there, or a new one that is marked. -/
def Loaded.Found (l : Loaded) (w : World Dev C) (h : LoadHost) (file : MapFile) : Prop :=
  (w.pinned file = some (l.mapFd file) ∧ l.marked file = false) ∨
    (l.mapFd file = w.loads ∧ l.marked file = true ∧ (h.opens file → w.pinned file = none))

/-- A round finds the map of its file, and keeps the others. -/
theorem found_of_loadMap {file : MapFile} (hmarked : l.marked file = false)
    (hload : w.loadMap h l file = .ok l') :
    l'.Found w h file ∧
      ∀ f, f ≠ file → l'.mapFd f = l.mapFd f ∧ l'.marked f = l.marked f := by
  unfold World.loadMap at hload
  split at hload
  · split at hload
    · rename_i n hn
      cases hload
      have hpinned : w.pinned file = some n := by
        split at hn
        · exact hn
        · cases hn
      refine ⟨.inl ⟨?_, hmarked⟩, fun f hf => ⟨Function.update_of_ne hf .., rfl⟩⟩
      show w.pinned file = some (Function.update l.mapFd file n file)
      rw [Function.update_self, hpinned]
    · rename_i hn
      split at hload
      · cases hload
        refine ⟨.inr ⟨Function.update_self .., Function.update_self .., fun hopens => ?_⟩,
          fun f hf => ⟨Function.update_of_ne hf .., Function.update_of_ne hf ..⟩⟩
        rwa [if_pos hopens] at hn
      · cases hload
  · cases hload

/-- After the loop over some files each of them is opened or created, and the others are as they
were. -/
theorem found_of_foldlM {files : List MapFile} (hnodup : files.Nodup)
    (hmarked : ∀ file ∈ files, l.marked file = false)
    (hload : files.foldlM (w.loadMap h) l = .ok l') :
    (∀ file ∈ files, l'.Found w h file) ∧
      ∀ file, file ∉ files → l'.mapFd file = l.mapFd file ∧ l'.marked file = l.marked file := by
  induction files generalizing l with
  | nil =>
    cases hload
    exact ⟨nofun, fun _ _ => ⟨rfl, rfl⟩⟩
  | cons file files ih =>
    obtain ⟨hnotMem, hnodup⟩ := List.nodup_cons.mp hnodup
    rw [List.foldlM_cons] at hload
    cases hround : w.loadMap h l file with
    | error code =>
      rw [hround] at hload
      cases hload
    | ok l₁ =>
      rw [hround] at hload
      obtain ⟨hfound, hkept⟩ := found_of_loadMap (hmarked file List.mem_cons_self) hround
      obtain ⟨hrest, hother⟩ := ih hnodup (fun f hf => by
        rw [(hkept f fun heq => hnotMem (heq ▸ hf)).2]
        exact hmarked f (List.mem_cons_of_mem _ hf)) hload
      refine ⟨fun f hf => ?_, fun f hf => ?_⟩
      · rcases List.mem_cons.mp hf with rfl | hf
        · -- the later rounds keep what this one has found
          obtain ⟨hfd, hmark⟩ := hother f hnotMem
          rw [Loaded.Found, hfd, hmark]
          exact hfound
        · exact hrest f hf
      · obtain ⟨hne, hnot⟩ := not_or.mp (List.mem_cons.not.mp hf)
        exact ⟨(hother f hnot).1.trans (hkept f hne).1, (hother f hnot).2.trans (hkept f hne).2⟩

/-- **What `load_maps()` finds.** -/
theorem found_of_loadMaps (hload : w.loadMaps h = .ok l) (file : MapFile) : l.Found w h file :=
  (found_of_foldlM nodup_mapFiles (fun _ _ => rfl) hload).1 file (mem_mapFiles file)

/-- A loop over the files that fails does not return `EXIT_OK`. -/
theorem code_of_foldlM {files : List MapFile} {code : ℤ}
    (hload : files.foldlM (w.loadMap h) l = .error code) : code ≠ exitOk := by
  induction files generalizing l with
  | nil => cases hload
  | cons file files ih =>
    rw [List.foldlM_cons] at hload
    cases hround : w.loadMap h l file with
    | ok l₁ =>
      rw [hround] at hload
      exact ih hload
    | error code' =>
      rw [hround] at hload
      cases hload
      unfold World.loadMap at hround
      split at hround
      · split at hround
        · cases hround
        · split at hround <;> cases hround
          exact exitFail_ne
      · cases hround
        decide

/-- A load that fails for a map has the exit code of a failure. -/
theorem code_of_loadMaps {code : ℤ} (hload : w.loadMaps h = .error code) : code ≠ exitOk :=
  code_of_foldlM hload

/-- The export pins a marked map at its file when nothing is pinned there. -/
theorem foldl_exportMap {files : List MapFile} (hnodup : files.Nodup)
    (pinned : MapFile → Option ℕ) (file : MapFile) :
    files.foldl (l.exportMap h) pinned file =
      if file ∈ files ∧ l.marked file ∧ h.pins file ∧ pinned file = none then some (l.mapFd file)
      else pinned file := by
  induction files generalizing pinned with
  | nil => simp
  | cons f files ih =>
    obtain ⟨hnotMem, hnodup⟩ := List.nodup_cons.mp hnodup
    rw [List.foldl_cons, ih hnodup]
    by_cases heq : file = f
    · subst heq
      simp only [hnotMem, false_and, if_false, List.mem_cons_self, true_and, Loaded.exportMap]
      split
      · exact Function.update_self ..
      · rfl
    · have hkept : l.exportMap h pinned f file = pinned file := by
        unfold Loaded.exportMap
        split
        · exact Function.update_of_ne heq ..
        · rfl
      simp only [hkept, List.mem_cons, heq, false_or]

end Load

variable [DecidableEq Dev]

/-- `set_link_xdp_fd()`. -/
def World.attach (w : World Dev C) (d : Dev) (fds : Option (MapFile → ℕ)) : World Dev C :=
  { w with attached := Function.update w.attached d fds }

/-- The test entries. -/
def testEntries (host : Host) : List (Change C) :=
  [.addr host "198.18.50.3".toList actionAdd,
    .port ⟨80, actionAdd, Filter.udp.proto⟩ .udp host.portFaults]

/-- `main()` of the loader without `--remove`, with its exit code. -/
def World.load (w : World Dev C) (h : LoadHost) (d : Dev) : ℤ × Effect Dev C :=
  if h.rlimit ∧ h.elf then
    match w.loadMaps h with
    | .error code => (code, ⟨w, []⟩)
    | .ok l =>
        if h.accepts then
          let w := { w with
            loads := w.loads + 1
            store := Function.update w.store w.loads (Maps.zero C)
            pinned := mapFiles.foldl (l.exportMap h) w.pinned }
          match h.link with
          | .refused => (exitFailXdp, ⟨w, []⟩)
          | .unanswered => (exitFailXdp, ⟨w.attach d (some l.mapFd), []⟩)
          | .done =>
              (exitOk, ⟨w.attach d (some l.mapFd),
                (testEntries h.toHost).map fun e => (fun file => some (l.mapFd file), e)⟩)
        -- `prog_fd[0]` is not set
        else (exitFail, ⟨w, []⟩)
  else (exitFail, ⟨w, []⟩)

/-- What a load that gets as far as to export its maps does with the maps `fds`. -/
structure World.LoadsTo (w : World Dev C) (h : LoadHost) (d : Dev) (fds : MapFile → ℕ)
    (code : ℤ) (e : Effect Dev C) : Prop where
  found : ∀ file, w.pinned file = some (fds file) ∨ fds file = w.loads
  found_of_opens : ∀ file, h.opens file → fds file = (w.pinned file).getD w.loads
  loads : e.world.loads = w.loads + 1
  store : e.world.store = Function.update w.store w.loads (Maps.zero C)
  pinned : ∀ file, e.world.pinned file =
    if w.pinned file = none ∧ h.pins file then some w.loads else w.pinned file
  attached : code ≠ exitOk ∧ e.world.attached = w.attached ∧ e.changes = [] ∨
    e.world.attached = Function.update w.attached d (some fds) ∧
      (e.changes = [] ∨
        e.changes = (testEntries h.toHost).map fun c => (fun file => some (fds file), c))

/-- **What the loader does**: nothing that lasts, unless it gets as far as to export its maps. -/
theorem load_cases (w : World Dev C) (h : LoadHost) (d : Dev) :
    (w.load h d).1 ≠ exitOk ∧ (w.load h d).2 = ⟨w, []⟩ ∨
      ∃ fds, w.LoadsTo h d fds (w.load h d).1 (w.load h d).2 := by
  rw [World.load]
  split
  swap
  · exact .inl ⟨exitFail_ne, rfl⟩
  cases hload : w.loadMaps h with
  | error code => exact .inl ⟨code_of_loadMaps hload, rfl⟩
  | ok l =>
    dsimp only
    split
    swap
    · exact .inl ⟨exitFail_ne, rfl⟩
    have hfound := found_of_loadMaps hload
    have hfds : ∀ file, w.pinned file = some (l.mapFd file) ∨ l.mapFd file = w.loads :=
      fun file => (hfound file).imp And.left And.left
    have hopens : ∀ file, h.opens file → l.mapFd file = (w.pinned file).getD w.loads := by
      intro file hopens
      rcases hfound file with ⟨hpinned, -⟩ | ⟨hfd, -, hnone⟩
      · rw [hpinned, Option.getD_some]
      · rw [hnone hopens, Option.getD_none, hfd]
    have hpinned : ∀ file, mapFiles.foldl (l.exportMap h) w.pinned file =
        if w.pinned file = none ∧ h.pins file then some w.loads else w.pinned file := by
      intro file
      rw [foldl_exportMap nodup_mapFiles]
      rcases hfound file with ⟨hpinned, hmarked⟩ | ⟨hfd, hmarked, -⟩
      · simp [hpinned, hmarked]
      · simp [hfd, hmarked, mem_mapFiles, and_comm]
    refine .inr ⟨l.mapFd, ?_⟩
    cases h.link with
    | refused => exact ⟨hfds, hopens, rfl, rfl, hpinned, .inl ⟨exitFailXdp_ne, rfl, rfl⟩⟩
    | unanswered => exact ⟨hfds, hopens, rfl, rfl, hpinned, .inr ⟨rfl, .inl rfl⟩⟩
    | done => exact ⟨hfds, hopens, rfl, rfl, hpinned, .inr ⟨rfl, .inr rfl⟩⟩

/-- `remove_xdp_program()`. -/
def World.remove (w : World Dev C) (detaches : Bool) (unlinks : MapFile → Bool) (d : Dev) :
    Effect Dev C :=
  let w := if detaches then w.attach d none else w
  ⟨{ w with pinned := fun file => if unlinks file then none else w.pinned file }, []⟩

/-! ## The tool and the packets -/

/-- The tool can open a file. -/
def World.opens (w : World Dev C) (host : Host) (file : MapFile) : Bool :=
  host.opens file && (w.pinned file).isSome

/-- What surrounds the tool: only files that are there can be opened. -/
def World.surround (w : World Dev C) (host : Host) : Host := { host with opens := w.opens host }

/-- The files whose maps a change may change. -/
def Change.files : Change C → List MapFile
  | .addr .. => [.blacklist]
  | .port _ countfd _ => [.portBlacklist, .portBlacklistCount countfd]
  | .packet .. => mapFiles

/-- What the tool is told to change. -/
def Options.commands (o : Options) (host : Host) : List (Change C) :=
  (o.ipString.map fun ip => .addr host ip o.action).toList ++
    if o.dport ≠ 0 then [.port ⟨o.dport, o.action, o.proto⟩ o.filter host.portFaults] else []

/-- The changes that `main()` of the tool makes. It exits at the first file that it cannot open. -/
def toolChanges (host : Host) (argv : List Word) : List (Change C) :=
  match Options.parse (optionsOf argv) with
  | .error _ => []
  | .ok o =>
      if host.opens .verdict ∧ o.action ≠ 0 then
        (o.commands host).takeWhile fun e => e.files.all host.opens
      else []

/-- `main()` of the tool. -/
def World.tool (w : World Dev C) (host : Host) (argv : List Word) : Effect Dev C :=
  ⟨w, (toolChanges (w.surround host) argv).map fun e => (w.pinned, e)⟩

/-- The program sees a packet on a device that runs it. -/
def World.packet (w : World Dev C) (d : Dev) (cpu : Fin C) (p : Packet) : Effect Dev C :=
  ⟨w, ((w.attached d).map fun fds => (fun file => some (fds file), .packet cpu p)).toList⟩

/-! ## Runs -/

/-- What happens on the machine. -/
inductive Operation (Dev : Type*) (C : ℕ) where
  | load (h : LoadHost) (d : Dev)
  | remove (detaches : Bool) (unlinks : MapFile → Bool) (d : Dev)
  | tool (host : Host) (argv : List Word)
  | packet (d : Dev) (cpu : Fin C) (p : Packet)

/-- What an operation does before its changes of the maps are made. -/
def World.effect (w : World Dev C) : Operation Dev C → Effect Dev C
  | .load h d => (w.load h d).2
  | .remove detaches unlinks d => w.remove detaches unlinks d
  | .tool host argv => w.tool host argv
  | .packet d cpu p => w.packet d cpu p

/-- The world after an operation. -/
def World.step (w : World Dev C) (op : Operation Dev C) : World Dev C :=
  (w.effect op).changes.foldl World.change (w.effect op).world

/-- The world after a run. -/
def World.run (w : World Dev C) (ops : List (Operation Dev C)) : World Dev C :=
  ops.foldl World.step w

/-- The changes that are made to a map. -/
def changesAt (changes : List ((MapFile → Option ℕ) × Change C)) (file : MapFile) (n : ℕ) :
    List (Change C) :=
  changes.filterMap fun c => if c.1 file = some n then some c.2 else none

/-- **The history of a map**: the changes that a run makes to it. -/
def World.history (w : World Dev C) : List (Operation Dev C) → MapFile → ℕ → List (Change C)
  | [], _, _ => []
  | op :: ops, file, n =>
      changesAt (w.effect op).changes file n ++ (w.step op).history ops file n

/-- The operation neither puts a program on the device nor takes it off. -/
def Operation.leaves (d : Dev) : Operation Dev C → Prop
  | .load _ d' | .remove _ _ d' => d' ≠ d
  | _ => True

/-- The operation unlinks a file. -/
def Operation.unlinks (file : MapFile) : Operation Dev C → Bool
  | .remove _ unlinks _ => unlinks file
  | _ => false

/-! ## The tool does what its `main()` does -/

/-- The map behind a file is the same. -/
def Maps.SameAt (m m' : Maps C) : MapFile → Prop
  | .blacklist => m'.blacklist = m.blacklist
  | .verdict => m'.verdictCnt = m.verdictCnt
  | .portBlacklist => m'.portBlacklist = m.portBlacklist
  | .portBlacklistCount f => m'.dropCountByFproto f = m.dropCountByFproto f

/-- Being the same at a file is symmetric. -/
theorem Maps.SameAt.symm {m m' : Maps C} {file : MapFile} (h : m.SameAt m' file) :
    m'.SameAt m file := by
  cases file <;> exact Eq.symm h

/-- Being the same at a file is transitive. -/
theorem Maps.SameAt.trans {m m' m'' : Maps C} {file : MapFile} (h : m.SameAt m' file)
    (h' : m'.SameAt m'' file) : m.SameAt m'' file := by
  cases file <;> exact Eq.trans h' h

/-- Maps are given by those behind the files. -/
theorem eq_of_sameAt {m m' : Maps C} (h : ∀ file, m.SameAt m' file) : m' = m := by
  obtain ⟨blacklist, verdictCnt, portBlacklist, countTcp, countUdp⟩ := m
  obtain ⟨blacklist', verdictCnt', portBlacklist', countTcp', countUdp'⟩ := m'
  obtain rfl : blacklist' = blacklist := h .blacklist
  obtain rfl : verdictCnt' = verdictCnt := h .verdict
  obtain rfl : portBlacklist' = portBlacklist := h .portBlacklist
  obtain rfl : countTcp' = countTcp := h (.portBlacklistCount .tcp)
  obtain rfl : countUdp' = countUdp := h (.portBlacklistCount .udp)
  rfl

/-- The mixed maps have at each file the map chosen for it. -/
theorem sameAt_mix (ms : MapFile → Maps C) (file : MapFile) :
    (ms file).SameAt (Maps.mix ms) file := by
  cases file with
  | portBlacklistCount f => cases f <;> rfl
  | blacklist | verdict | portBlacklist => rfl

/-- A change leaves the maps behind the other files alone. -/
theorem sameAt_change {e : Change C} {file : MapFile} (h : file ∉ e.files) (m : Maps C) :
    m.SameAt (m.change e) file := by
  cases e with
  | addr host ipString action =>
    rw [Maps.change, result_blacklistModify]
    cases file with
    | blacklist => exact absurd List.mem_cons_self h
    | portBlacklistCount f => cases f <;> rfl
    | verdict | portBlacklist => rfl
  | packet cpu p => exact absurd (mem_mapFiles file) h
  | port c countfd faults =>
    obtain ⟨hblacklist, hverdict⟩ := rest_port m c countfd faults
    cases file with
    | blacklist => exact hblacklist
    | verdict => exact hverdict
    | portBlacklist => exact absurd List.mem_cons_self h
    | portBlacklistCount f =>
      have hne : f ≠ countfd := by
        rintro rfl
        exact h (List.mem_cons_of_mem _ List.mem_cons_self)
      show (m.change (.port c countfd faults)).dropCountByFproto f = m.dropCountByFproto f
      rw [Maps.change]
      cases hreq : c.request with
      | none => rw [modify_of_invalid hreq]
      | some r =>
        rw [modify_of_request hreq]
        cases faults.update with
        | some errno => rfl
        | none =>
          dsimp only
          split
          · cases f <;> rfl
          · split
            · cases f <;> rfl
            · rw [dropCountByFproto_setDropCount_of_ne _ _ hne]
              cases f <;> rfl

omit [DecidableEq Dev] in
/-- A change within files that are there is one of the maps behind all of them. -/
theorem mapsOf_change {w : World Dev C} {fds : MapFile → Option ℕ} {e : Change C}
    (h : ∀ file ∈ e.files, fds file ≠ none) :
    (w.change (fds, e)).mapsOf fds = (w.mapsOf fds).change e := by
  refine eq_of_sameAt fun file => ?_
  have hnew := sameAt_mix (fun file => (fds file).elim (Maps.zero C) (w.change (fds, e)).store) file
  refine Maps.SameAt.trans ?_ hnew
  cases hfd : fds file with
  | some n =>
    -- the file leads to the changed map
    have hmap := sameAt_mix
      (fun file => if fds file = some n then (w.mapsOf fds).change e else w.store n) file
    rwa [if_pos hfd] at hmap
  | none =>
    have hold := sameAt_mix (fun file => (fds file).elim (Maps.zero C) w.store) file
    rw [hfd] at hold
    exact (hold.trans (sameAt_change (fun hmem => h file hmem hfd) _)).symm

omit [DecidableEq Dev] in
/-- Changes through descriptors that are all open are changes of the maps behind them. -/
theorem mapsOf_foldl {w : World Dev C} {fds : MapFile → Option ℕ} {es : List (Change C)}
    (h : ∀ e ∈ es, ∀ file ∈ e.files, fds file ≠ none) :
    ((es.map fun e => (fds, e)).foldl World.change w).mapsOf fds = (w.mapsOf fds).changes es := by
  induction es generalizing w with
  | nil => rfl
  | cons e es ih =>
    obtain ⟨he, hes⟩ := List.forall_mem_cons.mp h
    rw [List.map_cons, List.foldl_cons, ih hes, mapsOf_change he]
    rfl

/-- The maps as `main()` leaves them when it exits: it may have changed the address before. -/
def exitMaps (host : Host) (m : Maps C) (argv : List Word) : Maps C :=
  match Options.parse (optionsOf argv) with
  | .error _ => m
  | .ok o =>
      if host.opens .verdict ∧ o.action ≠ 0 then
        match (modifyIp host m o).result with
        | .error _ => m
        | .ok res => res.2
      else m

/-- The address of the command line is changed if the file opens. -/
theorem result_modifyIp (host : Host) (m : Maps C) (o : Options) :
    (∃ stop, (modifyIp host m o).result = .error stop ∧
        (∃ ip, o.ipString = some ip) ∧ host.opens .blacklist = false) ∨
      ∃ code, (modifyIp host m o).result = .ok (code,
          m.changes (o.ipString.map fun ip => Change.addr host ip o.action).toList) ∧
        ∀ ip, o.ipString = some ip → host.opens .blacklist = true := by
  unfold modifyIp
  cases hip : o.ipString with
  | none => exact .inr ⟨exitOk, rfl, nofun⟩
  | some ip =>
    by_cases hopens : host.opens .blacklist = true
    · refine .inr ?_
      dsimp only
      rw [openBpfMap_of_opens hopens, Logged.pure_bind, Maps.changes, Option.map_some,
        Option.toList_some, List.foldl_cons, List.foldl_nil, Maps.change]
      rw [result_blacklistModify]
      exact ⟨_, rfl, fun _ _ => hopens⟩
    · refine .inl ⟨.exit exitFailMapFile, ?_, ⟨ip, rfl⟩, Bool.eq_false_of_not_eq_true hopens⟩
      dsimp only
      rw [openBpfMap, if_neg hopens]
      rfl

/-- The port of the command line is changed if both files open. -/
theorem result_modifyPort (host : Host) (o : Options) (res : ℤ × Maps C) :
    (∃ stop, (modifyPort host o res).result = .error stop ∧ o.dport ≠ 0 ∧
        (host.opens .portBlacklist && host.opens (.portBlacklistCount o.filter)) = false) ∨
      ∃ code, (modifyPort host o res).result = .ok (code, res.2.changes (if o.dport ≠ 0 then
          [.port ⟨o.dport, o.action, o.proto⟩ o.filter host.portFaults] else [])) ∧
        (o.dport ≠ 0 →
          (host.opens .portBlacklist && host.opens (.portBlacklistCount o.filter)) = true) := by
  unfold modifyPort
  by_cases hdport : o.dport ≠ 0
  swap
  · rw [if_neg hdport, if_neg hdport]
    exact .inr ⟨res.1, rfl, fun h => absurd h hdport⟩
  rw [if_pos hdport, if_pos hdport]
  by_cases hports : host.opens .portBlacklist = true
  swap
  · refine .inl ⟨.exit exitFailMapFile, ?_, hdport, ?_⟩
    · rw [openBpfMap, if_neg hports]
      rfl
    · rw [Bool.eq_false_of_not_eq_true hports, Bool.false_and]
  rw [openBpfMap_of_opens hports, Logged.pure_bind, hports, Bool.true_and]
  by_cases hcount : host.opens (.portBlacklistCount o.filter) = true
  swap
  · refine .inl ⟨.exit exitFailMapFile, ?_, hdport, Bool.eq_false_of_not_eq_true hcount⟩
    rw [openBpfMap, if_neg hcount]
    rfl
  · let c : Call := ⟨o.dport, o.action, o.proto⟩
    refine .inr ⟨(c.modify o.filter host.portFaults res.2).1, ?_, fun _ => hcount⟩
    rw [openBpfMap_of_opens hcount, Logged.pure_bind]
    dsimp only
    exact (Logged.result_write_bind _ _).trans (result_modifyBuffers ..)

/-- The changes that are made for the address and the port. -/
theorem changes_commands (host : Host) (m : Maps C) (o : Options) :
    m.changes ((o.commands host).takeWhile fun e => e.files.all host.opens) =
      match (modifyIp host m o >>= modifyPort host o).result with
      | .ok res => res.2
      | .error _ =>
          match (modifyIp host m o).result with
          | .error _ => m
          | .ok res => res.2 := by
  rcases result_modifyIp host m o with ⟨stop, hip, ⟨ip, hsome⟩, hopens⟩ | ⟨code, hip, hopens⟩
  · -- it exits before the first change
    rw [Logged.result_bind_of_error hip, hip, Options.commands, hsome]
    simp [Change.files, hopens, Maps.changes]
  have haddr : ∀ e ∈ (o.ipString.map fun ip => (.addr host ip o.action : Change C)).toList,
      e.files.all host.opens = true := by
    intro e he
    obtain ⟨ip, hsome, rfl⟩ := Option.map_eq_some_iff.mp (Option.mem_toList.mp he)
    simp [Change.files, hopens ip hsome]
  rw [Logged.result_bind_of_ok hip, hip, Options.commands, List.takeWhile_append_of_pos haddr]
  rcases result_modifyPort host o (code, m.changes (o.ipString.map fun ip =>
      Change.addr host ip o.action).toList) with ⟨stop, hport, hdport, hclosed⟩ |
    ⟨code', hport, hopen⟩
  · -- it exits between the address and the port
    rw [hport, if_pos hdport]
    simp [Change.files, hclosed]
  · rw [hport]
    dsimp only
    rw [Maps.changes, List.foldl_append]
    by_cases hdport : o.dport ≠ 0
    · rw [if_pos hdport]
      simp [Change.files, hopen hdport, Maps.changes]
    · rw [if_neg hdport]
      rfl

/-- **The changes are those of `main()`**, also when it exits. -/
theorem changes_toolChanges (host : Host) (m : Maps C) (argv : List Word) (fuel : ℕ) :
    m.changes (toolChanges host argv) =
      match (main host m argv fuel).result with
      | .ok res => res.2
      | .error _ => exitMaps host m argv := by
  cases hparse : Options.parse (optionsOf argv) with
  | error code =>
    rw [main, toolChanges, exitMaps, hparse]
    rfl
  | ok o =>
    rw [main_of_parse hparse, toolChanges, exitMaps, hparse]
    dsimp only
    unfold runOptions
    by_cases hverdict : host.opens .verdict = true
    swap
    · have hnot : ¬ (host.opens .verdict = true ∧ o.action ≠ 0) := fun h => hverdict h.1
      rw [openBpfMap, if_neg hverdict, if_neg hnot, if_neg hnot]
      rfl
    rw [openBpfMap_of_opens hverdict, Logged.pure_bind]
    by_cases haction : o.action ≠ 0
    swap
    · -- nothing is changed
      have hnot : ¬ (host.opens .verdict = true ∧ o.action ≠ 0) := fun h => haction h.2
      rw [if_neg haction, if_neg hnot, if_neg hnot]
      split
      · rename_i res hres
        split at hres
        · cases hres
        · obtain ⟨_, -, hres⟩ := Logged.result_bind_eq_ok.mp hres
          obtain ⟨_, -, hres⟩ := Logged.result_bind_eq_ok.mp hres
          cases hres
          rfl
      · rfl
    rw [if_pos haction, if_pos (And.intro hverdict haction), if_pos (And.intro hverdict haction)]
    by_cases hnone : o.ipString = none ∧ o.dport = 0
    · rw [if_pos hnone, Options.commands, modifyIp, hnone.1, if_neg (not_not_intro hnone.2)]
      rfl
    · rw [if_neg hnone]
      exact changes_commands host m o

/-- **The tool does what its `main()` does** to the maps behind the files. -/
theorem mapsOf_tool (w : World Dev C) (host : Host) (argv : List Word) (fuel : ℕ) :
    (w.step (.tool host argv)).mapsOf w.pinned =
      match (main (w.surround host) (w.mapsOf w.pinned) argv fuel).result with
      | .ok res => res.2
      | .error _ => exitMaps (w.surround host) (w.mapsOf w.pinned) argv := by
  rw [← changes_toolChanges]
  refine mapsOf_foldl fun e he file hfile => ?_
  have hopens : e.files.all (w.surround host).opens = true := by
    rw [toolChanges] at he
    split at he
    · cases he
    · split at he
      · exact List.all_eq_true.mp List.all_takeWhile e he
      · cases he
  have hpinned : (host.opens file && (w.pinned file).isSome) = true :=
    List.all_eq_true.mp hopens file hfile
  exact Option.isSome_iff_ne_none.mp (Bool.and_eq_true_iff.mp hpinned).2

end DdosBlacklist
