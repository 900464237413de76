import PrototypeKernel.BpfLoad.Loader
import Mathlib.Data.List.Induction
import Mathlib.Logic.Function.Basic

/-! # Maps with a fixup callback

`load_maps()` with its callback, which may give a map a file descriptor before the map is created.
The loop keeps `map_fd[]`, `map_data[]` and `prog_array_fd` in step, except for a program array with
a descriptor of the callback: the loop goes on before it looks at the type of the map. -/

namespace BpfLoad

/-- `BPF_MAP_TYPE_PROG_ARRAY`. -/
def bpfMapTypeProgArray : ℕ := 3

/-- A map of maps. -/
def BpfMapDef.isMapInMap (d : BpfMapDef) : Bool :=
  d.type = bpfMapTypeArrayOfMaps || d.type = bpfMapTypeHashOfMaps

/-- A map-in-map is an array or a hash of maps. -/
theorem isMapInMap_iff {d : BpfMapDef} :
    d.isMapInMap ↔ d.type = bpfMapTypeArrayOfMaps ∨ d.type = bpfMapTypeHashOfMaps := by
  simp [BpfMapDef.isMapInMap]

/-- A call of `bpf_create_map` for map `idx`, or of `bpf_create_map_in_map` when there is an
`inner_map_fd`. -/
structure CreateCall where
  idx : ℕ
  mapDef : BpfMapDef
  innerMapFd : Option ℤ
  deriving DecidableEq, Repr

/-- The globals that `load_maps` writes, and the calls it has made. `maps` are the entries of
`map_data[]` that the loop has visited. -/
structure MapTables where
  mapFd : Fin maxMaps → ℤ
  maps : List BpfMapData
  progArrayFd : ℤ
  created : List CreateCall

section Loop

/-- `fixup_map_cb`: what it makes of the map it is called for. -/
abbrev FixupMapCb := BpfMapData → ℕ → BpfMapData

variable (fixup : Option FixupMapCb) (createMap : ℕ → ℤ)

/-- Entry `x.2` of `map_data[]` after the callback, if there is one. -/
def fixupMap (x : BpfMapData × ℕ) : BpfMapData :=
  match fixup with
  | none => x.1
  | some fixup => fixup x.1 x.2

/-- The callback has assigned a descriptor. -/
def assigned (x : BpfMapData × ℕ) : Bool := fixup.isSome && (fixupMap fixup x).fd != -1

/-- `map_fd[i] = maps[i].fd`. -/
def MapTables.push (s : MapTables) (i : Fin maxMaps) (m : BpfMapData) : MapTables :=
  { s with mapFd := Function.update s.mapFd i m.fd, maps := s.maps ++ [m] }

/-- The rest of the loop body after map `i` is created. -/
def MapTables.record (s : MapTables) (i : Fin maxMaps) (m : BpfMapData) (innerMapFd : Option ℤ)
    (fd : ℤ) : MapTables :=
  { s.push i { m with fd := fd } with
    progArrayFd := if m.mapDef.type = bpfMapTypeProgArray then fd else s.progArrayFd
    created := s.created ++ [⟨i, m.mapDef, innerMapFd⟩] }

/-- The call that creates a map, and what follows it. -/
def MapTables.create (s : MapTables) (i : Fin maxMaps) (m : BpfMapData) (innerMapFd : Option ℤ) :
    Except Stop MapTables :=
  if createMap i < 0 then .error (.ret 1) else .ok (s.record i m innerMapFd (createMap i))

/-- The body of the loop of `load_maps`. -/
def fixupAndLoadMap (s : MapTables) (x : BpfMapData × ℕ) : Except Stop MapTables :=
  let m := fixupMap fixup x
  if hi : x.2 < maxMaps then
    if assigned fixup x then
      .ok (s.push ⟨x.2, hi⟩ m)
    else if m.mapDef.isMapInMap then
      if hinner : m.mapDef.innerMapIdx < maxMaps then
        s.create createMap ⟨x.2, hi⟩ m (some (s.mapFd ⟨m.mapDef.innerMapIdx, hinner⟩))
      else
        .error .crash
    else
      s.create createMap ⟨x.2, hi⟩ m none
  else
    .error .crash

/-- `load_maps`, from the contents of `map_fd[]` and `prog_array_fd` that an earlier load has left.
-/
def fixupAndLoadMaps (mapFd : Fin maxMaps → ℤ) (progArrayFd : ℤ) (maps : List BpfMapData) :
    Except Stop MapTables :=
  maps.zipIdx.foldlM (fixupAndLoadMap fixup createMap) ⟨mapFd, [], progArrayFd, []⟩

/-! ## What is asked for -/

/-- The last program array of some maps. -/
def lastProgArray (maps : List BpfMapData) : Option BpfMapData :=
  (maps.filter fun m => m.mapDef.type = bpfMapTypeProgArray).getLast?

/-- **The tables are in step.** -/
structure MapTables.InStep (s : MapTables) : Prop where
  mapFd : ∀ (i : Fin maxMaps) m, s.maps[(i : ℕ)]? = some m → s.mapFd i = m.fd
  /-- A map of maps is created with the descriptor of a map before it. -/
  inner : ∀ c ∈ s.created, c.mapDef.isMapInMap → ∃ m, c.mapDef.innerMapIdx < c.idx ∧
    s.maps[c.mapDef.innerMapIdx]? = some m ∧ c.innerMapFd = some m.fd
  progArray : ∀ m, lastProgArray s.maps = some m → s.progArrayFd = m.fd

/-- The tables are in step if the load returns 0. -/
def LoadedInStep : Except Stop MapTables → Prop
  | .ok s => s.InStep
  | .error (.ret _) => True
  | .error .crash => False

/-- How a map ends the loop: outside of the tables, or when its creation fails. -/
def stopAt (x : BpfMapData × ℕ) : Option Stop :=
  if maxMaps ≤ x.2 then some .crash
  else if assigned fixup x then none
  else if (fixupMap fixup x).mapDef.isMapInMap ∧
      maxMaps ≤ (fixupMap fixup x).mapDef.innerMapIdx then
    some .crash
  else if createMap x.2 < 0 then some (.ret 1)
  else none

/-- The program arrays of some maps, that have been created or not. -/
def isProgArray (x : BpfMapData × ℕ) : Bool :=
  (fixupMap fixup x).mapDef.type = bpfMapTypeProgArray

/-- The descriptor of the last program array that is created. -/
def lastCreatedProgArray (progArrayFd : ℤ) (xs : List (BpfMapData × ℕ)) : ℤ :=
  (((xs.filter fun x => isProgArray fixup x && !assigned fixup x).getLast?).map
    fun x => createMap x.2).getD progArrayFd

/-- **When the tables are in step**: a map of maps that is created refers to a map before it, and
the last program array is created, or assigned what `prog_array_fd` is already. -/
structure FixupFits (progArrayFd : ℤ) (xs : List (BpfMapData × ℕ)) : Prop where
  inner : ∀ x ∈ xs, ¬ assigned fixup x → (fixupMap fixup x).mapDef.isMapInMap →
    (fixupMap fixup x).mapDef.innerMapIdx < x.2
  progArray : ∀ x, (xs.filter (isProgArray fixup)).getLast? = some x → assigned fixup x →
    (fixupMap fixup x).fd = lastCreatedProgArray fixup createMap progArrayFd xs

end Loop

/-! ## One map -/

variable {fixup : Option FixupMapCb} {createMap : ℕ → ℤ} {s s' : MapTables}
  {x : BpfMapData × ℕ} {xs : List (BpfMapData × ℕ)} {progArrayFd : ℤ}

/-- What a map does to the tables. -/
theorem fixupAndLoadMap_cases (h : fixupAndLoadMap fixup createMap s x = .ok s') :
    ∃ hi : x.2 < maxMaps,
      (assigned fixup x ∧ s' = s.push ⟨x.2, hi⟩ (fixupMap fixup x)) ∨
        (assigned fixup x = false ∧ ∃ innerMapFd,
          s' = s.record ⟨x.2, hi⟩ (fixupMap fixup x) innerMapFd (createMap x.2) ∧
          ((fixupMap fixup x).mapDef.isMapInMap → ∃ hinner,
            innerMapFd = some (s.mapFd ⟨(fixupMap fixup x).mapDef.innerMapIdx, hinner⟩))) := by
  unfold fixupAndLoadMap at h
  dsimp only at h
  split_ifs at h with hi hassigned hmim hinner
  · cases h
    exact ⟨hi, .inl ⟨hassigned, rfl⟩⟩
  · unfold MapTables.create at h
    split_ifs at h
    cases h
    exact ⟨hi, .inr ⟨Bool.eq_false_iff.mpr hassigned, _, rfl, fun _ => ⟨hinner, rfl⟩⟩⟩
  · unfold MapTables.create at h
    split_ifs at h
    cases h
    exact ⟨hi, .inr ⟨Bool.eq_false_iff.mpr hassigned, _, rfl, fun hmim' => absurd hmim' hmim⟩⟩

/-- A map that does not stop the loop. -/
theorem exists_fixupAndLoadMap_eq_ok (h : stopAt fixup createMap x = none) (s : MapTables) :
    ∃ s', fixupAndLoadMap fixup createMap s x = .ok s' := by
  unfold stopAt at h
  split_ifs at h with hi hassigned hinner hfd
  · exact ⟨_, by rw [fixupAndLoadMap, dif_pos (not_le.mp hi), if_pos hassigned]⟩
  · rw [fixupAndLoadMap, dif_pos (not_le.mp hi), if_neg hassigned]
    split_ifs with hmim hlt
    · exact ⟨_, if_neg hfd⟩
    · exact absurd ⟨hmim, not_lt.mp hlt⟩ hinner
    · exact ⟨_, if_neg hfd⟩

/-- A map that stops the loop. -/
theorem fixupAndLoadMap_eq_error {e : Stop} (h : stopAt fixup createMap x = some e)
    (s : MapTables) : fixupAndLoadMap fixup createMap s x = .error e := by
  unfold stopAt at h
  split_ifs at h with hi hassigned hinner hfd
  · cases h
    rw [fixupAndLoadMap, dif_neg (not_lt.mpr hi)]
  · cases h
    rw [fixupAndLoadMap, dif_pos (not_le.mp hi), if_neg hassigned]
    rw [if_pos hinner.1, dif_neg (not_lt.mpr hinner.2)]
  · cases h
    rw [fixupAndLoadMap, dif_pos (not_le.mp hi), if_neg hassigned]
    split_ifs with hmim hlt
    · exact if_pos hfd
    · exact absurd ⟨hmim, not_lt.mp hlt⟩ hinner
    · exact if_pos hfd

/-! ## The loop -/

/-- A map as the loop leaves it. -/
def finishMap (fixup : Option FixupMapCb) (createMap : ℕ → ℤ) (x : BpfMapData × ℕ) : BpfMapData :=
  if assigned fixup x then fixupMap fixup x else { fixupMap fixup x with fd := createMap x.2 }

/-- A map keeps the definition that the callback leaves it. -/
theorem mapDef_finishMap (fixup : Option FixupMapCb) (createMap : ℕ → ℤ) (x : BpfMapData × ℕ) :
    (finishMap fixup createMap x).mapDef = (fixupMap fixup x).mapDef := by
  unfold finishMap
  split <;> rfl

/-- The tables after the maps `xs`. -/
structure Filled (fixup : Option FixupMapCb) (createMap : ℕ → ℤ) (progArrayFd : ℤ)
    (xs : List (BpfMapData × ℕ)) (s : MapTables) : Prop where
  maps_eq : s.maps = xs.map (finishMap fixup createMap)
  mapFd : ∀ (i : Fin maxMaps) m, s.maps[(i : ℕ)]? = some m → s.mapFd i = m.fd
  created : ∀ c ∈ s.created, ∃ x ∈ xs, assigned fixup x = false ∧ c.idx = x.2 ∧
    c.mapDef = (fixupMap fixup x).mapDef ∧
    (c.mapDef.isMapInMap → c.mapDef.innerMapIdx < c.idx →
      ∃ m, s.maps[c.mapDef.innerMapIdx]? = some m ∧ c.innerMapFd = some m.fd)
  exists_created : ∀ x ∈ xs, assigned fixup x = false →
    ∃ c ∈ s.created, c.idx = x.2 ∧ c.mapDef = (fixupMap fixup x).mapDef
  progArrayFd_eq : s.progArrayFd = lastCreatedProgArray fixup createMap progArrayFd xs

/-- The tables before the first map. -/
theorem filled_nil (fixup : Option FixupMapCb) (createMap : ℕ → ℤ) (mapFd : Fin maxMaps → ℤ)
    (progArrayFd : ℤ) : Filled fixup createMap progArrayFd [] ⟨mapFd, [], progArrayFd, []⟩ where
  maps_eq := rfl
  mapFd i m h := by cases h
  created c h := by cases h
  exists_created x h := by cases h
  progArrayFd_eq := rfl

/-- The next entries of the two tables are in step. -/
theorem mapFd_push {i : Fin maxMaps} (hi : (i : ℕ) = s.maps.length)
    (h : ∀ (j : Fin maxMaps) m, s.maps[(j : ℕ)]? = some m → s.mapFd j = m.fd) (m : BpfMapData)
    (j : Fin maxMaps) (m' : BpfMapData) (hj : (s.push i m).maps[(j : ℕ)]? = some m') :
    (s.push i m).mapFd j = m'.fd := by
  have hmaps : (s.push i m).maps = s.maps ++ [m] := rfl
  have hmapFd : (s.push i m).mapFd = Function.update s.mapFd i m.fd := rfl
  rw [hmaps, List.getElem?_append] at hj
  rw [hmapFd]
  by_cases hij : j = i
  · subst hij
    rw [hi, if_neg (lt_irrefl _), Nat.sub_self] at hj
    cases hj
    exact Function.update_self ..
  · rw [Function.update_of_ne hij]
    split_ifs at hj with hlt
    · exact h j m' hj
    · -- there is no entry behind the new one
      have hne : (j : ℕ) ≠ i := fun heq => hij (Fin.ext heq)
      rw [List.getElem?_eq_none (by rw [List.length_singleton]; omega)] at hj
      cases hj

/-- A call that is made before keeps its map. -/
theorem getElem?_push {i : Fin maxMaps} {m m' : BpfMapData} {j : ℕ} (h : s.maps[j]? = some m') :
    (s.push i m).maps[j]? = some m' := by
  have hj := (List.getElem?_eq_some_iff.mp h).1
  exact (List.getElem?_append_left hj).trans h

/-- The calls that are made before find their maps in the longer table. -/
theorem Filled.created_push (h : Filled fixup createMap progArrayFd xs s) (i : Fin maxMaps)
    (x : BpfMapData × ℕ) (m : BpfMapData) {c : CreateCall} (hc : c ∈ s.created) :
    ∃ y ∈ xs ++ [x], assigned fixup y = false ∧ c.idx = y.2 ∧
      c.mapDef = (fixupMap fixup y).mapDef ∧
      (c.mapDef.isMapInMap → c.mapDef.innerMapIdx < c.idx →
        ∃ m', (s.push i m).maps[c.mapDef.innerMapIdx]? = some m' ∧ c.innerMapFd = some m'.fd) := by
  obtain ⟨y, hy, hcreated, hidx, hdef, hinner⟩ := h.created c hc
  refine ⟨y, List.mem_append_left _ hy, hcreated, hidx, hdef, fun hmim hlt => ?_⟩
  obtain ⟨m', hm', hfd⟩ := hinner hmim hlt
  exact ⟨m', getElem?_push hm', hfd⟩

/-- A map whose descriptor the callback gives is appended to the tables. -/
theorem Filled.push (h : Filled fixup createMap progArrayFd xs s) {i : Fin maxMaps}
    (hx : x.2 = xs.length) (hi : (i : ℕ) = x.2) (hassigned : assigned fixup x) :
    Filled fixup createMap progArrayFd (xs ++ [x]) (s.push i (fixupMap fixup x)) := by
  have hlength : s.maps.length = xs.length := by rw [h.maps_eq, List.length_map]
  constructor
  case maps_eq =>
    rw [List.map_append, ← h.maps_eq, List.map_singleton, finishMap, if_pos hassigned]
    rfl
  case mapFd => exact mapFd_push (by omega) h.mapFd _
  case created => exact fun c hc => h.created_push i x _ hc
  case exists_created =>
    intro y hy hcreated
    obtain hy | hy := List.mem_append.mp hy
    · exact h.exists_created y hy hcreated
    · rw [List.mem_singleton.mp hy, hassigned] at hcreated
      cases hcreated
  case progArrayFd_eq =>
    rw [lastCreatedProgArray, List.filter_append]
    simp only [List.filter_singleton, hassigned, Bool.not_true, Bool.and_false]
    rw [cond_false, List.append_nil]
    exact h.progArrayFd_eq

/-- A map that is created is appended to the tables, and its creation is recorded. -/
theorem Filled.record (h : Filled fixup createMap progArrayFd xs s) {i : Fin maxMaps}
    (hx : x.2 = xs.length) (hi : (i : ℕ) = x.2) (hassigned : assigned fixup x = false)
    {innerMapFd : Option ℤ} (hinner : (fixupMap fixup x).mapDef.isMapInMap →
      ∃ hinner, innerMapFd = some (s.mapFd ⟨(fixupMap fixup x).mapDef.innerMapIdx, hinner⟩)) :
    Filled fixup createMap progArrayFd (xs ++ [x])
      (s.record i (fixupMap fixup x) innerMapFd (createMap x.2)) := by
  have hlength : s.maps.length = xs.length := by rw [h.maps_eq, List.length_map]
  constructor
  case maps_eq =>
    rw [List.map_append, ← h.maps_eq, List.map_singleton, finishMap, hassigned]
    rfl
  case mapFd => exact mapFd_push (by omega) h.mapFd { fixupMap fixup x with fd := createMap x.2 }
  case created =>
    intro c hc
    obtain hc | hc := List.mem_append.mp hc
    · exact h.created_push i x { fixupMap fixup x with fd := createMap x.2 } hc
    · cases List.mem_singleton.mp hc
      refine ⟨x, by simp, hassigned, hi, rfl, fun hmim hlt => ?_⟩
      -- the map it refers to has been visited
      obtain ⟨hroom, hfd⟩ := hinner hmim
      have hvisited : (fixupMap fixup x).mapDef.innerMapIdx < s.maps.length := by
        dsimp only at hlt
        omega
      refine ⟨_, getElem?_push (i := i) (List.getElem?_eq_getElem hvisited), ?_⟩
      rw [hfd, h.mapFd ⟨_, hroom⟩ _ (List.getElem?_eq_getElem hvisited)]
  case exists_created =>
    intro y hy hcreated
    obtain hy | hy := List.mem_append.mp hy
    · obtain ⟨c, hc, hidx, hdef⟩ := h.exists_created y hy hcreated
      exact ⟨c, List.mem_append_left _ hc, hidx, hdef⟩
    · cases List.mem_singleton.mp hy
      exact ⟨_, List.mem_append_right _ List.mem_cons_self, hi, rfl⟩
  case progArrayFd_eq =>
    rw [lastCreatedProgArray, List.filter_append]
    simp only [List.filter_singleton, hassigned, Bool.not_false, Bool.and_true]
    by_cases hprog : (fixupMap fixup x).mapDef.type = bpfMapTypeProgArray
    · have hlast : isProgArray fixup x = true := decide_eq_true hprog
      rw [hlast, cond_true, List.getLast?_concat]
      exact if_pos hprog
    · have hlast : isProgArray fixup x = false := decide_eq_false hprog
      rw [hlast, cond_false, List.append_nil]
      exact (if_neg hprog).trans h.progArrayFd_eq

/-- **What the loop leaves.** -/
theorem filled_of_fixupAndLoadMaps {mapFd : Fin maxMaps → ℤ} {maps : List BpfMapData}
    (h : fixupAndLoadMaps fixup createMap mapFd progArrayFd maps = .ok s) :
    Filled fixup createMap progArrayFd maps.zipIdx s := by
  induction maps using List.reverseRecOn generalizing s with
  | nil =>
    cases h
    exact filled_nil fixup createMap mapFd progArrayFd
  | append_singleton maps m ih =>
    unfold fixupAndLoadMaps at h
    rw [List.zipIdx_append, List.foldlM_append] at h
    obtain ⟨s₁, hmaps, hlast⟩ := ForLoop.bind_eq_ok.mp h
    obtain ⟨s₂, hstep, hnil⟩ := ForLoop.bind_eq_ok.mp hlast
    cases hnil
    have hfilled := ih hmaps
    rw [List.zipIdx_append]
    obtain ⟨hi, ⟨hassigned, rfl⟩ | ⟨hassigned, innerMapFd, rfl, hinner⟩⟩ :=
      fixupAndLoadMap_cases hstep
    · exact hfilled.push (by simp) rfl hassigned
    · exact hfilled.record (by simp) rfl hassigned hinner

/-! ## When the tables are in step -/

/-- The last program array, as the loop leaves it. -/
theorem lastProgArray_map_finishMap (fixup : Option FixupMapCb) (createMap : ℕ → ℤ)
    (xs : List (BpfMapData × ℕ)) :
    lastProgArray (xs.map (finishMap fixup createMap)) =
      ((xs.filter (isProgArray fixup)).getLast?).map (finishMap fixup createMap) := by
  have htype : (fun m : BpfMapData => decide (m.mapDef.type = bpfMapTypeProgArray)) ∘
      finishMap fixup createMap = isProgArray fixup := by
    funext x
    rw [Function.comp_apply, mapDef_finishMap, isProgArray]
  rw [lastProgArray, List.filter_map, htype, List.getLast?_map]

/-- The last program array that is created, if this is the last one of all. -/
theorem lastCreatedProgArray_of_last (createMap : ℕ → ℤ) (progArrayFd : ℤ)
    (hlast : (xs.filter (isProgArray fixup)).getLast? = some x) (h : assigned fixup x = false) :
    lastCreatedProgArray fixup createMap progArrayFd xs = createMap x.2 := by
  obtain ⟨ys, hys⟩ := List.getLast?_eq_some_iff.mp hlast
  have hfilter : xs.filter (fun x => isProgArray fixup x && !assigned fixup x) =
      (ys.filter fun x => !assigned fixup x) ++ [x] := by
    have hsplit : xs.filter (fun x => isProgArray fixup x && !assigned fixup x) =
        (xs.filter (isProgArray fixup)).filter fun x => !assigned fixup x := by
      rw [List.filter_filter]
      exact List.filter_congr fun x _ => Bool.and_comm ..
    rw [hsplit, hys, List.filter_append, List.filter_singleton, h]
    rfl
  rw [lastCreatedProgArray, hfilter, List.getLast?_concat]
  rfl

/-- The tables of a load that has returned 0. -/
theorem Filled.inStep_iff (h : Filled fixup createMap progArrayFd xs s) :
    s.InStep ↔ FixupFits fixup createMap progArrayFd xs := by
  have hlast := lastProgArray_map_finishMap fixup createMap xs
  rw [← h.maps_eq] at hlast
  constructor
  · intro hstep
    constructor
    case inner =>
      intro x hx hcreated hmim
      obtain ⟨c, hc, hidx, hdef⟩ := h.exists_created x hx (Bool.eq_false_iff.mpr hcreated)
      rw [← hdef] at hmim ⊢
      obtain ⟨m, hlt, -⟩ := hstep.inner c hc hmim
      rwa [hidx] at hlt
    case progArray =>
      intro x hx hassigned
      rw [hx] at hlast
      rw [← h.progArrayFd_eq, hstep.progArray _ hlast, finishMap, if_pos hassigned]
  · intro hfits
    constructor
    case mapFd => exact h.mapFd
    case inner =>
      intro c hc hmim
      obtain ⟨x, hx, hcreated, hidx, hdef, hinner⟩ := h.created c hc
      have hlt : c.mapDef.innerMapIdx < c.idx := by
        rw [hidx, hdef]
        exact hfits.inner x hx (Bool.eq_false_iff.mp hcreated) (hdef ▸ hmim)
      obtain ⟨m, hm, hfd⟩ := hinner hmim hlt
      exact ⟨m, hlt, hm, hfd⟩
    case progArray =>
      intro m hm
      rw [hlast] at hm
      obtain ⟨x, hx, rfl⟩ := Option.map_eq_some_iff.mp hm
      rw [h.progArrayFd_eq, finishMap]
      cases hassigned : assigned fixup x with
      | true => exact (hfits.progArray x hx hassigned).symm
      | false => exact lastCreatedProgArray_of_last createMap progArrayFd hx hassigned

/-- **When a load that returns 0 leaves the tables in step**: the creation of a map fails, or the
loop runs to its end and the maps fit. -/
theorem loadedInStep_iff (fixup : Option FixupMapCb) (createMap : ℕ → ℤ)
    (mapFd : Fin maxMaps → ℤ) (progArrayFd : ℤ) (maps : List BpfMapData) :
    LoadedInStep (fixupAndLoadMaps fixup createMap mapFd progArrayFd maps) ↔
      (∃ code, maps.zipIdx.findSome? (stopAt fixup createMap) = some (.ret code)) ∨
        maps.zipIdx.findSome? (stopAt fixup createMap) = none ∧
          FixupFits fixup createMap progArrayFd maps.zipIdx := by
  obtain ⟨s, hs, hstop⟩ | ⟨e, he, hstop⟩ := ForLoop.foldlM_of_stop
    (fun s x _ hx => exists_fixupAndLoadMap_eq_ok hx s)
    (fun s x _ e hx => fixupAndLoadMap_eq_error hx s)
    (⟨mapFd, [], progArrayFd, []⟩ : MapTables)
  · rw [hstop, show fixupAndLoadMaps fixup createMap mapFd progArrayFd maps = .ok s from hs]
    simp only [reduceCtorEq, exists_false, false_or, true_and]
    exact (filled_of_fixupAndLoadMaps hs).inStep_iff
  · rw [hstop, show fixupAndLoadMaps fixup createMap mapFd progArrayFd maps = .error e from he]
    cases e with
    | ret code => exact iff_of_true trivial (.inl ⟨code, rfl⟩)
    | crash => exact iff_of_false not_false (by simp)

/-! ## No callback -/

/-- The creation of a map, with and without the tables. -/
theorem map_maps_create (env : Env) (s : MapTables) (i : Fin maxMaps) (m : BpfMapData)
    (innerMapFd : Option ℤ) :
    (s.create env.createMap i m innerMapFd).map MapTables.maps =
      (if env.createMap i < 0 then .error (.ret 1)
        else .ok { m with fd := env.createMap i } : Except Stop BpfMapData).map
        fun m => s.maps ++ [m] := by
  unfold MapTables.create
  split <;> rfl

/-- One map, with and without the tables. -/
theorem map_maps_fixupAndLoadMap (env : Env) (s : MapTables) (hx : x.2 < maxMaps) :
    (fixupAndLoadMap none env.createMap s x).map MapTables.maps =
      (loadMap env x).map fun m => s.maps ++ [m] := by
  obtain ⟨m, i⟩ := x
  have hmim : (fixupMap none (m, i)).mapDef.isMapInMap ↔ m.mapDef.type = bpfMapTypeArrayOfMaps ∨
      m.mapDef.type = bpfMapTypeHashOfMaps := isMapInMap_iff
  unfold fixupAndLoadMap loadMap
  rw [dif_pos hx, if_neg (show ¬ assigned none (m, i) = true from Bool.false_ne_true)]
  dsimp only
  by_cases hinMap : (fixupMap none (m, i)).mapDef.isMapInMap
  · rw [if_pos hinMap]
    by_cases hinner : (fixupMap none (m, i)).mapDef.innerMapIdx < maxMaps
    · rw [dif_pos hinner, if_neg fun hboth => absurd hinner (not_lt.mpr hboth.2)]
      exact map_maps_create env s _ _ _
    · rw [dif_neg hinner, if_pos ⟨hmim.mp hinMap, not_lt.mp hinner⟩]
      rfl
  · rw [if_neg hinMap, if_neg fun hboth => hinMap (hmim.mpr hboth.1)]
    exact map_maps_create env s _ _ _

/-- The loop from map `k` on, with and without the tables. -/
theorem map_maps_foldlM (env : Env) (maps : List BpfMapData) {k : ℕ}
    (h : k + maps.length ≤ maxMaps) (s : MapTables) :
    ((maps.zipIdx k).foldlM (fixupAndLoadMap none env.createMap) s).map MapTables.maps =
      ((maps.zipIdx k).mapM (loadMap env)).map (s.maps ++ ·) := by
  induction maps generalizing k s with
  | nil => exact congrArg Except.ok (List.append_nil _).symm
  | cons m maps ih =>
    rw [List.length_cons] at h
    rw [List.zipIdx_cons, List.foldlM_cons, List.mapM_cons]
    have hone := @map_maps_fixupAndLoadMap (m, k) env s (show k < maxMaps by omega)
    cases hload : loadMap env (m, k) with
    | error e =>
      rw [hload] at hone
      cases hstep : fixupAndLoadMap none env.createMap s (m, k) with
      | error e' =>
        rw [hstep] at hone
        cases hone
        rfl
      | ok s' =>
        rw [hstep] at hone
        cases hone
    | ok m' =>
      rw [hload] at hone
      cases hstep : fixupAndLoadMap none env.createMap s (m, k) with
      | error e =>
        rw [hstep] at hone
        cases hone
      | ok s' =>
        rw [hstep] at hone
        have hmaps : s'.maps = s.maps ++ [m'] := Except.ok.inj hone
        refine (ih (by omega) s').trans ?_
        rw [hmaps]
        cases (maps.zipIdx (k + 1)).mapM (loadMap env) with
        | error e => rfl
        | ok ms => exact congrArg Except.ok (List.append_assoc ..)

/-- Without a callback the loop is the one of `load_bpf_file`. -/
theorem fixupAndLoadMaps_none (env : Env) (mapFd : Fin maxMaps → ℤ) (progArrayFd : ℤ)
    {maps : List BpfMapData} (h : maps.length ≤ maxMaps) :
    (fixupAndLoadMaps none env.createMap mapFd progArrayFd maps).map MapTables.maps =
      loadMaps env maps := by
  refine (map_maps_foldlM env maps (by omega) _).trans ?_
  show (loadMaps env maps).map ([] ++ ·) = loadMaps env maps
  cases loadMaps env maps <;> rfl

/-- A callback that gives every map descriptor 7. -/
def assignSeven : FixupMapCb := fun m _ => { m with fd := 7 }

/-- A program array of 8 entries. -/
def jmpTable : BpfMapData := ⟨-1, "jmp_table".toList, 0, ⟨bpfMapTypeProgArray, 4, 4, 8, 0, 0⟩, 1⟩

/-- **A program array with a descriptor of the callback is not recorded in `prog_array_fd`.** -/
theorem not_loadedInStep_jmpTable :
    ∃ s, fixupAndLoadMaps (some assignSeven) (fun i => i + 3) (fun _ => 0) (-1) [jmpTable] = .ok s ∧
      lastProgArray s.maps = some { jmpTable with fd := 7 } ∧ s.progArrayFd = -1 ∧
        ¬ LoadedInStep
          (fixupAndLoadMaps (some assignSeven) (fun i => i + 3) (fun _ => 0) (-1) [jmpTable]) := by
  refine ⟨_, rfl, rfl, rfl, fun h => ?_⟩
  have hfd := h.progArray _ rfl
  exact absurd hfd (by decide)

end BpfLoad
