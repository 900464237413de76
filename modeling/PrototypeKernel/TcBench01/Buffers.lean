import PrototypeKernel.TcBench01.Options

/-! # What the buffers show

A buffer of the tc redirect benchmark shows the strings that were copied into it, each over what
was left of the ones before. It shows the last one as long as none is shorter than the one before
it. -/

namespace TcBench01

open Getopt GetoptOptional CBuffer

/-- A buffer, the string in it at the start, and the string that an option copies into it. -/
structure Buffer where
  size : ℕ
  init : Word
  chars : Options → List Char
  sets : Opt → Option Word
  chars_of_step : ∀ {env : Env} {o o' : Options} {opt : Opt}, Step env o opt o' →
    chars o' = copied (chars o) (sets opt)
  of_sets : ∀ {opt : Opt} {arg : Word}, sets opt = some arg →
    opt.2 = some arg ∧ arg.length < size
  holds_init : Holds size init (chars .init)

/-- `ingress_ifname`. -/
def ingressIfname : Buffer where
  size := ifNamesize
  init := []
  chars := Options.ingressIfname
  sets := setsIngress
  chars_of_step := Step.ingressIfname
  of_sets h := ⟨(of_setsIngress h).1, (of_setsIngress h).2.1⟩
  holds_init := holds_nil (by decide)

/-- `egress_ifname`. -/
def egressIfname : Buffer where
  size := ifNamesize
  init := []
  chars := Options.egressIfname
  sets := setsEgress
  chars_of_step := Step.egressIfname
  of_sets h := ⟨(of_setsEgress h).1, (of_setsEgress h).2.1⟩
  holds_init := holds_nil (by decide)

/-- `tc_cmd`. -/
def tcCmd : Buffer where
  size := cmdMaxTc
  init := "tc".toList
  chars := Options.tcCmd
  sets := setsTcCmd
  chars_of_step := Step.tcCmd
  of_sets := of_setsTcCmd
  holds_init := ⟨rfl, by decide, by decide⟩

/-! ## Runs -/

/-- **The string in a buffer** after an option. -/
theorem Buffer.holds_step (b : Buffer) {env : Env} {o o' : Options} {opt : Opt} {s : Word}
    (hnul : ∀ arg ∈ b.sets opt, nul ∉ arg) (hstep : Step env o opt o')
    (h : Holds b.size s (b.chars o)) :
    Holds b.size (([opt].filterMap b.sets).foldl overwrite s) (b.chars o') := by
  rw [b.chars_of_step hstep]
  cases hsets : b.sets opt with
  | none =>
    rw [List.filterMap_cons_none hsets]
    exact h
  | some arg =>
    rw [List.filterMap_cons_some hsets]
    exact h.strncpy (hnul arg hsets) (b.of_sets hsets).2

/-- **The string in a buffer** is that of the copies, one over the other. -/
theorem Buffer.holds_parse (b : Buffer) {env : Env} {opts : List Opt} {o : Options}
    (hnul : ∀ opt ∈ opts, ∀ arg ∈ b.sets opt, nul ∉ arg)
    (hparse : Options.parse env opts = .ok o) :
    Holds b.size ((opts.filterMap b.sets).foldl overwrite b.init) (b.chars o) := by
  refine ForLoop.foldlM_rule
    (P := fun done o => Holds b.size ((done.filterMap b.sets).foldl overwrite b.init) (b.chars o))
    hparse b.holds_init fun done opt o o' hopt h hswitch => ?_
  rw [List.filterMap_append, List.foldl_append]
  exact b.holds_step (hnul opt hopt) (step_of_switch hswitch) h

/-- The options before an option that has been processed have been processed. -/
theorem exists_parse_of_prefix {env : Env} {pre opts : List Opt} {o : Options} (h : pre <+: opts)
    (hparse : Options.parse env opts = .ok o) : ∃ o', Options.parse env pre = .ok o' := by
  obtain ⟨rest, rfl⟩ := h
  rw [Options.parse, List.foldlM_append] at hparse
  obtain ⟨o', hpre, -⟩ := ForLoop.bind_eq_ok.mp hparse
  exact ⟨o', hpre⟩

/-! ## The last string -/

/-- A buffer, read as a C string, is the argument of the last option that was accepted and sets it,
or the string at the start. -/
def Buffer.Shows (b : Buffer) (opts : List Opt) (o : Options) : Prop :=
  cstr (b.chars o) = (opts.filterMap b.sets).getLastD b.init

/-- No string that is copied into a buffer is shorter than the one before it. -/
def Buffer.NeverShorter (b : Buffer) (opts : List Opt) : Prop :=
  List.IsChain (fun s arg => s.length ≤ arg.length) (b.init :: opts.filterMap b.sets)

/-- **When a buffer always shows the last string**: no shorter one follows a longer one. -/
theorem Buffer.shows_iff (b : Buffer) {env : Env} {opts : List Opt}
    (hnul : ∀ opt ∈ opts, ∀ arg ∈ opt.2, nul ∉ arg) :
    (∀ pre, pre <+: opts → ∀ o, Options.parse env pre = .ok o → b.Shows pre o) ↔
      ∀ pre, pre <+: opts → (∃ o, Options.parse env pre = .ok o) → b.NeverShorter pre := by
  have hcstr {pre : List Opt} {o : Options} (hpre : pre <+: opts)
      (hparse : Options.parse env pre = .ok o) :
      cstr (b.chars o) = (pre.filterMap b.sets).foldl overwrite b.init := by
    refine (b.holds_parse (fun opt hopt arg harg => ?_) hparse).cstr_eq
    exact hnul opt (hpre.subset hopt) arg (b.of_sets harg).1
  constructor
  · rintro h pre hpre ⟨o, hparse⟩
    rw [NeverShorter, ← foldl_overwrite_iff]
    intro args hargs
    obtain ⟨pre', hpre', rfl⟩ := List.prefix_filterMap_iff.mp hargs
    obtain ⟨o', hparse'⟩ := exists_parse_of_prefix hpre' hparse
    have hshows := h pre' (hpre'.trans hpre) o' hparse'
    rwa [Shows, hcstr (hpre'.trans hpre) hparse'] at hshows
  · intro h pre hpre o hparse
    have hchain := h pre hpre ⟨o, hparse⟩
    rw [Shows, hcstr hpre hparse]
    exact foldl_overwrite_iff.mpr hchain _ List.prefix_rfl

/-- The buffers that options set. -/
def buffers : List Buffer := [ingressIfname, egressIfname, tcCmd]

/-- The arguments of options are strings if the words of the command line are. -/
theorem nul_notMem_optarg {argv : List Word} (hargv : ∀ w ∈ argv, nul ∉ w) :
    ∀ opt ∈ optionsOf argv, ∀ arg ∈ opt.2, nul ∉ arg := by
  intro opt hopt arg harg hmem
  obtain ⟨w, hw, hsuffix⟩ := argsIn_getoptLong argv opt hopt arg harg
  exact hargv w hw (hsuffix.subset hmem)

/-- **When the buffers show the last strings** after each option of a command line. -/
theorem buffers_show_iff (env : Env) {argv : List Word} (hargv : ∀ w ∈ argv, nul ∉ w) :
    (∀ pre, pre <+: optionsOf argv → ∀ o, Options.parse env pre = .ok o →
        ∀ b ∈ buffers, b.Shows pre o) ↔
      ∀ pre, pre <+: optionsOf argv → (∃ o, Options.parse env pre = .ok o) →
        ∀ b ∈ buffers, b.NeverShorter pre := by
  have hnul := nul_notMem_optarg hargv
  constructor
  · intro h pre hpre hparse b hb
    exact (b.shows_iff hnul).mp (fun pre hpre o ho => h pre hpre o ho b hb) pre hpre hparse
  · intro h pre hpre o hparse b hb
    refine (b.shows_iff hnul).mpr (fun pre hpre ho => h pre hpre ho b hb) pre hpre o hparse

/-- `--ingress eth10 --list=lo`. -/
def listAfterIngress : List Word :=
  ["--ingress".toList, "eth10".toList, "--list=lo".toList]

/-- A command line with options for the ingress device and the listing. -/
theorem buffers_show_iff_listAfterIngress :
    (∀ w ∈ listAfterIngress, nul ∉ w) ∧
      ((∀ pre, pre <+: optionsOf listAfterIngress → ∀ o,
          Options.parse .allDevices pre = .ok o → ∀ b ∈ buffers, b.Shows pre o) ↔
        ∀ pre, pre <+: optionsOf listAfterIngress →
          (∃ o, Options.parse .allDevices pre = .ok o) → ∀ b ∈ buffers, b.NeverShorter pre) :=
  ⟨by decide, buffers_show_iff .allDevices (by decide)⟩

/-- **The name `lo` over `eth10`** is the name `loh10`. -/
theorem not_buffers_show_listAfterIngress :
    ¬ ∀ pre, pre <+: optionsOf listAfterIngress → ∀ o,
      Options.parse .allDevices pre = .ok o → ∀ b ∈ buffers, b.Shows pre o := by
  intro h
  have hshows := h (optionsOf listAfterIngress) List.prefix_rfl _ rfl ingressIfname
    List.mem_cons_self
  have hname : "loh10".toList = "lo".toList := hshows
  exact absurd hname (by decide)

end TcBench01
