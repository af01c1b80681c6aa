import ElementBridge.Proofs.FirstFault
import ElementBridge.Proofs.HostClasses
import ElementBridge.Proofs.WrittenSources

namespace ElementBridge

open ElementBridge.Tree

namespace Surface

variable {config : Config} {disk : Disk} {file : SourceFile} {m : Module}

theorem surface_eq_ofModule (hm : file.parse = .ok m) :
    file.surface config disk = ofModule config file (ModuleGraph.load disk file m) m := by
  unfold SourceFile.surface
  rw [hm]
  rfl

theorem surface_of_firstRefusal (hm : file.parse = .ok m) {r : Refusal}
    (hr : m.firstRefusal config = some r) :
    file.surface config disk = .error (refused file.name r) := by
  rw [← Tree.Module.findSome?_hosts, ← mapM_eq_error] at hr
  rw [surface_eq_ofModule hm, ofModule, Collected.ofModule_eq, hr]
  rfl

theorem surface_of_lowered (disk : Disk) (hm : file.parse = .ok m) (hr : m.firstRefusal config = none) :
    ∃ candidates, (m.hosts config).map (Candidate.ofClass? config)
        = candidates.map (fun candidate => .ok (some candidate)) ∧
      file.surface config disk
        = ofCollected config file (ModuleGraph.load disk file m) (m.collected candidates) := by
  cases hfound : m.classes.mapM (Candidate.ofClass? config) with
  | error r =>
      rw [mapM_eq_error, Tree.Module.findSome?_hosts, hr] at hfound
      cases hfound
  | ok found =>
      refine ⟨found.reduceOption, Tree.Module.candidates_of_found (mapM_eq_ok.1 hfound), ?_⟩
      rw [surface_eq_ofModule hm, ofModule, Collected.ofModule_eq, hfound]
      rfl

def settingOf (config : Config) (disk : Disk) (file : SourceFile) (m : Module) : Setting where
  file := file.name
  globals := config.globalTypes
  obstacles := m.obstacles.reverse
  imports := m.symbols.reverse
  graph := ModuleGraph.load disk file m

def startOf (file : SourceFile) (m : Module) (candidate : Candidate) : Surface :=
  start file (m.collected [candidate]) candidate

def reachOf (config : Config) (disk : Disk) (file : SourceFile) (m : Module)
    (candidate : Candidate) : Except Failure Surface :=
  let s := startOf file m candidate
  (settingOf config disk file m).reach s.mentionBound s.mentions s

theorem checked_start (e : Setting) (file : SourceFile) (c : Collected) (candidate : Candidate) :
    e.Checked (start file c candidate) := by
  refine ⟨fun k hk => absurd hk List.not_mem_nil, fun d _ hheld => ?_⟩
  exact absurd hheld List.not_mem_nil

theorem Origin.checked {s : Surface} (o : Origin config disk file m s) :
    (setting config file (ModuleGraph.load disk file m) o.collected).Checked s :=
  (checked_start _ _ _ _).reach o.reaches

theorem reachOf_eq_error_iff {candidate : Candidate} {f : Failure} :
    reachOf config disk file m candidate = .error f ↔
      (settingOf config disk file m).FirstFault (startOf file m candidate)
        (startOf file m candidate).numbered f := by
  refine Setting.reach_eq_error_iff (checked_start _ _ _ _) (fun d _ => ?_) ?_
  · exact iff_of_false List.not_mem_nil List.not_mem_nil
  · simp [Setting.weight, mentionBound, isReferenced, startOf, start]

theorem checkReachable_eq_error {s : Surface} {f : Failure} (h : checkReachable file s = .error f) :
    ∃ context detail, f = .unsupported file.name context detail := by
  unfold checkReachable at h
  split at h
  · exact ⟨_, _, (Except.error.inj h).symm⟩
  · cases h

theorem ofCollected_of_length_ne_one {g : ModuleGraph} {c : Collected}
    (h : c.candidates.length ≠ 1) : ofCollected config file g c
      = .error (.ambiguous file.name (c.candidates.map (·.component.name))) := by
  unfold ofCollected
  split
  · next candidate hsingle => simp [hsingle] at h
  · rfl

/-- One component fails for a mention at fault or because it cannot be built from outside. -/
theorem single_ne_ambiguous {candidate : Candidate} {f : Failure}
    (h : reachOf config disk file m candidate >>= checkReachable file = .error f) (g : String)
    (names : List String) : f ≠ .ambiguous g names := by
  rcases bind_eq_error.1 h with h | ⟨s, -, h⟩
  · obtain ⟨_, -, hfault⟩ := (reachOf_eq_error_iff.1 h).faults
    cases hfault <;> exact Failure.noConfusion
  · obtain ⟨_, _, rfl⟩ := checkReachable_eq_error h
    exact Failure.noConfusion

theorem firstFault_of_host (disk : Disk) {kind : Export} {node : ClassNode} {candidate : Candidate}
    (hm : file.parse = .ok m) (hhost : m.hosts config = [(kind, node)])
    (hlowered : Candidate.ofNode? config kind node = .ok (some candidate)) :
    let e := settingOf config disk file m
    let s := startOf file m candidate
    let reached := reachOf config disk file m candidate
    file.surface config disk = reached >>= checkReachable file ∧
      (∀ f, reached = .error f ↔ e.FirstFault s s.numbered f) ∧
      ((∃ f, reached = .error f) ↔ ∃ mention ∈ s.numbered, ∃ f, e.Faults s mention f) ∧
      ∀ mention ∈ s.numbered, s.Mentioned mention := by
  refine ⟨?_, fun f => reachOf_eq_error_iff, ?_, fun mention => mentioned_of_numbered⟩
  · have hr : m.firstRefusal config = none := by
      simp [Tree.Module.firstRefusal, hhost, Candidate.ofClass?, hlowered, failureOf]
    obtain ⟨candidates, hcandidates, hs⟩ := surface_of_lowered disk hm hr
    obtain rfl : candidates = [candidate] := by
      simpa [hhost, Candidate.ofClass?, hlowered, List.map_eq_singleton_iff] using hcandidates.symm
    exact hs
  · rw [← Setting.exists_firstFault_iff]
    exact exists_congr fun f => reachOf_eq_error_iff

def faultySource : SourceFile where
  path := ⟨"a.ts"⟩
  text := "import type\x7bQ\x7dfrom'./d.js';interface U\x7bu:Z\x7dinterface T extends U"
    ++ "\x7bt?:T;k:Q\x7dexport class A extends HTMLElement\x7bm(x:T)\x7b\x7d\x7d"

def faultyDisk : Disk := ⟨[], [(["d.ts"], .file "export interface P\x7b\x7d".toUTF8)]⟩

theorem firstFault_faultySource : ∃ m kind node candidate, faultySource.parse = .ok m ∧
    m.hosts .standard = [(kind, node)] ∧
    Candidate.ofNode? .standard kind node = .ok (some candidate) ∧
    faultySource.surface .standard faultyDisk = .error (.unresolved "a.ts" "Q" "T.k") ∧
    (settingOf .standard faultyDisk faultySource m).FirstFault (startOf faultySource m candidate)
      (startOf faultySource m candidate).numbered (.unresolved "a.ts" "Q" "T.k") := by
  have hlowered : faultySource.parse.toOption.map (fun m =>
      (m.hosts .standard).map fun c => (Candidate.ofClass? .standard c).toOption.map (·.isSome))
      = some [some true] := by
    rw [faultySource.parse_eq_elim (ofList_append rfl rfl)]
    decide +kernel
  have hfails : failureOf (faultySource.surface .standard faultyDisk)
      = some (.unresolved "a.ts" "Q" "T.k") := by
    rw [SourceFile.surface, faultySource.parse_eq_elim (ofList_append rfl rfl)]
    decide +kernel
  rw [failureOf_eq_some] at hfails
  obtain ⟨m, hm, hlowered⟩ := map_toOption_eq_some.1 hlowered
  obtain ⟨⟨kind, node⟩, hhost, hsome⟩ := List.map_eq_singleton_iff.1 hlowered
  obtain ⟨found, hnode, hcandidate⟩ := map_toOption_eq_some.1 hsome
  obtain ⟨candidate, rfl⟩ := Option.isSome_iff_exists.1 hcandidate
  obtain ⟨hs, hfirst, -⟩ := firstFault_of_host faultyDisk hm hhost hnode
  refine ⟨m, kind, node, candidate, hm, hhost, hnode, hfails, (hfirst _).1 ?_⟩
  refine (bind_eq_error.1 (hs.symm.trans hfails)).resolve_right fun hchecked => ?_
  obtain ⟨s, -, hcheck⟩ := hchecked
  obtain ⟨_, _, hunsupported⟩ := checkReachable_eq_error hcheck
  exact Failure.noConfusion hunsupported

theorem ambiguous_iff (hm : file.parse = .ok m) :
    (∀ f names, file.surface config disk = .error (.ambiguous f names) ↔
      f = file.name ∧ names = m.hostNames config ∧ names.length ≠ 1 ∧
        m.firstRefusal config = none) ∧
    ∀ r, m.firstRefusal config = some r → file.surface config disk = .error (refused file.name r) := by
  refine ⟨fun f names => ?_, fun r => surface_of_firstRefusal hm⟩
  cases hr : m.firstRefusal config with
  | some r => simp [surface_of_firstRefusal hm hr, refused]
  | none =>
      obtain ⟨candidates, hcandidates, hs⟩ := surface_of_lowered disk hm hr
      have hnames := Tree.Module.names_of_candidates
        (fun c hc => (List.mem_filter.1 hc).2) hcandidates
      rw [hs, Tree.Module.hostNames, Tree.Module.hosts, ← hnames]
      by_cases hone : candidates.length = 1
      · obtain ⟨candidate, rfl⟩ := List.length_eq_one_iff.1 hone
        refine iff_of_false (fun h => single_ne_ambiguous h _ _ rfl) fun h => ?_
        obtain ⟨-, rfl, hlength, -⟩ := h
        exact hlength rfl
      · rw [ofCollected_of_length_ne_one hone, Except.error.injEq, Failure.ambiguous.injEq]
        constructor
        · rintro ⟨rfl, rfl⟩
          exact ⟨rfl, rfl, by simpa [Tree.Module.collected] using hone, rfl⟩
        · rintro ⟨rfl, rfl, -, -⟩
          exact ⟨rfl, rfl⟩

def refusedSource : SourceFile where
  path := ⟨"a.ts"⟩
  text := "class A extends HTMLElement\x7b\x7dclass B extends HTMLElement"
    ++ "\x7bm(...n:string[])\x7b\x7d\x7d"

def twoHosts : SourceFile where
  path := ⟨"a.ts"⟩
  text := "export default class B extends HTMLElement\x7bx:number\x7dclass C\x7b\x7d"
    ++ "class A extends HTMLElement\x7b\x7d"

theorem ambiguous_twoHosts : ∃ m, twoHosts.parse = .ok m ∧
    twoHosts.surface .standard ⟨[], []⟩ = .error (.ambiguous "a.ts" ["B", "A"]) := by
  have hparts : twoHosts.parse.toOption.map (fun m =>
      (m.hostNames .standard, m.firstRefusal .standard)) = some (["B", "A"], none) := by
    rw [twoHosts.parse_eq_elim (ofList_append rfl rfl)]
    decide +kernel
  obtain ⟨m, hm, hparts⟩ := map_toOption_eq_some.1 hparts
  obtain ⟨hnames, hr⟩ := Prod.mk.inj hparts
  exact ⟨m, hm, ((ambiguous_iff hm).1 "a.ts" _).2 ⟨rfl, hnames.symm, by decide, hr⟩⟩

/-- Two host classes, none of them anonymous, and yet no failure for their number. -/
theorem refused_before_ambiguous : ∃ m, refusedSource.parse = .ok m ∧
    m.hostNames .standard = ["A", "B"] ∧ (∀ c ∈ m.hosts .standard, c.2.name ≠ none) ∧
    refusedSource.surface .standard ⟨[], []⟩
      = .error (.unsupported "a.ts" "m" "rest parameters") := by
  have hparts : refusedSource.parse.toOption.map (fun m => (m.hostNames .standard,
      (m.hosts .standard).map (·.2.name.isSome))) = some (["A", "B"], [true, true]) := by
    rw [refusedSource.parse_eq_elim (ofList_append rfl rfl)]
    decide +kernel
  have hfails : failureOf (refusedSource.surface .standard ⟨[], []⟩)
      = some (.unsupported "a.ts" "m" "rest parameters") := by
    rw [SourceFile.surface, refusedSource.parse_eq_elim (ofList_append rfl rfl)]
    decide +kernel
  obtain ⟨m, hm, hparts⟩ := map_toOption_eq_some.1 hparts
  obtain ⟨hnames, hsome⟩ := Prod.mk.inj hparts
  refine ⟨m, hm, hnames, fun c hc hnone => ?_, failureOf_eq_some.1 hfails⟩
  have hmem := List.mem_map_of_mem (f := (·.2.name.isSome)) hc
  simp [hsome, hnone] at hmem

end Surface

end ElementBridge
