import ElementBridge.Proofs.BridgePipeline
import ElementBridge.Proofs.TakingTurns

namespace ElementBridge

namespace Disk

variable {d d' : Disk} {p : Path} {content : ByteArray} {options : WriteOptions} {status : Status}

theorem update_ok (h : store.update d p content options = .ok (status, d')) :
    (status = .unchanged ∧ d' = d ∧ d.read? p = .ok (some content)) ∨
    (status = .stale ∧ d' = d ∧ options.check = true) ∨
    (status = .written ∧ options.check = false ∧ d.replace p content = .ok d') := by
  have hput (h : (return (Status.written, ← d.replace p content) : Except Fault (Status × Disk))
      = .ok (status, d')) : status = .written ∧ d.replace p content = .ok d' := by
    simp only [bind_eq_ok, pure_eq_ok] at h
    obtain ⟨d₁, hd, heq⟩ := h
    obtain ⟨rfl, rfl⟩ := Prod.mk.inj heq
    exact ⟨rfl, hd⟩
  unfold Store.update at h
  split at h
  · obtain ⟨old, hold, h⟩ := bind_eq_ok.1 h
    split at h
    · next hany =>
        obtain ⟨rfl, rfl⟩ := Prod.mk.inj (pure_eq_ok.1 h)
        exact .inl ⟨rfl, rfl, any_sameBytes.1 hany ▸ hold⟩
    · split at h
      · next hcheck =>
          obtain ⟨rfl, rfl⟩ := Prod.mk.inj (pure_eq_ok.1 h)
          exact .inr (.inl ⟨rfl, rfl, hcheck⟩)
      · next hcheck =>
          obtain ⟨hstatus, hreplace⟩ := hput h
          exact .inr (.inr ⟨hstatus, by simpa using hcheck, hreplace⟩)
  · next hcompares =>
      obtain ⟨hstatus, hreplace⟩ := hput h
      refine .inr (.inr ⟨hstatus, ?_, hreplace⟩)
      simp only [WriteOptions.compares, Bool.not_eq_true, Bool.or_eq_false_iff] at hcompares
      exact hcompares.2

theorem length_setEntry_le (entries : List (Location × Node)) (l : Location) (n : Node) :
    (setEntry entries l n).length ≤ entries.length + 1 := by
  induction entries with
  | nil => exact Nat.le_refl _
  | cons e rest ih =>
      unfold setEntry
      split
      · exact Nat.le_succ _
      · exact Nat.succ_le_succ ih

end Disk

namespace Batch

variable {config : Config} {options : WriteOptions} {disk : Disk} {source : Path}

def bridgeOf (config : Config) (disk : Disk) (source : Path) : Except Failure Bridge :=
  match SourceFile.read disk source with
  | .error fault => .error (.unreadable source.text fault.text)
  | .ok file => file.bridge config disk

theorem bridgeFile_eq (config : Config) (options : WriteOptions) (disk : Disk) (source : Path) :
    bridgeFile config options disk source = match bridgeOf config disk source with
      | .error failure => (.error failure, disk)
      | .ok bridge => Disk.store.write disk (config.outputPath source) bridge config options := by
  unfold bridgeFile bridgeOf
  cases SourceFile.read disk source with
  | error fault => rfl
  | ok file => rfl

theorem bridgeFile_ok {outcome : Outcome}
    (h : (bridgeFile config options disk source).1 = .ok outcome) :
    ∃ bridge, bridgeOf config disk source = .ok bridge ∧
      outcome.output = config.outputPath source ∧
      outcome.code = bridge.render config.headerLines ∧
      Disk.store.update disk outcome.output outcome.code.toUTF8 options
        = .ok (outcome.status, (bridgeFile config options disk source).2) := by
  rw [bridgeFile_eq] at h ⊢
  cases hbridge : bridgeOf config disk source with
  | error failure => simp [hbridge] at h
  | ok bridge =>
      simp only [hbridge] at h
      unfold Store.write at h ⊢
      dsimp only at h ⊢
      split at h
      · next status d' hupdate =>
          obtain rfl := Except.ok.inj h
          exact ⟨bridge, rfl, rfl, rfl, by simp only [hupdate]⟩
      · cases h

theorem bridgeFile_error {failure : Failure}
    (h : (bridgeFile config options disk source).1 = .error failure) :
    (bridgeFile config options disk source).2 = disk := by
  rw [bridgeFile_eq] at h ⊢
  cases hbridge : bridgeOf config disk source with
  | error failure => rfl
  | ok bridge =>
      simp only [hbridge] at h
      unfold Store.write at h ⊢
      dsimp only at h ⊢
      split at h
      · cases h
      · rfl

theorem bridgeFile_cases (config : Config) (options : WriteOptions) (disk : Disk) (source : Path) :
    (∃ outcome l, (bridgeFile config options disk source).1 = .ok outcome ∧
      outcome.status = .written ∧ disk.locate outcome.output = .ok l ∧
      disk.node? l ≠ some .directory ∧
      (bridgeFile config options disk source).2 = disk.withFile l outcome.code.toUTF8) ∨
    ((bridgeFile config options disk source).2 = disk ∧
      ∀ outcome, (bridgeFile config options disk source).1 = .ok outcome →
        outcome.status ≠ .written) := by
  cases hresult : (bridgeFile config options disk source).1 with
  | error failure => exact .inr ⟨bridgeFile_error hresult, nofun⟩
  | ok outcome =>
      obtain ⟨bridge, -, -, -, hupdate⟩ := bridgeFile_ok hresult
      have kept (hstatus : outcome.status ≠ .written) : ∀ outcome',
          Except.ok outcome = Except.ok (ε := Failure) outcome' → outcome'.status ≠ .written :=
        fun outcome' heq => Except.ok.inj heq ▸ hstatus
      rcases Disk.update_ok hupdate with ⟨hstatus, hdisk, -⟩ | ⟨hstatus, hdisk, -⟩ |
        ⟨hstatus, -, hreplace⟩
      · exact .inr ⟨hdisk, kept (by simp [hstatus])⟩
      · exact .inr ⟨hdisk, kept (by simp [hstatus])⟩
      · obtain ⟨l, hl, hnode, hdisk⟩ := Disk.replace_ok hreplace
        exact .inl ⟨outcome, l, rfl, hstatus, hl, hnode, hdisk⟩

theorem chainBound_bridgeFile (config : Config) (options : WriteOptions) (disk : Disk)
    (source : Path) : ModuleGraph.chainBound (bridgeFile config options disk source).2
      ≤ ModuleGraph.chainBound disk + 4096 := by
  have hlength : (bridgeFile config options disk source).2.entries.length
      ≤ disk.entries.length + 1 := by
    rcases bridgeFile_cases config options disk source with ⟨_, l, -, -, -, -, h⟩ | ⟨h, -⟩
    · rw [h]
      exact Disk.length_setEntry_le _ _ _
    · rw [h]
      exact Nat.le_succ _
  unfold ModuleGraph.chainBound
  omega

def Writes (config : Config) (options : WriteOptions) (disk : Disk) (source : Path) (l : Location)
    (content : ByteArray) : Prop :=
  ∃ outcome, (bridgeFile config options disk source).1 = .ok outcome ∧
    outcome.status = .written ∧ disk.locate outcome.output = .ok l ∧
    content = outcome.code.toUTF8

/-- The final disk is the initial one with the bridges that the sources write when they are alone. -/
structure HoldsBridges (config : Config) (options : WriteOptions) (disk : Disk)
    (sources : List Path) (final : Disk) : Prop where
  directory : final.workingDirectory = disk.workingDirectory
  bridges : ∀ source ∈ sources, ∀ l content, Writes config options disk source l content →
    final.node? l = some (.file content)
  rest : ∀ l, (∀ source ∈ sources, ∀ content, ¬Writes config options disk source l content) →
    final.node? l = disk.node? l

def pipelines (config : Config) (options : WriteOptions) (depth : Nat) (sources : List Path) :
    Fin sources.length → Pipeline (Except Failure Outcome) :=
  fun i => Pipeline.bridge config options depth (sources.get i)

/-- What a source changes on its own, no other one looks at, and none comes through it while nothing
is there. -/
def Isolated (config : Config) (options : WriteOptions) (depth : Nat) (disk : Disk)
    (sources : List Path) : Prop :=
  Apart (pipelines config options depth sources) disk

variable {depth : Nat} {sources : List Path}

instance : Decidable (Isolated config options depth disk sources) :=
  inferInstanceAs (Decidable (∀ i j : Fin sources.length, i ≠ j →
    ∀ l ∈ (pipelines config options depth sources i).changed disk,
      ∀ visit ∈ (pipelines config options depth sources j).visits disk, visit.1.Spares l visit.2))

theorem output_of_bridgeFile {outcome : Outcome}
    (h : (bridgeFile config options disk source).1 = .ok outcome) :
    outcome.output = config.outputPath source := by
  obtain ⟨bridge, -, houtput, -⟩ := bridgeFile_ok h
  exact houtput

theorem mem_written_pipelines (hdepth : ModuleGraph.chainBound disk ≤ depth)
    {i : Fin sources.length} {l : Location} :
    l ∈ (pipelines config options depth sources i).written disk ↔
      ∃ content, Writes config options disk (sources.get i) l content := by
  refine (Pipeline.mem_written_bridge hdepth).trans ?_
  constructor
  · rintro ⟨outcome, hok, hstatus, hl⟩
    exact ⟨_, outcome, hok, hstatus, hl, rfl⟩
  · rintro ⟨content, outcome, hok, hstatus, hl, -⟩
    exact ⟨outcome, hok, hstatus, hl⟩

theorem Writes.replaces {l : Location} {content : ByteArray}
    (h : Writes config options disk source l content) :
    disk.locate (config.outputPath source) = .ok l ∧ disk.node? l ≠ some .directory ∧
      (bridgeFile config options disk source).2 = disk.withFile l content := by
  obtain ⟨outcome, hok, hstatus, hl, rfl⟩ := h
  rcases bridgeFile_cases config options disk source with
    ⟨outcome', l', hok', -, hl', hnode, hdisk⟩ | ⟨-, hother⟩
  · obtain rfl := Except.ok.inj (hok.symm.trans hok')
    obtain rfl := Except.ok.inj (hl.symm.trans hl')
    exact ⟨output_of_bridgeFile hok ▸ hl, hnode, hdisk⟩
  · exact absurd hstatus (hother outcome hok)

theorem Writes.node? {l : Location} {content : ByteArray}
    (h : Writes config options disk source l content) :
    (bridgeFile config options disk source).2.node? l = some (.file content) := by
  obtain ⟨-, hnode, hdisk⟩ := h.replaces
  rw [hdisk, Disk.node?_withFile hnode, if_pos rfl]

theorem holdsBridges_of_turns (hdepth : ModuleGraph.chainBound disk ≤ depth)
    (h : Isolated config options depth disk sources) {schedule : List (Fin sources.length)}
    (hschedule : ∀ i, (pipelines config options depth sources i).accesses disk
      ≤ schedule.count i) : HoldsBridges config options disk sources
        (Shared.turns ⟨pipelines config options depth sources, disk⟩ schedule).disk := by
  have hfollows := Shared.follows_turns h schedule
  refine ⟨hfollows.restDirectory, fun source hsource l content hwrites => ?_, fun l hl => ?_⟩
  · obtain ⟨i, rfl⟩ := List.mem_iff_get.1 hsource
    have hown := (mem_written_pipelines hdepth).2 ⟨content, hwrites⟩
    have hothers : ∀ j, j ≠ i → l ∉ (pipelines config options depth sources j).changed disk :=
      fun j hj hchanged => (h j i hj l hchanged).not_mem_written hown
    rw [Shared.node?_turns h (hschedule i) hothers, pipelines, Pipeline.run_bridge hdepth,
      hwrites.node?]
  · refine hfollows.rest l fun j hchanged => ?_
    obtain ⟨content, hwrites⟩ :=
      (mem_written_pipelines hdepth).1 (Pipeline.changed_subset_written _ _ hchanged)
    exact hl _ (List.get_mem _ _) content hwrites

def entryOf? (s : Shared (Fin sources.length) (Except Failure Outcome)) (i : Fin sources.length) :
    Option Entry :=
  (s.pipelines i).result?.map (⟨sources.get i, ·⟩)

def report? (s : Shared (Fin sources.length) (Except Failure Outcome)) : Option Report :=
  ((List.finRange sources.length).mapM (entryOf? s)).map Report.mk

def separateReport (config : Config) (options : WriteOptions) (disk : Disk) (sources : List Path) :
    Report :=
  ⟨sources.map fun source => ⟨source, (bridgeFile config options disk source).1⟩⟩

def start (config : Config) (options : WriteOptions) (depth : Nat) (disk : Disk)
    (sources : List Path) : Shared (Fin sources.length) (Except Failure Outcome) :=
  ⟨pipelines config options depth sources, disk⟩

theorem entryOf?_eq_some {s : Shared (Fin sources.length) (Except Failure Outcome)}
    {i : Fin sources.length} {e : Entry} : entryOf? s i = some e ↔
      ∃ result, s.pipelines i = .done result ∧ e = ⟨sources.get i, result⟩ := by
  simp only [entryOf?, Option.map_eq_some_iff, Pipeline.result?_eq_some, @eq_comm _ e]

theorem entryOf?_turns (hdepth : ModuleGraph.chainBound disk ≤ depth)
    (h : Isolated config options depth disk sources) (schedule : List (Fin sources.length))
    (i : Fin sources.length) (e : Entry) :
    entryOf? ((start config options depth disk sources).turns schedule) i = some e ↔
      (pipelines config options depth sources i).accesses disk ≤ schedule.count i ∧
        e = ⟨sources.get i, (bridgeFile config options disk (sources.get i)).1⟩ := by
  rw [entryOf?_eq_some, start]
  simp only [Shared.turns_done_iff h]
  rw [pipelines, Pipeline.run_bridge hdepth]
  constructor
  · rintro ⟨result, ⟨hcount, rfl⟩, rfl⟩
    exact ⟨hcount, rfl⟩
  · rintro ⟨hcount, rfl⟩
    exact ⟨_, ⟨hcount, rfl⟩, rfl⟩

theorem report?_turns (hdepth : ModuleGraph.chainBound disk ≤ depth)
    (h : Isolated config options depth disk sources) (schedule : List (Fin sources.length))
    (r : Report) :
    report? ((start config options depth disk sources).turns schedule) = some r ↔
      (∀ i, (pipelines config options depth sources i).accesses disk ≤ schedule.count i) ∧
        r = separateReport config options disk sources := by
  let alone (source : Path) : Entry := ⟨source, (bridgeFile config options disk source).1⟩
  have hmap : (List.finRange sources.length).map (fun i => alone (sources.get i))
      = (separateReport config options disk sources).entries :=
    List.map_map.symm.trans (congrArg (List.map alone) (List.map_get_finRange sources))
  simp only [report?, Option.map_eq_some_iff,
    mapM_eq_some_of_forall (entryOf?_turns hdepth h schedule), List.mem_finRange, forall_const]
  constructor
  · rintro ⟨entries, ⟨hcount, rfl⟩, rfl⟩
    exact ⟨hcount, congrArg Report.mk hmap⟩
  · rintro ⟨hcount, rfl⟩
    exact ⟨_, ⟨hcount, rfl⟩, congrArg Report.mk hmap⟩

theorem exists_schedule_of_runSources (is : List (Fin sources.length)) (hnodup : is.Nodup)
    (s : Shared (Fin sources.length) (Except Failure Outcome))
    (hs : ∀ i ∈ is, s.pipelines i = pipelines config options depth sources i)
    (hdepth : ModuleGraph.chainBound s.disk + 4096 * is.length ≤ depth) :
    ∃ schedule : List (Fin sources.length),
      (∀ j ∉ is, (s.turns schedule).pipelines j = s.pipelines j) ∧
      is.mapM (entryOf? (s.turns schedule))
        = some (runSources config options s.disk (is.map sources.get)).1 ∧
      (s.turns schedule).disk = (runSources config options s.disk (is.map sources.get)).2 := by
  -- all turns of the first source, then those of the rest on the disk that it leaves
  induction is generalizing s with
  | nil => exact ⟨[], fun _ _ => rfl, rfl, rfl⟩
  | cons i is ih =>
      obtain ⟨hi, hnodup⟩ := List.nodup_cons.1 hnodup
      obtain ⟨hsi, hsis⟩ := List.forall_mem_cons.1 hs
      rw [List.length_cons] at hdepth
      have hdepthHere : ModuleGraph.chainBound s.disk ≤ depth := by omega
      let alone := bridgeFile config options s.disk (sources.get i)
      let here := List.replicate ((s.pipelines i).accesses s.disk) i
      have hhere : s.turns here
          = ⟨Function.update s.pipelines i (.done alone.1), alone.2⟩ := by
        rw [Shared.turns_replicate, Pipeline.after_of_accesses_le (Nat.le_refl _), hsi, pipelines,
          Pipeline.run_bridge hdepthHere]
      have hrest : ∀ j ∈ is, (s.turns here).pipelines j
          = pipelines config options depth sources j := by
        intro j hj
        rw [hhere]
        exact (Function.update_of_ne (ne_of_mem_of_not_mem hj hi) _ _).trans (hsis j hj)
      have hbound : ModuleGraph.chainBound alone.2 ≤ ModuleGraph.chainBound s.disk + 4096 :=
        chainBound_bridgeFile config options s.disk (sources.get i)
      obtain ⟨more, hothers, hentries, hdisk⟩ := ih hnodup (s.turns here) hrest (by
        rw [hhere]
        change ModuleGraph.chainBound alone.2 + _ ≤ depth
        omega)
      rw [hhere] at hothers hentries hdisk
      refine ⟨here ++ more, fun j hj => ?_, ?_, ?_⟩
      · obtain ⟨hji, hjis⟩ := List.ne_and_not_mem_of_not_mem_cons hj
        rw [Shared.turns_append, hhere, hothers j hjis]
        exact Function.update_of_ne hji _ _
      · have hentry : entryOf? (s.turns (here ++ more)) i = some ⟨sources.get i, alone.1⟩ := by
          refine entryOf?_eq_some.2 ⟨_, ?_, rfl⟩
          rw [Shared.turns_append, hhere, hothers i hi]
          exact Function.update_self _ _ _
        rw [List.mapM_cons, hentry, Shared.turns_append, hhere, hentries]
        rfl
      · rw [Shared.turns_append, hhere, hdisk]
        rfl

/-- In whatever order the sources of an isolated batch come to their accesses, and one after another
too, each gets the entry that it gets alone, and the disk keeps all that is not a written bridge. -/
theorem isolated_turns (hdepth : ModuleGraph.chainBound disk + 4096 * sources.length ≤ depth)
    (h : Isolated config options depth disk sources) :
    (∀ schedule r, report? ((start config options depth disk sources).turns schedule) = some r ↔
      (∀ i, (pipelines config options depth sources i).accesses disk ≤ schedule.count i) ∧
        r = separateReport config options disk sources) ∧
    (∀ schedule,
      (report? ((start config options depth disk sources).turns schedule)).isSome →
        HoldsBridges config options disk sources
          ((start config options depth disk sources).turns schedule).disk) ∧
    (runSources config options disk sources).1
      = (separateReport config options disk sources).entries ∧
    HoldsBridges config options disk sources (runSources config options disk sources).2 := by
  have hdepthHere : ModuleGraph.chainBound disk ≤ depth := by omega
  have hreport := report?_turns hdepthHere h
  have hholds (schedule : List (Fin sources.length))
      (hsome : (report? ((start config options depth disk sources).turns schedule)).isSome) :
      HoldsBridges config options disk sources
        ((start config options depth disk sources).turns schedule).disk := by
    obtain ⟨r, hr⟩ := Option.isSome_iff_exists.1 hsome
    exact holdsBridges_of_turns hdepthHere h ((hreport schedule r).1 hr).1
  obtain ⟨schedule, -, hentries, hdisk⟩ := exists_schedule_of_runSources
    (List.finRange sources.length) (List.nodup_finRange _)
    (start config options depth disk sources) (fun _ _ => rfl)
    (by rwa [List.length_finRange])
  rw [List.map_get_finRange] at hentries hdisk
  have hrun : report? ((start config options depth disk sources).turns schedule)
      = some ⟨(runSources config options disk sources).1⟩ := by
    rw [report?, hentries]
    rfl
  have hdone := Option.isSome_of_eq_some hrun
  exact ⟨hreport, hholds, congrArg Report.entries ((hreport schedule _).1 hrun).2,
    hdisk ▸ hholds schedule hdone⟩

def mixedDisk : Disk := ⟨[], [
  (["a.ts"], .file "class A extends HTMLElement\x7bm(...n:string[])\x7b\x7d\x7d".toUTF8),
  (["b.ts"], .file ("import type\x7bP\x7dfrom'./d.js';export class B extends HTMLElement"
    ++ "\x7bm(p:P)\x7b\x7d\x7d").toUTF8),
  (["d.ts"], .file "export interface P\x7b\x7d".toUTF8)]⟩

def mixedSources : List Path := [⟨"a.ts"⟩, ⟨"b.ts"⟩]

theorem isolated_turns_mixed :
    Isolated .standard .standard 24576 mixedDisk mixedSources ∧
    (separateReport .standard .standard mixedDisk mixedSources).entries.map
      (fun e => e.failure?.isSome) = [true, false] ∧
    HoldsBridges .standard .standard mixedDisk mixedSources
      (runSources .standard .standard mixedDisk mixedSources).2 :=
  have hisolated : Isolated .standard .standard 24576 mixedDisk mixedSources := by decide +kernel
  ⟨hisolated, by decide +kernel, (isolated_turns (by decide) hisolated).2.2.2⟩

def filesOf (disk : Disk) (source : Path) : List Path :=
  source :: match SourceFile.read disk source with
    | .error _ => []
    | .ok file =>
        match file.parse with
        | .error _ => []
        | .ok m => (ModuleGraph.load disk file m).modules.paths

def behindBridgeDisk : Disk :=
  ⟨[], [(["a.ts"], .file "export class A extends HTMLElement\x7b\x7d".toUTF8)]⟩

def behindBridgeSources : List Path := [⟨"a.ts"⟩, ⟨"a_bridge.js/b.ts"⟩]

/-- No bridge is in the place of another or of a file that is read. Yet a missing source fails in
another way when the bridge of the first one stands where its directory would be. -/
theorem not_separate_behindBridge :
    (behindBridgeSources.map Config.standard.outputPath).Pairwise (fun p q => p.same q = false) ∧
    (∀ source ∈ behindBridgeSources, ∀ p ∈ filesOf behindBridgeDisk source,
      ∀ q ∈ behindBridgeSources.map Config.standard.outputPath, p.same q = false) ∧
    (separateReport .standard .standard behindBridgeDisk behindBridgeSources).entries.map
      Entry.failure? = [none,
        some (.unreadable "a_bridge.js/b.ts" "No such file or directory (os error 2)")] ∧
    (runSources .standard .standard behindBridgeDisk behindBridgeSources).1.map Entry.failure?
      = [none, some (.unreadable "a_bridge.js/b.ts" "Not a directory (os error 20)")] := by
  decide +kernel

def behindOldBridgeDisk : Disk :=
  { behindBridgeDisk with
    entries := behindBridgeDisk.entries ++ [(["a_bridge.js"], .file "".toUTF8)] }

example : Isolated .standard .standard 24576 behindOldBridgeDisk behindBridgeSources ∧
    ¬Isolated .standard .standard 24576 behindBridgeDisk behindBridgeSources := by
  decide +kernel

end Batch

end ElementBridge
