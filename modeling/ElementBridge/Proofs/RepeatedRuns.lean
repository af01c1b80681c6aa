import ElementBridge.Proofs.BatchIsolation
import ElementBridge.Proofs.BridgePlaces

/-!
Runs over one list of sources: under a check, and a second time. A check succeeds where a run would
leave every bridge as it is, and after one run a second has nothing left to do.
-/

namespace ElementBridge

namespace Disk

variable {d d' : Disk} {p : Path}

namespace SameAt

variable (h : SameAt p d d')
include h

theorem read : SourceFile.read d' p = SourceFile.read d p := by
  unfold SourceFile.read readText Disk.read
  rw [h.lookup]

theorem update (content : ByteArray) (options : WriteOptions) :
    (store.update d' p content options).map Prod.fst
      = (store.update d p content options).map Prod.fst := by
  have hread : store.read? d' p = store.read? d p := by
    unfold store Disk.read? Disk.read
    dsimp only
    rw [h.lookup]
  have hput : (return (Status.written, ← store.replace d' p content)
      : Except Fault (Status × Disk)).map Prod.fst
      = (return (Status.written, ← store.replace d p content)
        : Except Fault (Status × Disk)).map Prod.fst := by
    change (return (Status.written, ← d'.replace p content)
      : Except Fault (Status × Disk)).map Prod.fst
      = (return (Status.written, ← d.replace p content)
        : Except Fault (Status × Disk)).map Prod.fst
    rcases h.replace content with ⟨f, hd, hd'⟩ | ⟨l, -, -, hd, hd'⟩
    · rw [hd, hd']
    · rw [hd, hd']
      rfl
  unfold Store.update
  rw [hread]
  split
  · cases store.read? d p with
    | error fault => rfl
    | ok old =>
        simp only [bind, Except.bind]
        split
        · rfl
        · split
          · rfl
          · exact hput
  · exact hput

theorem write (bridge : Bridge) (config : Config) (options : WriteOptions) :
    (store.write d' p bridge config options).1 = (store.write d p bridge config options).1 := by
  have hwrite (d : Disk) : (store.write d p bridge config options).1
      = (((store.update d p (bridge.render config.headerLines).toUTF8 options).map Prod.fst).map
          (⟨·, p, bridge.render config.headerLines⟩)).mapError (.unwritable p.text ·.text) := by
    unfold Store.write
    dsimp only
    cases store.update d p (bridge.render config.headerLines).toUTF8 options <;> rfl
  rw [hwrite, hwrite, h.update]

end SameAt

end Disk

def Outcome.settled (o : Outcome) : Outcome := { o with status := .unchanged }

namespace Batch

def Entry.settled (e : Entry) : Entry := { e with result := e.result.map Outcome.settled }

variable {config : Config} {options : WriteOptions} {disk final : Disk} {sources : List Path}
  {source s t : Path}

def IsCurrent (config : Config) (disk : Disk) (source : Path) : Prop :=
  ∃ bridge, bridgeOf config disk source = .ok bridge ∧
    disk.read? (config.outputPath source) = .ok (some (bridge.render config.headerLines).toUTF8)

theorem bridgeFile_current (hcompares : options.compares = true) {bridge : Bridge}
    (hbridge : bridgeOf config disk source = .ok bridge)
    (hread : disk.read? (config.outputPath source)
      = .ok (some (bridge.render config.headerLines).toUTF8)) :
    bridgeFile config options disk source = (.ok ⟨.unchanged, config.outputPath source,
      bridge.render config.headerLines⟩, disk) := by
  have hstore : Disk.store.read? disk (config.outputPath source)
      = .ok (some (bridge.render config.headerLines).toUTF8) := hread
  have hsame (content : ByteArray) : sameBytes content content = true := sameBytes_iff.2 rfl
  rw [bridgeFile_eq, hbridge]
  simp only [Store.write, Store.update, hcompares, if_true, hstore, bind, Except.bind,
    Option.any_some, hsame, pure, Except.pure]

theorem isCurrent_iff (hcompares : options.compares = true) :
    IsCurrent config disk source ↔
      ∃ outcome, (bridgeFile config options disk source).1 = .ok outcome ∧
        outcome.status = .unchanged := by
  constructor
  · rintro ⟨bridge, hbridge, hread⟩
    exact ⟨_, by rw [bridgeFile_current hcompares hbridge hread], rfl⟩
  · rintro ⟨outcome, hok, hstatus⟩
    obtain ⟨bridge, hbridge, houtput, hcode, hupdate⟩ := bridgeFile_ok hok
    refine ⟨bridge, hbridge, ?_⟩
    rcases Disk.update_ok hupdate with ⟨-, -, hread⟩ | ⟨hother, -⟩ | ⟨hother, -⟩
    · rwa [← houtput, ← hcode]
    · simp [hstatus] at hother
    · simp [hstatus] at hother

theorem bridgeFile_of_isCurrent (hcompares : options.compares = true)
    (h : IsCurrent config disk source) : (bridgeFile config options disk source).2 = disk := by
  obtain ⟨bridge, hbridge, hread⟩ := h
  rw [bridgeFile_current hcompares hbridge hread]

theorem bridgeFile_check (hcheck : options.check = true) :
    (bridgeFile config options disk source).2 = disk ∧
      ((∃ outcome, (bridgeFile config options disk source).1 = .ok outcome ∧
        outcome.status ≠ .stale) ↔ IsCurrent config disk source) := by
  have hcompares : options.compares = true := by simp [WriteOptions.compares, hcheck]
  rw [isCurrent_iff hcompares]
  cases hresult : (bridgeFile config options disk source).1 with
  | error failure => exact ⟨bridgeFile_error hresult, by simp⟩
  | ok outcome =>
      obtain ⟨bridge, -, -, -, hupdate⟩ := bridgeFile_ok hresult
      rcases Disk.update_ok hupdate with ⟨hstatus, hdisk, -⟩ | ⟨hstatus, hdisk, -⟩ | ⟨-, hother, -⟩
      · exact ⟨hdisk, by simp [hstatus]⟩
      · exact ⟨hdisk, by simp [hstatus]⟩
      · exact absurd (hcheck.symm.trans hother) (by simp)

theorem isSuccess_check {r : Report} : r.isSuccess true = true ↔
    ∀ e ∈ r.entries, ∃ outcome, e.result = .ok outcome ∧ outcome.status ≠ .stale := by
  have hentry (e : Entry) : (e.failure? = none ∧ e.stale? = none) ↔
      ∃ outcome, e.result = .ok outcome ∧ outcome.status ≠ .stale := by
    unfold Entry.failure? Entry.stale? Entry.outcome?
    cases e.result with
    | error failure => simp
    | ok outcome => simp [Except.toOption, Option.filter, Outcome.isStale]
  simp only [Report.isSuccess, Report.failures, Report.stale, Bool.not_true, Bool.false_or,
    Bool.and_eq_true, List.isEmpty_iff, List.filterMap_eq_nil_iff, Option.map_eq_none_iff]
  simp only [← hentry, forall_and]

theorem runSources_cons (config : Config) (options : WriteOptions) (disk : Disk) (source : Path)
    (rest : List Path) : runSources config options disk (source :: rest)
      = (⟨source, (bridgeFile config options disk source).1⟩ ::
          (runSources config options (bridgeFile config options disk source).2 rest).1,
        (runSources config options (bridgeFile config options disk source).2 rest).2) := rfl

theorem runSources_of_kept (h : ∀ source ∈ sources, (bridgeFile config options disk source).2 = disk) :
    runSources config options disk sources
      = ((separateReport config options disk sources).entries, disk) := by
  induction sources with
  | nil => rfl
  | cons source rest ih =>
      obtain ⟨hsource, hrest⟩ := List.forall_mem_cons.1 h
      rw [runSources_cons, hsource, ih hrest]
      rfl

theorem unchanged_iff (hcompares : options.compares = true) :
    (∀ e ∈ (runSources config options disk sources).1,
      ∃ outcome, e.result = .ok outcome ∧ outcome.status = .unchanged) ↔
      ∀ source ∈ sources, IsCurrent config disk source := by
  induction sources with
  | nil => simp [runSources]
  | cons source rest ih =>
      rw [runSources_cons, List.forall_mem_cons, List.forall_mem_cons, ← isCurrent_iff hcompares]
      refine and_congr_right fun hcurrent => ?_
      rw [bridgeFile_of_isCurrent hcompares hcurrent]
      exact ih

theorem check_iff {checking : WriteOptions} (hcheck : checking.check = true)
    (hcompares : options.compares = true) :
    (runSources config checking disk sources).2 = disk ∧
      (Report.isSuccess ⟨(runSources config checking disk sources).1⟩ true = true ↔
        ∀ e ∈ (runSources config options disk sources).1,
          ∃ outcome, e.result = .ok outcome ∧ outcome.status = .unchanged) := by
  rw [unchanged_iff hcompares, isSuccess_check,
    runSources_of_kept fun source _ => (bridgeFile_check hcheck).1]
  refine ⟨rfl, ?_⟩
  simp only [separateReport, List.forall_mem_map, (bridgeFile_check hcheck).2]

/-- The file of the bridge of `s` would change no access to the source `t` and its bridge. -/
def Clear (config : Config) (disk : Disk) (s t : Path) : Prop :=
  ∀ l, disk.locate (config.outputPath s) = .ok l →
    disk.Spares l t ∧ disk.Spares l (config.outputPath t)

instance : Decidable (Clear config disk s t) :=
  decidable_of_iff (∀ l ∈ (disk.locate (config.outputPath s)).toOption,
      disk.Spares l t ∧ disk.Spares l (config.outputPath t)) (by
    simp only [Clear, Option.mem_def, toOption_eq_some])

theorem Writes.unique {l : Location} {content content' : ByteArray}
    (h : Writes config options disk s l content) (h' : Writes config options disk s l content') :
    content = content' := by
  obtain ⟨outcome, hok, -, -, rfl⟩ := h
  obtain ⟨outcome', hok', -, -, rfl⟩ := h'
  obtain rfl := Except.ok.inj (hok.symm.trans hok')
  rfl

theorem writes_of_written {outcome : Outcome}
    (hok : (bridgeFile config options disk s).1 = .ok outcome) (hstatus : outcome.status = .written) :
    ∃ l content, Writes config options disk s l content := by
  rcases bridgeFile_cases config options disk s with ⟨outcome', l, hok', -, hl, -⟩ | ⟨-, hother⟩
  · obtain rfl := Except.ok.inj (hok.symm.trans hok')
    exact ⟨l, _, outcome, hok, hstatus, hl, rfl⟩
  · exact absurd hstatus (hother outcome hok)

theorem bridgeFile_of_unwritten (hcheck : options.check = false)
    (h : ∀ outcome, (bridgeFile config options disk s).1 = .ok outcome →
      outcome.status ≠ .written) :
    bridgeFile config options disk s
      = ((bridgeFile config options disk s).1.map Outcome.settled, disk) := by
  cases hresult : (bridgeFile config options disk s).1 with
  | error failure => exact Prod.ext hresult (bridgeFile_error hresult)
  | ok outcome =>
      obtain ⟨bridge, -, -, -, hupdate⟩ := bridgeFile_ok hresult
      rcases Disk.update_ok hupdate with ⟨hstatus, hdisk, -⟩ | ⟨-, -, hother⟩ | ⟨hstatus, -⟩
      · have hsettled : outcome.settled = outcome := by rw [Outcome.settled, ← hstatus]
        refine Prod.ext (hresult.trans ?_) hdisk
        rw [Except.map, hsettled]
      · exact absurd (hcheck.symm.trans hother) (by simp)
      · exact absurd hstatus (h outcome hresult)

theorem bridgeOf_congr (hbridges : Disk.AddsBridges disk final)
    (hread : SourceFile.read final source = SourceFile.read disk source) :
    bridgeOf config final source = bridgeOf config disk source := by
  unfold bridgeOf SourceFile.bridge
  rw [hread]
  simp only [hbridges.surface]

theorem bridgeFile_congr (hbridge : bridgeOf config final source = bridgeOf config disk source)
    (houtput : Disk.SameAt (config.outputPath source) disk final) :
    (bridgeFile config options final source).1 = (bridgeFile config options disk source).1 := by
  rw [bridgeFile_eq, bridgeFile_eq, hbridge]
  cases bridgeOf config disk source with
  | error failure => rfl
  | ok bridge => exact houtput.write bridge config options

namespace HoldsBridges

theorem nil (config : Config) (options : WriteOptions) (disk : Disk) :
    HoldsBridges config options disk [] disk :=
  ⟨rfl, by simp, fun _ _ => rfl⟩

variable (h : HoldsBridges config options disk sources final)
include h

theorem node_cases (l : Location) : final.node? l = disk.node? l ∨
    ∃ s ∈ sources, ∃ content, Writes config options disk s l content ∧
      final.node? l = some (.file content) := by
  by_cases hwritten : ∃ s ∈ sources, ∃ content, Writes config options disk s l content
  · obtain ⟨s, hs, content, hwrites⟩ := hwritten
    exact .inr ⟨s, hs, content, hwrites, h.bridges s hs l content hwrites⟩
  · refine .inl (h.rest l fun s hs content hwrites => ?_)
    exact hwritten ⟨s, hs, content, hwrites⟩

theorem addsBridges (hsuffix : config.outputSuffix = Config.standard.outputSuffix) :
    Disk.AddsBridges disk final where
  workingDirectory := h.directory
  node := by
    intro l
    rcases h.node_cases l with heq | ⟨s, -, content, hwrites, hfile⟩
    · exact .inl heq
    · obtain ⟨hl, hnode, -⟩ := hwrites.replaces
      refine .inr ⟨?_, hnode, content, hfile⟩
      rw [(Disk.locate_eq hl).1]
      exact (Disk.place_outputPath hsuffix disk s).1

theorem sameAt {p : Path} (hspares : ∀ s ∈ sources, ∀ l content,
    Writes config options disk s l content → disk.Spares l p) : Disk.SameAt p disk final := by
  refine .of_spares h.directory fun l => ?_
  rcases h.node_cases l with heq | ⟨s, hs, content, hwrites, hfile⟩
  · exact .inl heq
  · exact .inr ⟨hspares s hs l content hwrites, hwrites.replaces.2.1, content, hfile⟩

theorem bridgeFile_eq_alone (hsuffix : config.outputSuffix = Config.standard.outputSuffix)
    (hclear : ∀ s ∈ sources, ∀ l content, Writes config options disk s l content →
      Clear config disk s t) :
    (bridgeFile config options final t).1 = (bridgeFile config options disk t).1 ∧
      final.locate (config.outputPath t) = disk.locate (config.outputPath t) := by
  have hsource : Disk.SameAt t disk final := h.sameAt fun s hs l content hwrites =>
    (hclear s hs l content hwrites l hwrites.replaces.1).1
  have houtput : Disk.SameAt (config.outputPath t) disk final :=
    h.sameAt fun s hs l content hwrites => (hclear s hs l content hwrites l hwrites.replaces.1).2
  exact ⟨bridgeFile_congr (bridgeOf_congr (h.addsBridges hsuffix) hsource.read) houtput,
    houtput.locate⟩

theorem snoc (hsuffix : config.outputSuffix = Config.standard.outputSuffix)
    (hclear : ∀ s ∈ sources, Clear config disk s t) :
    HoldsBridges config options disk (sources ++ [t]) (bridgeFile config options final t).2 := by
  obtain ⟨hresult, hlocate⟩ := h.bridgeFile_eq_alone hsuffix fun s hs _ _ _ => hclear s hs
  rcases bridgeFile_cases config options final t with
    ⟨outcome, l, hok, hstatus, hl, hnode, hdisk⟩ | ⟨hdisk, hother⟩
  · have hwrites : Writes config options disk t l outcome.code.toUTF8 :=
      ⟨outcome, hresult ▸ hok, hstatus, by rwa [output_of_bridgeFile hok, ← hlocate,
        ← output_of_bridgeFile hok], rfl⟩
    rw [hdisk]
    refine ⟨h.directory, fun s hs k content hcontent => ?_, fun k hk => ?_⟩
    · rw [Disk.node?_withFile hnode]
      rcases List.mem_append.1 hs with hs | hs
      · have hne : k ≠ l := by
          rintro rfl
          exact (hclear s hs k hcontent.replaces.1).2.other hwrites.replaces.1
        rw [if_neg hne]
        exact h.bridges s hs k content hcontent
      · obtain rfl := List.mem_singleton.1 hs
        obtain rfl := Except.ok.inj (hcontent.replaces.1.symm.trans hwrites.replaces.1)
        rw [if_pos rfl, hcontent.unique hwrites]
    · have hne : k ≠ l := by
        rintro rfl
        exact hk t (by simp) _ hwrites
      rw [Disk.node?_withFile hnode, if_neg hne]
      exact h.rest k fun s hs => hk s (List.mem_append_left _ hs)
  · rw [hdisk]
    refine ⟨h.directory, fun s hs k content hcontent => ?_, fun k hk => ?_⟩
    · rcases List.mem_append.1 hs with hs | hs
      · exact h.bridges s hs k content hcontent
      · obtain rfl := List.mem_singleton.1 hs
        obtain ⟨outcome, hok, hstatus, -⟩ := hcontent
        exact absurd hstatus (hother outcome (hresult.trans hok))
    · exact h.rest k fun s hs => hk s (List.mem_append_left _ hs)

theorem runSources_entries (hsuffix : config.outputSuffix = Config.standard.outputSuffix)
    {rest : List Path} (hclear : (sources ++ rest).Pairwise (Clear config disk)) :
    (runSources config options final rest).1 = (separateReport config options disk rest).entries ∧
      HoldsBridges config options disk (sources ++ rest) (runSources config options final rest).2 := by
  induction rest generalizing sources final with
  | nil => exact ⟨rfl, by rwa [List.append_nil]⟩
  | cons t rest ih =>
      have hbefore : ∀ s ∈ sources, Clear config disk s t := fun s hs =>
        (List.pairwise_append.1 hclear).2.2 s hs t List.mem_cons_self
      obtain ⟨hresult, -⟩ := h.bridgeFile_eq_alone hsuffix fun s hs _ _ _ => hbefore s hs
      have hsplit : sources ++ t :: rest = sources ++ [t] ++ rest := by simp
      rw [hsplit] at hclear ⊢
      obtain ⟨hentries, hholds⟩ := ih (h.snoc hsuffix hbefore) hclear
      rw [runSources_cons]
      refine ⟨?_, hholds⟩
      rw [hentries, hresult]
      rfl

theorem node_source (hsuffix : config.outputSuffix = Config.standard.outputSuffix)
    (hclear : ∀ s ∈ sources, s ≠ t → Clear config disk s t) {l : Location}
    (hl : disk.locate t = .ok l) : final.node? l = disk.node? l := by
  rcases h.node_cases l with heq | ⟨s, hs, content, hwrites, -⟩
  · exact heq
  · have hplace := hwrites.replaces.1
    by_cases hst : s = t
    · -- a source is not in the place of its own bridge
      subst hst
      rw [(Disk.locate_eq hl).1] at hplace
      exact absurd (Disk.locate_eq hplace).1 (Disk.place_outputPath hsuffix disk s).2
    · exact absurd hl (hclear s hs hst l hplace).1.other

theorem again_of_writes (hsuffix : config.outputSuffix = Config.standard.outputSuffix)
    (hcompares : options.compares = true)
    (hclear : ∀ s ∈ sources, s ≠ t → Clear config disk s t) (ht : t ∈ sources) {l : Location}
    {content : ByteArray} (hwrites : Writes config options disk t l content) :
    bridgeFile config options final t
      = ((bridgeFile config options disk t).1.map Outcome.settled, final) := by
  have hbridges := h.addsBridges hsuffix
  have hfile := h.bridges t ht l content hwrites
  obtain ⟨outcome, hok, hstatus, hl, rfl⟩ := hwrites
  obtain ⟨bridge, hbridge, houtput, hcode, -⟩ := bridgeFile_ok hok
  have hread : SourceFile.read final t = SourceFile.read disk t := by
    cases hsource : SourceFile.read disk t with
    | error fault => simp [bridgeOf, hsource] at hbridge
    | ok file => exact (hbridges.read_ok fun l hl => h.node_source hsuffix hclear hl).2 hsource
  have hfinal : bridgeOf config final t = .ok bridge := (bridgeOf_congr hbridges hread).trans hbridge
  have hcurrent : final.read? (config.outputPath t)
      = .ok (some (bridge.render config.headerLines).toUTF8) := by
    have hlocate : final.locate (config.outputPath t) = .ok l :=
      hbridges.locate_ok.2 (houtput ▸ hl)
    simp only [Disk.read?, Disk.read, Disk.lookup, hlocate, hfile, bind, Except.bind, pure,
      Except.pure, hcode]
  rw [bridgeFile_current hcompares hfinal hcurrent, hok]
  simp [Except.map, Outcome.settled, houtput, hcode]

theorem again (hsuffix : config.outputSuffix = Config.standard.outputSuffix)
    (hcompares : options.compares = true) (hcheck : options.check = false)
    (hclear : ∀ s ∈ sources, s ≠ t → Clear config disk s t) (ht : t ∈ sources) :
    bridgeFile config options final t
      = ((bridgeFile config options disk t).1.map Outcome.settled, final) := by
  by_cases hwritten : ∃ l content, Writes config options disk t l content
  · obtain ⟨l, content, hwrites⟩ := hwritten
    exact h.again_of_writes hsuffix hcompares hclear ht hwrites
  · have hothers : ∀ s ∈ sources, ∀ l content, Writes config options disk s l content →
        Clear config disk s t := by
      intro s hs l content hwrites
      exact hclear s hs (by rintro rfl; exact hwritten ⟨l, content, hwrites⟩)
    obtain ⟨hresult, -⟩ := h.bridgeFile_eq_alone hsuffix hothers
    have hunwritten : ∀ outcome, (bridgeFile config options final t).1 = .ok outcome →
        outcome.status ≠ .written := fun outcome hok hstatus =>
      hwritten (writes_of_written (hresult ▸ hok) hstatus)
    rw [bridgeFile_of_unwritten hcheck hunwritten, hresult]

end HoldsBridges

theorem runSources_again (hsuffix : config.outputSuffix = Config.standard.outputSuffix)
    (hcompares : options.compares = true) (hcheck : options.check = false)
    (hclear : sources.Pairwise fun s t => Clear config disk s t ∧ Clear config disk t s) :
    runSources config options (runSources config options disk sources).2 sources
      = ((runSources config options disk sources).1.map Entry.settled,
        (runSources config options disk sources).2) := by
  have hsymm : Std.Symm fun s t => Clear config disk s t ∧ Clear config disk t s :=
    ⟨fun _ _ h => h.symm⟩
  obtain ⟨hentries, hholds⟩ := (HoldsBridges.nil config options disk).runSources_entries hsuffix
    (sources.nil_append.symm ▸ hclear.imp And.left)
  have hagain (t : Path) (ht : t ∈ sources) := hholds.again hsuffix hcompares hcheck
    (fun s hs hne => (hclear.forall hs ht hne).1) ht
  rw [runSources_of_kept fun t ht => by rw [hagain t ht], hentries]
  refine Prod.ext ?_ rfl
  simp only [separateReport, List.map_map]
  refine List.map_congr_left fun t ht => ?_
  simp only [hagain t ht]
  rfl

/-- A check changes nothing and succeeds just where a run would find every bridge as it is. After a
run over sources whose bridges are out of each other's way a second run changes nothing either, has
the same bridges, and fails for the same sources in the same way. -/
theorem check_and_second_run {checking writing : WriteOptions} (hchecking : checking.check = true)
    (hwriting : writing.check = false) (hforce : writing.forceRewriting = false)
    (config : Config) (disk : Disk) (sources : List Path) :
    ((runSources config checking disk sources).2 = disk ∧
      (Report.isSuccess ⟨(runSources config checking disk sources).1⟩ true = true ↔
        ∀ e ∈ (runSources config writing disk sources).1,
          ∃ outcome, e.result = .ok outcome ∧ outcome.status = .unchanged)) ∧
    (config.outputSuffix = Config.standard.outputSuffix →
      sources.Pairwise (fun s t => Clear config disk s t ∧ Clear config disk t s) →
      runSources config writing (runSources config writing disk sources).2 sources
        = ((runSources config writing disk sources).1.map Entry.settled,
          (runSources config writing disk sources).2)) := by
  have hcompares : writing.compares = true := by simp [WriteOptions.compares, hforce]
  exact ⟨check_iff hchecking hcompares, fun hsuffix hclear =>
    runSources_again hsuffix hcompares hwriting hclear⟩

def throughBridgeDisk : Disk := ⟨[], [
  (["a.ts"], .file "export class A extends HTMLElement\x7b\x7d".toUTF8),
  (["b.ts"], .file ("import type\x7bP\x7dfrom'./a_bridge.js/x';"
    ++ "export class B extends HTMLElement\x7bm(p:P)\x7b\x7d\x7d").toUTF8)]⟩

def throughBridgeSources : List Path := [⟨"a.ts"⟩, ⟨"b.ts"⟩, ⟨"c.ts"⟩]

theorem second_run_throughBridge :
    throughBridgeSources.Pairwise (fun s t => Clear .standard throughBridgeDisk s t ∧
      Clear .standard throughBridgeDisk t s) ∧
    (separateReport .standard .standard throughBridgeDisk throughBridgeSources).entries.map
      (fun e => e.outcome?.map (·.status)) = [some .written, some .written, none] ∧
    (runSources .standard ⟨true, false, true⟩ throughBridgeDisk throughBridgeSources).2
      = throughBridgeDisk ∧
    runSources .standard .standard
        (runSources .standard .standard throughBridgeDisk throughBridgeSources).2 throughBridgeSources
      = ((runSources .standard .standard throughBridgeDisk throughBridgeSources).1.map Entry.settled,
        (runSources .standard .standard throughBridgeDisk throughBridgeSources).2) :=
  have hclear : throughBridgeSources.Pairwise (fun s t => Clear .standard throughBridgeDisk s t ∧
      Clear .standard throughBridgeDisk t s) := by decide +kernel
  have hruns := @check_and_second_run ⟨true, false, true⟩ .standard rfl rfl rfl .standard
    throughBridgeDisk throughBridgeSources
  ⟨hclear, by decide +kernel, hruns.1.1, hruns.2 rfl hclear⟩

def beforeBridgeSources : List Path := [⟨"a_bridge.js/b.ts"⟩, ⟨"a.ts"⟩]

theorem read_behind_file (hdirectory : disk.workingDirectory = [])
    (hfile : disk.isFile ⟨"a_bridge.js"⟩ = true) :
    SourceFile.read disk ⟨"a_bridge.js/b.ts"⟩ = .error .notDirectory := by
  have hroot : disk.node? [] = some .directory := by simp [Disk.node?]
  have hin : disk.step [] "a_bridge.js".toList = .ok ["a_bridge.js"] := by
    unfold Disk.step
    rw [hroot]
    rfl
  obtain ⟨content, hlookup⟩ := Disk.isFile_iff.1 hfile
  obtain ⟨l, hl, hnode⟩ := Disk.lookup_eq_ok.1 hlookup
  have hsplitFile : Path.split "a_bridge.js".toList = ["a_bridge.js".toList] := by decide +kernel
  rw [Disk.locate_eq_start (by decide) (by decide), Disk.start, hsplitFile, hdirectory, ite_self,
    List.foldlM_cons, hin] at hl
  obtain rfl : ["a_bridge.js"] = l := Except.ok.inj hl
  have hout : disk.step ["a_bridge.js"] "b.ts".toList = .error .notDirectory := by
    unfold Disk.step
    rw [hnode]
  have hsplit : Path.split "a_bridge.js/b.ts".toList = ["a_bridge.js".toList, "b.ts".toList] := by
    decide +kernel
  have hlocate : disk.locate ⟨"a_bridge.js/b.ts"⟩ = .error .notDirectory := by
    rw [Disk.locate_eq_start (by decide) (by decide), Disk.start, hsplit, hdirectory, ite_self]
    simp only [List.foldlM_cons, hin, hout, bind, Except.bind]
  simp only [SourceFile.read, Disk.readText, Disk.read, Disk.lookup, hlocate, bind, Except.bind]

/-- It is not enough that the bridges have different paths and none is a source. -/
theorem not_second_run_beforeBridge :
    (beforeBridgeSources.map Config.standard.outputPath).Pairwise (fun p q => p.same q = false) ∧
    (∀ source ∈ beforeBridgeSources, ∀ p ∈ beforeBridgeSources.map Config.standard.outputPath,
      source.same p = false) ∧
    (runSources .standard .standard behindBridgeDisk beforeBridgeSources).1.head?.bind Entry.failure?
      = some (.unreadable "a_bridge.js/b.ts" "No such file or directory (os error 2)") ∧
    (runSources .standard .standard
        (runSources .standard .standard behindBridgeDisk beforeBridgeSources).2
        beforeBridgeSources).1.head?.bind Entry.failure?
      = some (.unreadable "a_bridge.js/b.ts" "Not a directory (os error 20)") := by
  refine ⟨by decide +kernel, by decide +kernel, by decide +kernel, ?_⟩
  have hdirectory : (runSources .standard .standard behindBridgeDisk
      beforeBridgeSources).2.workingDirectory = [] := by decide +kernel
  have hbridge : (runSources .standard .standard behindBridgeDisk
      beforeBridgeSources).2.isFile ⟨"a_bridge.js"⟩ = true := by decide +kernel
  generalize (runSources .standard .standard behindBridgeDisk beforeBridgeSources).2 = final
    at hdirectory hbridge ⊢
  rw [beforeBridgeSources, runSources_cons, bridgeFile, read_behind_file hdirectory hbridge]
  rfl

end Batch

end ElementBridge
