import ElementBridge.Proofs.AlikeRuns
import ElementBridge.Proofs.ClosedBridge
import ElementBridge.Proofs.SurfaceFailures

/-!
One more declaration in a module. If nothing leads to it, the source fails as it did before, or has
the surface that it had, with the declaration among those it could choose from.
-/

namespace ElementBridge

open ElementBridge.Tree

namespace Tree

namespace Declaration

def typeName? : Declaration → Option String
  | .interface node => some node.name.text
  | .alias node => some node.name.text
  | .enum node => some node.name.text
  | .classDef _ | .other => none

variable {d : Declaration}

theorem typeName?_of_interface {i : Interface} (h : i ∈ d.interfaces) :
    d.typeName? = some i.name := by
  cases d with
  | interface node =>
      have hi := eq_ok_of_toOption (Option.mem_toList.1 h)
      unfold Interface.ofNode at hi
      split at hi
      · cases hi
      · simp only [bind_eq_ok, pure_eq_ok] at hi
        obtain ⟨_, -, _, -, rfl⟩ := hi
        rfl
  | «alias» node =>
      have hi := eq_ok_of_toOption (Option.mem_toList.1 h)
      unfold Interface.ofAlias at hi
      split at hi
      · cases hi
      · simp only [bind_eq_ok, pure_eq_ok] at hi
        obtain ⟨_, -, rfl⟩ := hi
        rfl
  | _ => exact absurd h List.not_mem_nil

theorem typeName?_of_enum {e : Enumeration} (h : e ∈ d.enums) : d.typeName? = some e.name := by
  cases d with
  | enum node =>
      have he := eq_ok_of_toOption (Option.mem_toList.1 h)
      unfold Enumeration.ofNode at he
      rw [bind_eq_ok] at he
      obtain ⟨ms, -, he⟩ := he
      split at he
      · cases he
      · rw [← pure_eq_ok.1 he]
        rfl
  | _ => exact absurd h List.not_mem_nil

theorem typeName?_of_obstacle {name : String} {o : Obstacle} (h : (name, o) ∈ d.obstacles) :
    d.typeName? = some name := by
  have under {α : Type} {declared : String} {lowered : Except Obstacle α}
      (h : (name, o) ∈ Obstacle.under declared lowered) : declared = name := by
    cases lowered with
    | ok a => exact absurd h List.not_mem_nil
    | error o' => exact (Prod.mk.inj (List.mem_singleton.1 h)).1.symm
  cases d with
  | interface node => exact congrArg some (under h)
  | «alias» node => exact congrArg some (under h)
  | enum node => exact congrArg some (under h)
  | _ => exact absurd h List.not_mem_nil

theorem exists_name_of_typeName? {name : String} (h : d.typeName? = some name) :
    ∃ word : Name, name = word.text := by
  cases d with
  | interface node => exact ⟨node.name, (Option.some.inj h).symm⟩
  | «alias» node => exact ⟨node.name, (Option.some.inj h).symm⟩
  | enum node => exact ⟨node.name, (Option.some.inj h).symm⟩
  | _ => cases h

end Declaration

def Statement.isDeclaration : Statement → Bool
  | .declare _ | .exportDeclaration _ | .exportDefault _ => true
  | _ => false

def Statement.typeNames (st : Statement) : List String :=
  st.declared.filterMap fun d => d.2.typeName?

/-- A declaration that is no host class, and no type or enum with one of some names. -/
structure Statement.Avoids (st : Statement) (config : Config) (names : String → Prop) : Prop where
  declares : st.isDeclaration = true
  noHost : Module.hosts config [st] = []
  unnamed : ∀ name ∈ st.typeNames, ¬ names name

namespace Statement.Avoids

variable {st : Statement} {config : Config} {names : String → Prop}

theorem mono {fewer : String → Prop} (h : st.Avoids config names)
    (hfewer : ∀ name, fewer name → names name) : st.Avoids config fewer :=
  ⟨h.declares, h.noHost, fun name hname hn => h.unnamed name hname (hfewer name hn)⟩

theorem not_typeName (h : st.Avoids config names) {d : Export × Declaration} (hd : d ∈ st.declared)
    {name : String} (hname : d.2.typeName? = some name) : ¬ names name :=
  h.unnamed name (List.mem_filterMap.2 ⟨d, hd, hname⟩)

theorem silent (h : st.Avoids config names) :
    st.symbols = [] ∧ st.registered = [] ∧ st.exportScan.followed = [] := by
  have hdeclares := h.declares
  cases st with
  | declare d => exact ⟨rfl, rfl, rfl⟩
  | exportDeclaration d => exact ⟨rfl, rfl, rfl⟩
  | exportDefault node => exact ⟨rfl, rfl, rfl⟩
  | _ => cases hdeclares

end Statement.Avoids

namespace Module

variable {config : Config} {before after : Module} {st : Statement} {names : String → Prop}

theorem filter_insert {α : Type} {parts : Export × Declaration → List α} {p : α → Bool}
    (h : ∀ d ∈ st.declared, ∀ a ∈ parts d, p a = false) :
    ((declared (before ++ st :: after)).flatMap parts).filter p
      = ((declared (before ++ after)).flatMap parts).filter p := by
  have hnone : (st.declared.flatMap parts).filter p = [] := by
    refine List.filter_eq_nil_iff.2 fun a ha => ?_
    obtain ⟨d, hd, ha⟩ := List.mem_flatMap.1 ha
    simp [h d hd a ha]
  simp only [declared, List.flatMap_append, List.flatMap_cons, List.filter_append, hnone,
    List.nil_append]

theorem find?_insert {α : Type} {parts : Export × Declaration → List α} {p : α → Bool}
    (h : ∀ d ∈ st.declared, ∀ a ∈ parts d, p a = false) :
    ((declared (before ++ st :: after)).flatMap parts).find? p
      = ((declared (before ++ after)).flatMap parts).find? p := by
  rw [← List.head?_filter, ← List.head?_filter, filter_insert h]

theorem hosts_insert (h : st.Avoids config names) :
    hosts config (before ++ st :: after) = hosts config (before ++ after) := by
  refine filter_insert fun d hd c hc => ?_
  have hmem : c ∈ classes [st] := by
    rw [Collected.classes_singleton]
    exact List.mem_flatMap.2 ⟨d, hd, hc⟩
  simpa using List.filter_eq_nil_iff.1 h.noHost c hmem

theorem symbols_insert (h : st.Avoids config names) :
    symbols (before ++ st :: after) = symbols (before ++ after) := by
  simp [symbols, h.silent.1]

theorem registrations_insert (h : st.Avoids config names) :
    registrations (before ++ st :: after) = registrations (before ++ after) := by
  simp [registrations, h.silent.2.1]

theorem followed_insert (h : st.Avoids config names) :
    (exportScan (before ++ st :: after)).followed = (exportScan (before ++ after)).followed := by
  induction before with
  | nil => simp [exportScan, ExportScan.append, h.silent.2.2]
  | cons first before ih => simpa [exportScan, ExportScan.append] using ih

theorem rootName_interface {m : Module} {i : Interface} (hi : i ∈ m.interfaces) :
    rootName i.name = i.name := by
  obtain ⟨d, -, hi⟩ := List.mem_flatMap.1 hi
  obtain ⟨word, hword⟩ := d.2.exists_name_of_typeName? (Declaration.typeName?_of_interface hi)
  rw [hword, word.rootName_text]

theorem lookup_obstacles_insert (h : st.Avoids config names) {name : String} (hn : names name) :
    (obstacles (before ++ st :: after)).reverse.lookup name
      = (obstacles (before ++ after)).reverse.lookup name := by
  have hnone : (st.declared.flatMap fun d => d.2.obstacles).reverse.lookup name = none := by
    refine List.lookup_eq_none_iff.2 fun entry hentry => bne_iff_ne.2 ?_
    rintro rfl
    obtain ⟨d, hd, hentry⟩ := List.mem_flatMap.1 (List.mem_reverse.1 hentry)
    exact h.not_typeName hd (Declaration.typeName?_of_obstacle hentry) hn
  simp only [obstacles, declared, List.flatMap_append, List.flatMap_cons, List.reverse_append,
    List.lookup_append, hnone, Option.or_none]

end Module

end Tree

namespace Surface

variable {config : Config} {disk : Disk} {file wideFile : SourceFile} {before after : Module}
  {st : Statement} {s : Surface} {names : String → Prop}

/-- What a declaration has to be called to be reached: as a base is, or as the first segment of a
name is. -/
def Wants (s : Surface) (globals : List String) (name : String) : Prop :=
  Reached s globals name ∨
    ∃ type, s.Exposes globals type ∧ ∃ other ∈ type.references, rootName other = name

def WantedIn (config : Config) (file : SourceFile) (m : Module) (name : String) : Prop :=
  ∃ kind node candidate, m.hosts config = [(kind, node)] ∧
    Candidate.ofNode? config kind node = .ok (some candidate) ∧
    (startOf file m candidate).Wants config.globalTypes name

theorem alike_insert (h : st.Avoids config names)
    (hinterfaces : s.interfaces = Module.interfaces (before ++ after))
    (henums : s.enums = Module.enums (before ++ after)) :
    s.Alike (Module.interfaces (before ++ st :: after)) (Module.enums (before ++ st :: after))
      names := by
  refine ⟨fun name hn => ?_, fun name hn => ?_⟩
  · unfold Surface.interface? redeclare
    rw [hinterfaces]
    refine Module.find?_insert fun d hd i hi => beq_eq_false_iff_ne.2 ?_
    rintro rfl
    exact h.not_typeName hd (Declaration.typeName?_of_interface hi) hn
  · unfold Surface.enum? redeclare
    rw [henums]
    refine Module.find?_insert fun d hd e he => beq_eq_false_iff_ne.2 ?_
    rintro rfl
    exact h.not_typeName hd (Declaration.typeName?_of_enum he) hn

variable (config disk) in
theorem spares_insert {candidate : Candidate}
    (h : st.Avoids config ((startOf file (before ++ after) candidate).Wants config.globalTypes)) :
    (settingOf config disk file (before ++ after)).Spares
      (startOf file (before ++ after) candidate)
      (Module.obstacles (before ++ st :: after)).reverse where
  declared name hname hlocal := by
    obtain ⟨d, hd⟩ := Option.isSome_iff_exists.1 hlocal
    have hroot := Module.rootName_interface (List.mem_of_find?_eq_some hd)
    rw [interface?_name hd] at hroot
    exact Module.lookup_obstacles_insert h (.inl (hroot.symm ▸ hname))
  mentioned type htype name hname :=
    Module.lookup_obstacles_insert h (.inr ⟨type, htype, name, hname, rfl⟩)

variable (config disk) in
theorem reachOf_insert {candidate : Candidate} (hpath : wideFile.path = file.path)
    (h : st.Avoids config ((startOf file (before ++ after) candidate).Wants config.globalTypes)) :
    reachOf config disk wideFile (before ++ st :: after) candidate
      = (reachOf config disk file (before ++ after) candidate).map
        (·.redeclare (Module.interfaces (before ++ st :: after))
          (Module.enums (before ++ st :: after))) := by
  have hname : wideFile.name = file.name := congrArg Path.text hpath
  have hgraph : ModuleGraph.load disk wideFile (before ++ st :: after)
      = ModuleGraph.load disk file (before ++ after) := by
    unfold ModuleGraph.load SourceFile.directory
    rw [Module.followed_insert h, hpath]
  have hsetting : settingOf config disk wideFile (before ++ st :: after)
      = { settingOf config disk file (before ++ after) with
          obstacles := (Module.obstacles (before ++ st :: after)).reverse } := by
    unfold settingOf
    rw [hname, hgraph, Module.symbols_insert h]
  have hstart : startOf wideFile (before ++ st :: after) candidate
      = (startOf file (before ++ after) candidate).redeclare
        (Module.interfaces (before ++ st :: after)) (Module.enums (before ++ st :: after)) := by
    unfold startOf start Module.collected
    rw [hpath, Module.registrations_insert h]
    rfl
  unfold reachOf
  rw [hsetting, hstart]
  exact Setting.run_redeclare (alike_insert h rfl rfl) rfl rfl (fun name => .inl)
    (spares_insert config disk h)

theorem checkReachable_redeclare {is : List Interface} {es : List Enumeration}
    (hname : wideFile.name = file.name) (t : Surface) :
    checkReachable wideFile (t.redeclare is es)
      = (checkReachable file t).map (·.redeclare is es) := by
  have hcomponent : (t.redeclare is es).component = t.component := rfl
  unfold checkReachable
  rw [hname, hcomponent]
  split
  · rfl
  · rfl

variable (config disk) in
theorem ofCandidate_insert {candidate : Candidate} (hpath : wideFile.path = file.path)
    (h : st.Avoids config ((startOf file (before ++ after) candidate).Wants config.globalTypes)) :
    (reachOf config disk wideFile (before ++ st :: after) candidate >>= checkReachable wideFile)
      = (reachOf config disk file (before ++ after) candidate >>= checkReachable file).map
        (·.redeclare (Module.interfaces (before ++ st :: after))
          (Module.enums (before ++ st :: after))) := by
  rw [reachOf_insert config disk hpath h]
  cases reachOf config disk file (before ++ after) candidate with
  | error f => rfl
  | ok t => exact checkReachable_redeclare (congrArg Path.text hpath) t

/-- The failure is the same, and on success the surface, but for the types and enums around it. -/
theorem surface_insert (config : Config) (disk : Disk) (hpath : wideFile.path = file.path)
    (hm : file.parse = .ok (before ++ after)) (hwide : wideFile.parse = .ok (before ++ st :: after))
    (h : st.Avoids config (WantedIn config file (before ++ after))) :
    wideFile.surface config disk = (file.surface config disk).map
      (·.redeclare (Module.interfaces (before ++ st :: after))
        (Module.enums (before ++ st :: after))) := by
  have hname : wideFile.name = file.name := congrArg Path.text hpath
  have hhosts : Module.hosts config (before ++ st :: after) = Module.hosts config (before ++ after) :=
    Module.hosts_insert h
  have hrefusals : Module.firstRefusal config (before ++ st :: after)
      = Module.firstRefusal config (before ++ after) := by
    unfold Module.firstRefusal
    rw [hhosts]
  cases hr : Module.firstRefusal config (before ++ after) with
  | some r =>
      rw [surface_of_firstRefusal hm hr, surface_of_firstRefusal hwide (hrefusals.trans hr), hname]
      rfl
  | none =>
      obtain ⟨candidates, hcandidates, hs⟩ := surface_of_lowered disk hm hr
      obtain ⟨wideCandidates, hwideCandidates, hwideS⟩ :=
        surface_of_lowered disk hwide (hrefusals.trans hr)
      obtain rfl : candidates = wideCandidates := by
        rw [hhosts, hcandidates] at hwideCandidates
        exact List.map_injective_iff.2 (fun _ _ heq => by simpa using heq) hwideCandidates
      rw [hs, hwideS]
      by_cases hone : candidates.length = 1
      · obtain ⟨candidate, rfl⟩ := List.length_eq_one_iff.1 hone
        obtain ⟨⟨kind, node⟩, hhost, hlowered⟩ := List.map_eq_singleton_iff.1 hcandidates
        have havoids : st.Avoids config
            ((startOf file (before ++ after) candidate).Wants config.globalTypes) :=
          h.mono fun name hwants => ⟨kind, node, candidate, hhost, hlowered, hwants⟩
        exact ofCandidate_insert config disk hpath havoids
      · rw [ofCollected_of_length_ne_one hone, ofCollected_of_length_ne_one hone, hname]
        rfl

end Surface

end ElementBridge
