import ElementBridge.Batch
import ElementBridge.Proofs.AlikeTypes
import ElementBridge.Proofs.InsertedDeclarations
import ElementBridge.Proofs.WrittenSources
import ElementBridge.Tree.Equality

/-!
Declarations that the public surface does not reach. Put into a source they change neither the
failure nor the bridge, but for typedefs of repeated names.
-/

namespace ElementBridge

open ElementBridge.Tree

namespace Surface

variable {config : Config} {disk : Disk} {file : SourceFile} {s : Surface}

theorem progress_of_surface {m : Module} (hm : file.parse = .ok m)
    (hs : file.surface config disk = .ok s) : ∃ kind node candidate,
      m.hosts config = [(kind, node)] ∧
      Candidate.ofNode? config kind node = .ok (some candidate) ∧
      Setting.Progress (settingOf config disk file m) (startOf file m candidate) [] s := by
  obtain ⟨o⟩ := origin_of_parse hm hs
  obtain ⟨kind, node, hhost, hlowered, -⟩ := o.host
  have hprogress := o.progress
  rw [o.collected_eq.2] at hprogress
  exact ⟨kind, node, o.candidate, hhost, hlowered, hprogress⟩

/-- A typedef that is printed for a repeated name, though it mentions what a statement declares. -/
def IsDisturbed (s : Surface) (st : Statement) (d : Interface) : Prop :=
  s.IsRepeated d ∧ ∃ name ∈ st.typeNames, s.Consults d name

theorem consults_reached {globals : List String} {d : Interface} {name : String}
    (hd : s.interface? d.name = some d) (hn : Reached s globals d.name) (h : s.Consults d name) :
    Reached s globals name := by
  obtain ⟨e, he, mention, hmention, rfl⟩ := h
  obtain ⟨hfirst, hreached⟩ := he.reached hd hn
  exact hreached.of_declaration (resolve_interface.2 hfirst) hmention

end Surface

structure Bridge.SameBut (b wide : Bridge) (excused : Lines → Lines → Prop) : Prop where
  facade : wide.facade = b.facade
  creator : wide.creator = b.creator
  imports : wide.imports = b.imports
  types : List.Forall₂ (fun block block' => block' = block ∨ excused block block') b.types wide.types

theorem Bridge.SameBut.eq {b wide : Bridge} {excused : Lines → Lines → Prop}
    (h : b.SameBut wide excused) (hnone : ∀ block block', ¬ excused block block') : wide = b := by
  have hblocks : List.Forall₂ Eq b.types wide.types := h.types.imp fun block block' hblock =>
    (hblock.resolve_right (hnone block block')).symm
  rw [List.forall₂_eq_eq_eq] at hblocks
  obtain ⟨hfacade, hcreator, himports, -⟩ := h
  cases b
  cases wide
  rw [Bridge.mk.injEq]
  exact ⟨hblocks.symm, hfacade, hcreator, himports⟩

namespace Surface

open ElementBridge.Bridge

variable {config : Config} {disk : Disk} {file wideFile : SourceFile} {before after : Module}
  {st : Statement} {s : Surface}

theorem held_insert {names : String → Prop} (h : st.Avoids config names)
    (hinterfaces : s.interfaces = Module.interfaces (before ++ after))
    (henums : s.enums = Module.enums (before ++ after)) (hheld : ∀ name ∈ s.referenced, names name) :
    (Module.interfaces (before ++ st :: after)).filter (s.isReferenced ·.name)
        = s.interfaces.filter (s.isReferenced ·.name) ∧
      (Module.enums (before ++ st :: after)).filter (s.isReferenced ·.name)
        = s.enums.filter (s.isReferenced ·.name) := by
  have hunheld {d : Export × Declaration} (hd : d ∈ st.declared) {name : String}
      (hname : d.2.typeName? = some name) : s.isReferenced name = false :=
    Bool.eq_false_iff.2 fun hcontains =>
      h.not_typeName hd hname (hheld name (List.contains_iff_mem.1 hcontains))
  rw [hinterfaces, henums]
  constructor
  · exact Module.filter_insert fun d hd i hi => hunheld hd (Declaration.typeName?_of_interface hi)
  · exact Module.filter_insert fun d hd e he => hunheld hd (Declaration.typeName?_of_enum he)

theorem typedef_insert {names : String → Prop} (h : st.Avoids config names)
    (hinterfaces : s.interfaces = Module.interfaces (before ++ after))
    (henums : s.enums = Module.enums (before ++ after)) {d : Interface} (hd : d ∈ s.interfaces)
    (hheld : d.name ∈ s.referenced) (hcalm : ¬ s.IsDisturbed st d)
    (hreached : Reached s config.globalTypes d.name)
    (hnames : ∀ name, Reached s config.globalTypes name → names name) :
    typedef (s.redeclare (Module.interfaces (before ++ st :: after))
        (Module.enums (before ++ st :: after))) config.globalTypes d
      = typedef s config.globalTypes d := by
  by_cases hfirst : s.interface? d.name = some d
  · exact (alike_insert h hinterfaces henums).typedef fun name hconsults =>
      hnames name (consults_reached hfirst hreached hconsults)
  · have hothers : st.Avoids config fun name => name ∉ st.typeNames :=
      ⟨h.declares, h.noHost, fun name hmem hnot => hnot hmem⟩
    refine (alike_insert hothers hinterfaces henums).typedef fun name hconsults hdeclared => ?_
    exact hcalm ⟨⟨hd, hheld, hfirst⟩, name, hdeclared, hconsults⟩

theorem sameBut_insert (hm : file.parse = .ok (before ++ after))
    (hs : file.surface config disk = .ok s)
    (h : st.Avoids config (WantedIn config file (before ++ after))) :
    let wide := s.redeclare (Module.interfaces (before ++ st :: after))
      (Module.enums (before ++ st :: after))
    (ofSurface config s).SameBut (ofSurface config wide) fun block block' =>
      ∃ d, s.IsDisturbed st d ∧ block = typedef s config.globalTypes d ∧
        block' = typedef wide config.globalTypes d := by
  obtain ⟨kind, node, candidate, hhost, hlowered, run⟩ := progress_of_surface hm hs
  have hwanted : ∀ name, Reached s config.globalTypes name →
      WantedIn config file (before ++ after) name := fun name hname =>
    ⟨kind, node, candidate, hhost, hlowered, .inl (run.same.symm.reached hname)⟩
  have hreached : ∀ name ∈ s.referenced, Reached s config.globalTypes name := fun name hname =>
    run.same.reached (run.types name hname).1
  have hinterfaces : s.interfaces = Module.interfaces (before ++ after) := run.same.interfaces
  have henums : s.enums = Module.enums (before ++ after) := by
    rw [run.same]
    rfl
  have halike := alike_insert h hinterfaces henums
  intro wide
  refine
    { facade := halike.facadeClass fun m hm t ht name hn => hwanted name (.member hm ht hn)
      creator := halike.creatorFunction fun p hp name hn => hwanted name (.constructor hp hn)
      imports := rfl
      types := ?_ }
  obtain ⟨htypes, hobjects⟩ := held_insert h hinterfaces henums fun name hname =>
    hwanted name (hreached name hname)
  change List.Forall₂ _ (_ ++ _) (((Module.interfaces (before ++ st :: after)).filter
    (s.isReferenced ·.name)).map _ ++ ((Module.enums (before ++ st :: after)).filter
    (s.isReferenced ·.name)).map _)
  rw [htypes, hobjects]
  refine List.rel_append ?_ (List.forall₂_same.2 fun block _ => .inl rfl)
  rw [List.forall₂_map_left_iff, List.forall₂_map_right_iff]
  refine List.forall₂_same.2 fun d hd => ?_
  obtain ⟨hmem, hheld⟩ := List.mem_filter.1 hd
  have hheld : d.name ∈ s.referenced := List.contains_iff_mem.1 hheld
  by_cases hdisturbed : s.IsDisturbed st d
  · exact .inr ⟨d, hdisturbed, rfl, rfl⟩
  · exact .inl (typedef_insert h hinterfaces henums hmem hheld hdisturbed (hreached _ hheld) hwanted)

/-- A declaration that is not reached can be put anywhere: on failure the failure is the same, and
on success the bridge, but for typedefs of repeated names that mention the declaration. -/
theorem bridge_of_unreached (config : Config) (disk : Disk) (hpath : wideFile.path = file.path)
    (hm : file.parse = .ok (before ++ after)) (hwide : wideFile.parse = .ok (before ++ st :: after))
    (h : st.Avoids config (WantedIn config file (before ++ after))) :
    (∀ f, wideFile.bridge config disk = .error f ↔ file.bridge config disk = .error f) ∧
    (∀ s, file.surface config disk = .ok s → ∃ wide, wideFile.surface config disk = .ok wide ∧
      (ofSurface config s).SameBut (ofSurface config wide) fun block block' =>
        ∃ d, s.IsDisturbed st d ∧ block = typedef s config.globalTypes d ∧
          block' = typedef wide config.globalTypes d) ∧
    ((∀ s, file.surface config disk = .ok s → ∀ d, ¬ s.IsDisturbed st d) →
      wideFile.bridge config disk = file.bridge config disk) := by
  have hsurface := surface_insert config disk hpath hm hwide h
  unfold SourceFile.bridge
  rw [hsurface]
  cases hs : file.surface config disk with
  | error f =>
      refine ⟨fun g => Iff.rfl, fun s hs => ?_, fun _ => rfl⟩
      cases hs
  | ok s =>
      have hsame := sameBut_insert hm hs h
      refine ⟨fun g => ⟨fun hg => ?_, fun hg => ?_⟩, fun t ht => ?_, fun hnone => ?_⟩
      · cases hg
      · cases hg
      · obtain rfl := Except.ok.inj ht
        exact ⟨_, rfl, hsame⟩
      · refine congrArg Except.ok (hsame.eq fun block block' hexcused => ?_)
        obtain ⟨d, hd, -⟩ := hexcused
        exact hnone s rfl d hd

def Leads (s : Surface) (names : List String) : Prop :=
  (∀ m ∈ s.mentions, m.name ∈ names) ∧ ∀ d ∈ s.interfaces, s.interface? d.name = some d →
    d.name ∈ names → ∀ m ∈ Mention.ofInterface d, m.name ∈ names

instance (s : Surface) (names : List String) : Decidable (s.Leads names) :=
  inferInstanceAs (Decidable (_ ∧ _))

theorem Leads.mem_of_reached {globals : List String} {names : List String} {name : String}
    (h : s.Leads names) (hn : Reached s globals name) : name ∈ names := by
  have declared {name : String} {d : Interface} (hn : name ∈ names)
      (hd : s.resolve globals name = some (.interface d)) :
      ∀ m ∈ Mention.ofInterface d, m.name ∈ names := by
    rw [resolve_interface] at hd
    refine h.2 d (List.mem_of_find?_eq_some hd) ?_ ?_
    · exact interface?_self hd
    · rwa [interface?_name hd]
  induction hn with
  | @member m type name hm ht hn =>
      refine h.1 ⟨name, m.name⟩ (List.mem_append_left _ (List.mem_flatMap.2 ⟨m, hm, ?_⟩))
      exact List.mem_flatMap.2 ⟨type, ht, List.mem_map_of_mem hn⟩
  | @constructor p name hp hn =>
      exact h.1 ⟨name, "constructor"⟩ (List.mem_append_right _
        (List.mem_flatMap.2 ⟨p, hp, List.mem_map_of_mem hn⟩))
  | @base name base d _ hd hb ih =>
      exact declared ih hd ⟨base, d.name⟩ (List.mem_append_left _ (List.mem_map_of_mem hb))
  | @shape name inner d type _ hd ht hn ih =>
      obtain ⟨m, hm, rfl⟩ := Shape.exists_mention ht hn
      exact declared ih hd m (List.mem_append_right _ hm)

theorem Leads.exists_of_wants {globals : List String} {names : List String} {name : String}
    (h : s.Leads names) (hn : s.Wants globals name) :
    ∃ other ∈ names, other = name ∨ rootName other = name := by
  rcases hn with hn | ⟨type, htype, other, hother, hroot⟩
  · exact ⟨name, h.mem_of_reached hn, .inl rfl⟩
  · exact ⟨other, h.mem_of_reached (htype.reached hother), .inr hroot⟩

def twiceDeclared (more : String) : SourceFile where
  path := ⟨"a.ts"⟩
  text := "interface F\x7ba:string\x7dinterface F\x7bb:Event\x7d" ++ more
    ++ "export class A extends HTMLElement\x7bm(f:F)\x7b\x7d\x7d"

def nameF : Name := ⟨⟨"F", by decide +kernel⟩, by decide +kernel⟩

def nameEvent : Name := ⟨⟨"Event", by decide +kernel⟩, by decide +kernel⟩

def twiceTypes : Module :=
  [.declare (.interface ⟨nameF, false, [],
      [.property ⟨.identifier "a", "a"⟩ false (some (.keyword .string))]⟩),
    .declare (.interface ⟨nameF, false, [],
      [.property ⟨.identifier "b", "b"⟩ false (some (.reference ⟨nameEvent.word, []⟩ []))]⟩)]

def twiceClass : Statement :=
  .exportDeclaration (.classDef ⟨some ⟨⟨"A", by decide +kernel⟩, by decide +kernel⟩,
    some (.name "HTMLElement"),
    [.method ⟨.method, ⟨.identifier "m", "m"⟩, false, none, false,
      ⟨[⟨.name ⟨⟨"f", by decide +kernel⟩, by decide +kernel⟩, some (.reference ⟨nameF.word, []⟩ []),
        false, false, none, false, "f:F"⟩], false⟩, none, true⟩]⟩)

def twiceSurface : Surface where
  fileName := "a"
  interfaces := [⟨"F", [], .record [⟨"a", .primitive .string, false⟩]⟩,
    ⟨"F", [], .record [⟨"b", .reference "Event" [], false⟩]⟩]
  enums := []
  component := ⟨"A", "HTMLElement", .named, none, none⟩
  members := [⟨"m", .method, [⟨"f", .reference "F" [], false⟩], none, .implied, false, false⟩]
  imports := []
  referenced := ["F"]

theorem parse_twiceDeclared : (twiceDeclared "").parse = .ok (twiceTypes ++ [twiceClass]) := by
  have h : (twiceDeclared "").parse.toOption = some (twiceTypes ++ [twiceClass]) := by
    rw [(twiceDeclared "").parse_eq_elim (ofList_append (ofList_append rfl rfl) rfl)]
    decide +kernel
  exact eq_ok_of_toOption h

theorem surface_twiceDeclared :
    (twiceDeclared "").surface .standard ⟨[], []⟩ = .ok twiceSurface := by
  rw [surface_eq_ofModule parse_twiceDeclared]
  have h : (ofModule .standard (twiceDeclared "") (ModuleGraph.load ⟨[], []⟩ (twiceDeclared "")
      (twiceTypes ++ [twiceClass])) (twiceTypes ++ [twiceClass])).toOption = some twiceSurface := by
    decide +kernel
  exact eq_ok_of_toOption h

theorem wantedIn_twiceDeclared {name : String}
    (hn : WantedIn .standard (twiceDeclared "") (twiceTypes ++ [twiceClass]) name) :
    name = "F" := by
  have hstart : (Module.hosts .standard (twiceTypes ++ [twiceClass])).map (fun c =>
      (Candidate.ofNode? .standard c.1 c.2).toOption.map
        (·.map (startOf (twiceDeclared "") (twiceTypes ++ [twiceClass]))))
      = [some (some { twiceSurface with referenced := [] })] := by
    decide +kernel
  have hleads : Leads { twiceSurface with referenced := [] } ["F"] := by decide +kernel
  obtain ⟨kind, node, candidate, hhost, hlowered, hwants⟩ := hn
  simp only [hhost, hlowered, Except.toOption, List.map_cons, List.map_nil, Option.map_some,
    List.cons.injEq, Option.some.injEq, and_true] at hstart
  rw [hstart] at hwants
  obtain ⟨other, hother, hname⟩ := hleads.exists_of_wants hwants
  obtain rfl := List.mem_singleton.1 hother
  rcases hname with rfl | hroot
  · rfl
  · rw [← hroot]
    decide

theorem avoids_twiceDeclared {st : Statement} {name : String} (hst : st.isDeclaration = true)
    (hhosts : Module.hosts .standard [st] = []) (hnames : st.typeNames = [name])
    (hne : name ≠ "F") :
    st.Avoids .standard (WantedIn .standard (twiceDeclared "") (twiceTypes ++ [twiceClass])) := by
  refine ⟨hst, hhosts, fun other hother hwanted => ?_⟩
  rw [hnames, List.mem_singleton] at hother
  exact hne (hother ▸ wantedIn_twiceDeclared hwanted)

def genericG : Statement :=
  .exportDeclaration (.interface ⟨⟨⟨"G", by decide +kernel⟩, by decide +kernel⟩, true, [], []⟩)

theorem bridge_genericG :
    (twiceDeclared "export interface G<T>\x7b\x7d").parse
      = .ok (twiceTypes ++ genericG :: [twiceClass]) ∧
    genericG.Avoids .standard
      (WantedIn .standard (twiceDeclared "") (twiceTypes ++ [twiceClass])) ∧
    (∃ d, twiceSurface.IsRepeated d) ∧
    (twiceDeclared "export interface G<T>\x7b\x7d").bridge .standard ⟨[], []⟩
      = .ok (ofSurface .standard twiceSurface) := by
  have hwide : (twiceDeclared "export interface G<T>\x7b\x7d").parse.toOption
      = some (twiceTypes ++ genericG :: [twiceClass]) := by
    decide +kernel
  have hwide := eq_ok_of_toOption hwide
  have hnames : genericG.typeNames = ["G"] := by decide +kernel
  have havoids := avoids_twiceDeclared rfl (by decide +kernel) hnames (by decide)
  have hmentions : ∀ d ∈ twiceSurface.interfaces, ∀ mention ∈ Mention.ofInterface d,
      mention.name ≠ "G" := by
    decide +kernel
  have hpath : (twiceDeclared "export interface G<T>\x7b\x7d").path
      = (twiceDeclared "").path := rfl
  refine ⟨hwide, havoids, ⟨⟨"F", [], .record [⟨"b", .reference "Event" [], false⟩]⟩, ?_⟩, ?_⟩
  · exact ⟨by decide +kernel, by decide +kernel, by decide +kernel⟩
  · obtain ⟨-, -, hsame⟩ :=
      bridge_of_unreached .standard ⟨[], []⟩ hpath parse_twiceDeclared hwide havoids
    rw [hsame, SourceFile.bridge, surface_twiceDeclared]
    · rfl
    · rintro s hs d ⟨hrepeated, name, hname, e, he, mention, hmention, rfl⟩
      obtain rfl := Except.ok.inj (surface_twiceDeclared.symm.trans hs)
      rw [hnames, List.mem_singleton] at hname
      exact hmentions e (he.mem_interfaces hrepeated.1) mention hmention hname

def enumEvent : Statement := .declare (.enum ⟨nameEvent, [⟨some "X", none, "X"⟩]⟩)

/-- An enum that nothing reaches, and that a typedef of the repeated name picks up even so. -/
theorem not_bridge_of_unreached : ∃ wide,
    (twiceDeclared "").parse = .ok (twiceTypes ++ [twiceClass]) ∧
    (twiceDeclared "enum Event\x7bX\x7d").parse = .ok (twiceTypes ++ enumEvent :: [twiceClass]) ∧
    enumEvent.Avoids .standard
      (WantedIn .standard (twiceDeclared "") (twiceTypes ++ [twiceClass])) ∧
    (twiceDeclared "").bridge .standard ⟨[], []⟩ = .ok (ofSurface .standard twiceSurface) ∧
    (twiceDeclared "enum Event\x7bX\x7d").bridge .standard ⟨[], []⟩ = .ok wide ∧
    "* b:!Event" ∈ (ofSurface .standard twiceSurface).types.flatten ∧
    "* b:!Event" ∉ wide.types.flatten := by
  have hwide : (twiceDeclared "enum Event\x7bX\x7d").parse.toOption
      = some (twiceTypes ++ enumEvent :: [twiceClass]) := by
    decide +kernel
  have hwide := eq_ok_of_toOption hwide
  have hnames : enumEvent.typeNames = ["Event"] := by decide +kernel
  have havoids := avoids_twiceDeclared rfl (by decide +kernel) hnames (by decide)
  have hpath : (twiceDeclared "enum Event\x7bX\x7d").path = (twiceDeclared "").path := rfl
  have hsurface := surface_insert .standard ⟨[], []⟩ hpath parse_twiceDeclared hwide havoids
  rw [surface_twiceDeclared] at hsurface
  refine ⟨ofSurface .standard (twiceSurface.redeclare
    (Module.interfaces (twiceTypes ++ enumEvent :: [twiceClass]))
    (Module.enums (twiceTypes ++ enumEvent :: [twiceClass]))),
    parse_twiceDeclared, hwide, havoids, ?_, ?_, ?_, ?_⟩
  · rw [SourceFile.bridge, surface_twiceDeclared]
    rfl
  · rw [SourceFile.bridge, hsurface]
    rfl
  · decide +kernel
  · decide +kernel

end Surface

end ElementBridge
