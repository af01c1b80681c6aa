import ElementBridge.Proofs.BlockNames
import ElementBridge.Proofs.ExportedClass
import ElementBridge.Proofs.WrittenSources

namespace ElementBridge

open ElementBridge.ClosureType ElementBridge.Tree

theorem rootName_eq {name : String} (h : ∀ c ∈ name.toList, Text.isIdentifierPart c = true) :
    rootName name = name := by
  have hdot : ∀ c ∈ name.toList, (c != '.') = true := by
    refine fun c hc => bne_iff_ne.2 ?_
    rintro rfl
    exact absurd (h _ hc) (by decide)
  have hall : (name.toList ++ []).takeWhile (· != '.') = name.toList ++ [].takeWhile (· != '.') :=
    List.takeWhile_append_of_pos hdot
  rw [List.append_nil, List.takeWhile_nil, List.append_nil] at hall
  rw [rootName, hall, String.ofList_toList]

theorem Name.rootName_text (name : Name) : rootName name.text = name.text :=
  rootName_eq fun c hc =>
    List.all_eq_true.1 (Text.all_isIdentifierPart name.word.isIdentifier).2 c hc

namespace Bridge

def builtinTypes : List String := "ReadonlyArray" :: Surface.builtinNames

def declares (name line : String) : Bool :=
  ("export let " ++ name ++ ";").toList.isPrefixOf line.toList
    || ("export const " ++ name ++ " = ").toList.isPrefixOf line.toList
    || ("class " ++ name ++ " extends ").toList.isPrefixOf line.toList

/-- A name that the code of a bridge may mention. Of a dotted name the part before the first dot
has to be known. -/
inductive Provides (b : Bridge) (globals : List String) (name : String) : Prop where
  | builtin : name ∈ builtinTypes → b.Provides globals name
  | global : name ∈ globals → b.Provides globals name
  | declared {block : Lines} {line : String} : block ∈ b.facade :: b.types → line ∈ block →
      declares (rootName name) line = true → b.Provides globals name
  | imported {line module exported : String} : line ∈ b.imports →
      Binds line module exported (rootName name) → b.Provides globals name

theorem declares_typedef (s : Surface) (globals : List String) (d : Interface) :
    ∃ line ∈ typedef s globals d, declares d.name line = true := by
  refine ⟨"export let " ++ d.name ++ "; // eslint-disable-line no-unused-vars", ?_, ?_⟩
  · simp [typedef]
  · have hstart : ("export let " ++ d.name ++ ";").toList.isPrefixOf
        ("export let " ++ d.name ++ "; // eslint-disable-line no-unused-vars").toList = true := by
      rw [List.isPrefixOf_iff_prefix]
      exact ⟨" // eslint-disable-line no-unused-vars".toList, by simp⟩
    rw [declares, hstart]
    rfl

theorem declares_enumObject (d : Enumeration) :
    ∃ line ∈ enumObject d, declares d.name line = true := by
  refine ⟨"export const " ++ d.name ++ " = \x7b", ?_, ?_⟩
  · simp [enumObject]
  · have hstart : ("export const " ++ d.name ++ " = ").toList.isPrefixOf
        ("export const " ++ d.name ++ " = \x7b").toList = true := by
      rw [List.isPrefixOf_iff_prefix]
      exact ⟨"\x7b".toList, by simp⟩
    rw [declares, hstart, Bool.or_true]
    rfl

theorem declares_facadeClass (s : Surface) (globals : List String) :
    ∃ line ∈ facadeClass s globals, declares s.component.facadeName line = true := by
  refine ⟨"class " ++ s.component.facadeName ++ " extends " ++ s.component.hostBase ++ " \x7b",
    ?_, ?_⟩
  · simp [facadeClass]
  · have hstart : ("class " ++ s.component.facadeName ++ " extends ").toList.isPrefixOf
        ("class " ++ s.component.facadeName ++ " extends " ++ s.component.hostBase
          ++ " \x7b").toList = true := by
      rw [List.isPrefixOf_iff_prefix]
      exact ⟨(s.component.hostBase ++ " \x7b").toList, by simp⟩
    rw [declares, hstart, Bool.or_true]

end Bridge

namespace Surface

open Bridge

variable {s : Surface} {globals : List String} {config : Config} {name : String}

theorem localMeaning_cases {m : Meaning} (h : s.localMeaning name = some m) :
    (∃ d, m = .interface d ∧ s.interface? name = some d) ∨
      (∃ d, m = .enum d ∧ s.enum? name = some d) ∨ m = .component := by
  unfold Surface.localMeaning at h
  cases hd : s.interface? name with
  | some d =>
      rw [hd] at h
      exact .inl ⟨d, (Option.some.inj h).symm, rfl⟩
  | none =>
      cases he : s.enum? name with
      | some d =>
          rw [hd, he] at h
          exact .inr (.inl ⟨d, (Option.some.inj h).symm, rfl⟩)
      | none =>
          rw [hd, he] at h
          dsimp only at h
          split at h
          · exact .inr (.inr (Option.some.inj h).symm)
          · exact absurd h (by simp)

theorem builtinMeaning_cases {m : Meaning} (h : builtinMeaning globals name = some m) :
    (∃ p, m = .primitive p) ∨ m = .array ∧ (name = "Array" ∨ name = "ReadonlyArray") ∨
      m = .global ∧ name ∈ globals := by
  unfold builtinMeaning at h
  split at h
  · next p _ => exact .inl ⟨p, (Option.some.inj h).symm⟩
  · split at h
    · next harray => exact .inr (.inl ⟨(Option.some.inj h).symm, by simpa using harray⟩)
    · split at h
      · next hglobal => exact .inr (.inr ⟨(Option.some.inj h).symm, by simpa using hglobal⟩)
      · exact absurd h (by simp)

def Knows (s : Surface) (globals : List String) (name : String) : Prop :=
  name ∈ builtinTypes ∨ name = s.component.facadeName ∨ (s.resolve globals name).isSome

def Accounts (s : Surface) (config : Config) (name : String) : Prop :=
  (ofSurface config s).Provides config.globalTypes name ∧ s.Knows config.globalTypes name

theorem accounts_builtin (h : name ∈ builtinTypes) : s.Accounts config name :=
  ⟨.builtin h, .inl h⟩

theorem rootName_facadeName (hs : ∃ name : Name, s.component.name = name.text) :
    rootName s.component.facadeName = s.component.facadeName := by
  obtain ⟨componentName, hname⟩ := hs
  refine rootName_eq fun c hc => ?_
  rw [Component.facadeName, String.toList_append, List.mem_append, hname] at hc
  rcases hc with hc | hc
  · exact List.all_eq_true.1 (Text.all_isIdentifierPart componentName.word.isIdentifier).2 c hc
  · exact List.all_eq_true.1 (by decide) c hc

theorem accounts_facade (hs : ∃ name : Name, s.component.name = name.text) :
    s.Accounts config s.component.facadeName := by
  obtain ⟨line, hline, hdeclares⟩ := declares_facadeClass s config.globalTypes
  exact ⟨.declared List.mem_cons_self hline ((rootName_facadeName hs).symm ▸ hdeclares),
    .inr (.inl rfl)⟩

theorem provides_interface (hs : s.Has TypeExpr.WellNamed) {d : Interface}
    (hd : s.interface? name = some d) (hr : name ∈ s.referenced) :
    (ofSurface config s).Provides config.globalTypes name := by
  have hmem := List.mem_of_find?_eq_some hd
  obtain rfl := interface?_name hd
  obtain ⟨declared, hname⟩ := (hs.interfaces d hmem).named
  obtain ⟨line, hline, hdeclares⟩ := declares_typedef s config.globalTypes d
  have hroot : rootName d.name = d.name := by rw [hname, declared.rootName_text]
  have hblock : typedef s config.globalTypes d ∈ typeBlocks s config.globalTypes :=
    List.mem_append_left _ (List.mem_map_of_mem
      (List.mem_filter.2 ⟨hmem, List.contains_iff_mem.2 hr⟩))
  exact .declared (List.mem_cons_of_mem _ hblock) hline (hroot.symm ▸ hdeclares)

theorem provides_enum (hs : s.Has TypeExpr.WellNamed) {d : Enumeration}
    (hd : s.enum? name = some d) (hr : name ∈ s.referenced) :
    (ofSurface config s).Provides config.globalTypes name := by
  have hmem := List.mem_of_find?_eq_some hd
  obtain rfl := enum?_name hd
  obtain ⟨declared, hname⟩ := hs.enums d hmem
  obtain ⟨line, hline, hdeclares⟩ := declares_enumObject d
  have hroot : rootName d.name = d.name := by rw [hname, declared.rootName_text]
  have hblock : enumObject d ∈ typeBlocks s config.globalTypes :=
    List.mem_append_right _ (List.mem_map_of_mem
      (List.mem_filter.2 ⟨hmem, List.contains_iff_mem.2 hr⟩))
  exact .declared (List.mem_cons_of_mem _ hblock) hline (hroot.symm ▸ hdeclares)

theorem accounts_shownName (hs : s.Has TypeExpr.WellNamed)
    (hr : (s.resolve config.globalTypes name).isSome)
    (ht : (s.localMeaning name).any Meaning.isType = true → name ∈ s.referenced) :
    ∀ printed ∈ s.shownName config.globalTypes name, s.Accounts config printed := by
  have itself {printed : String} (h : printed ∈ [name])
      (hprovides : (ofSurface config s).Provides config.globalTypes name) :
      s.Accounts config printed :=
    List.mem_singleton.1 h ▸ ⟨hprovides, .inr (.inr hr)⟩
  obtain ⟨m, hm⟩ := Option.isSome_iff_exists.1 hr
  intro printed hprinted
  unfold shownName at hprinted
  rw [hm] at hprinted
  unfold Surface.resolve at hm
  rcases Option.or_eq_some_iff.1 hm with hlocal | ⟨-, hm⟩
  · rcases localMeaning_cases hlocal with ⟨d, rfl, hd⟩ | ⟨d, rfl, hd⟩ | rfl
    · exact itself hprinted (provides_interface hs hd (ht (by simp [hlocal, Meaning.isType])))
    · exact itself hprinted (provides_enum hs hd (ht (by simp [hlocal, Meaning.isType])))
    · exact List.mem_singleton.1 hprinted ▸ accounts_facade hs.component
  · rcases Option.or_eq_some_iff.1 hm with hbuiltin | ⟨-, himport⟩
    · rcases builtinMeaning_cases hbuiltin with ⟨p, rfl⟩ | ⟨rfl, harray⟩ | ⟨rfl, hglobal⟩
      · exact absurd hprinted List.not_mem_nil
      · refine itself hprinted (.builtin ?_)
        rcases harray with rfl | rfl
        · decide
        · decide
      · exact itself hprinted (.global hglobal)
    · obtain ⟨symbol, hsymbol, rfl⟩ := Option.map_eq_some_iff.1 himport
      obtain ⟨line, hline, hbinds⟩ := @binds_of_import _ s config _ (mem_of_lookup hsymbol)
      exact itself hprinted (.imported hline hbinds)

variable {disk : Disk} {file : SourceFile} {m : Module} {t : TypeExpr} {text : String}

def Reaches (s : Surface) (globals : List String) (t : TypeExpr) : Prop :=
  ∀ name ∈ t.references, Reached s globals name

theorem typeText_of_reached (o : Origin config disk file m s) (hs : s.Has TypeExpr.WellNamed)
    (ht : t.WellNamed) (hn : s.Reaches config.globalTypes t)
    (hp : s.IsPrinted config.globalTypes t text) :
    TypeText (Reads (s.Accounts config)) text.toList := by
  have read {printed : String} (h : s.Accounts config printed) :
      Reads (s.Accounts config) printed.toList := by
    simpa [Reads] using h
  have hbuiltin : ∀ name ∈ builtinNames, Reads (s.Accounts config) name.toList := fun name hname =>
    read (accounts_builtin (List.mem_cons_of_mem _ hname))
  refine hp.typeText hs.component ht hbuiltin fun printed hprinted => ?_
  obtain ⟨name, hname, hshown⟩ := exists_of_mem_shown ht hprinted
  obtain ⟨hresolve, hlocal⟩ := o.settled (hn name hname)
  exact read (accounts_shownName hs hresolve hlocal printed hshown)

theorem signsOver_of_origin (o : Origin config disk file m s) (hs : s.Has TypeExpr.WellNamed) :
    SignsOver (s.Accounts config) s config.globalTypes := by
  intro t text h
  have hreached : s.Reaches config.globalTypes t :=
    h.has (fun _ hm _ ht _ hn => .member hm ht hn) fun _ hp _ hn => .constructor hp hn
  exact typeText_of_reached o hs (h.has hs.members hs.params) hreached h.isPrinted

theorem Inherits.reached {d e : Interface} (h : s.Inherits d e)
    (hd : s.interface? d.name = some d) (hn : Reached s globals d.name) :
    s.interface? e.name = some e ∧ Reached s globals e.name := by
  induction h with
  | self d => exact ⟨hd, hn⟩
  | @base d b e base hbase hb _ ih =>
      obtain rfl := interface?_name hb
      exact ih hb (.base hn (resolve_interface.2 hd) hbase)

theorem definesOver_of_origin (o : Origin config disk file m s) (hs : s.Has TypeExpr.WellNamed)
    {d : Interface} (hd : s.interface? d.name = some d) (hr : d.name ∈ s.referenced) :
    DefinesOver (s.Accounts config) s config.globalTypes d := by
  intro t text h
  have hn := o.reached hr
  have hreached : s.Reaches config.globalTypes t := by
    cases h with
    | «alias» hshape =>
        have htype : t ∈ d.shape.types := by simp [hshape, Shape.types]
        exact fun name hname => .shape hn (resolve_interface.2 hd) htype hname
    | @field f hf =>
        obtain ⟨e, he, hf⟩ := mem_flatten hf
        obtain ⟨hfirst, hn⟩ := he.reached hd hn
        have htype : f.type ∈ e.shape.types := by
          unfold ownFields at hf
          split at hf
          · next fields hrecord =>
              rw [hrecord]
              exact List.mem_map_of_mem hf
          · exact absurd hf List.not_mem_nil
        exact fun name hname => .shape hn (resolve_interface.2 hfirst) htype hname
  exact typeText_of_reached o hs (h.has hs (List.mem_of_find?_eq_some hd)) hreached h.isPrinted

/-- A local type with the name of an earlier one. It is printed, but its names were never looked
up. -/
def IsRepeated (s : Surface) (d : Interface) : Prop :=
  d ∈ s.interfaces ∧ d.name ∈ s.referenced ∧ s.interface? d.name ≠ some d

def typedBlocks (s : Surface) (config : Config) : List Lines :=
  let b := ofSurface config s
  b.types ++ [b.facade, b.creator]

structure IsClosed (s : Surface) (config : Config) (file : SourceFile) (m : Module)
    (excused : Lines → Prop) : Prop where
  blocks : ∀ block ∈ s.typedBlocks config, excused block ∨
    ∀ name ∈ docNames block, s.Accounts config name
  cast : ∀ name ∈ castNames (ofSurface config s).creator, s.Accounts config name
  constructed : ∀ name ∈ (ofSurface config s).creator.filterMap constructedClass?,
    ∃ exported, m.ExportsClass name exported ∧ ∃ line ∈ (ofSurface config s).imports,
      Binds line (config.componentModule file.path.stem) exported name

def IsRepeatedBlock (s : Surface) (globals : List String) (block : Lines) : Prop :=
  ∃ d, s.IsRepeated d ∧ block = typedef s globals d

theorem clear_or_isRepeated (o : Origin config disk file m s) (hs : s.Has TypeExpr.WellNamed)
    {block : Lines} (hblock : block ∈ s.typedBlocks config) :
    s.IsRepeatedBlock config.globalTypes block ∨ Clear (s.Accounts config) block := by
  have builtin {name : String} (h : name ∈ builtinTypes) : s.Accounts config name :=
    accounts_builtin h
  have hsigns := signsOver_of_origin o hs
  rcases List.mem_append.1 hblock with hblock | hblock
  · rcases List.mem_append.1 hblock with hblock | hblock
    · obtain ⟨d, hd, rfl⟩ := List.mem_map.1 hblock
      obtain ⟨hmem, hr⟩ := List.mem_filter.1 hd
      have hr : d.name ∈ s.referenced := List.contains_iff_mem.1 hr
      -- types are printed by name, but only the first one of a name was ever looked up
      by_cases hfirst : s.interface? d.name = some d
      · refine .inr (clear_typedef (definesOver_of_origin o hs hfirst hr) fun f hf => ?_)
        exact (hs.flatten hmem hf).1
      · exact .inl ⟨d, ⟨hmem, hr, hfirst⟩, rfl⟩
    · obtain ⟨d, -, rfl⟩ := List.mem_map.1 hblock
      exact .inr (clear_enumObject (builtin (by decide)) (builtin (by decide)) d)
  · simp only [List.mem_cons, List.not_mem_nil, or_false] at hblock
    rcases hblock with rfl | rfl
    · exact .inr (clear_facadeClass hsigns (builtin (by decide)))
    · exact .inr (clear_creatorFunction hs.component hsigns (accounts_facade hs.component))

theorem IsRepeated.mem_typedBlocks {d : Interface} (h : s.IsRepeated d) :
    typedef s config.globalTypes d ∈ s.typedBlocks config :=
  List.mem_append_left _ (List.mem_append_left _ (List.mem_map_of_mem
    (List.mem_filter.2 ⟨h.1, List.contains_iff_mem.2 h.2.1⟩)))

theorem isClosed_of_surface (hm : file.parse = .ok m) (hs : file.surface config disk = .ok s) :
    s.IsClosed config file m (s.IsRepeatedBlock config.globalTypes) ∧
      (s.IsClosed config file m (fun _ => False) ↔ ∀ d, s.IsRepeated d →
        ∀ name ∈ docNames (typedef s config.globalTypes d), s.Accounts config name) := by
  obtain ⟨o⟩ := origin_of_parse hm hs
  have hnamed := has_of_surface TypeExpr.wellNamed_kept hs
  have closed : s.IsClosed config file m (s.IsRepeatedBlock config.globalTypes) := by
    refine
      { blocks := fun block hblock => clear_or_isRepeated o hnamed hblock
        cast := forall_castNames hnamed.component (accounts_facade hnamed.component)
        constructed := fun name hname => ?_ }
    obtain ⟨hconstructed, rfl⟩ := constructedClass_creator hnamed.component hname
    have hexported := exported_of_isConstructed hs hconstructed
    refine ⟨_, exportsClass_of_surface hm hs hexported, ?_⟩
    rw [← fileName_of_surface hs]
    exact binds_component hconstructed hexported
  refine ⟨closed, fun h d hd => (h.blocks _ hd.mem_typedBlocks).resolve_left id, fun h => ?_⟩
  refine ⟨fun block hblock => .inr ?_, closed.cast, closed.constructed⟩
  rcases closed.blocks block hblock with ⟨d, hd, rfl⟩ | hclear
  · exact h d hd
  · exact hclear

def plainSource : SourceFile where
  path := ⟨"a.ts"⟩
  text := "import*as N from'n';interface T\x7bk:K\x7denum K\x7b\x7dexport class A extends "
    ++ "HTMLElement\x7bconstructor(t:T|N.M)\x7bsuper()\x7d;e:Event\x7d"

def plainSurface : Surface where
  fileName := "a"
  interfaces := [⟨"T", [], .record [⟨"k", .reference "K" [], false⟩]⟩]
  enums := [⟨"K", []⟩]
  component := ⟨"A", "HTMLElement", .named,
    some [⟨"t", .union [.reference "T" [], .reference "N.M" []], false⟩], none⟩
  members := [⟨"e", .property, [], some (.reference "Event" []), .implied, false, false⟩]
  imports := [("N", ⟨"n", "N", true⟩)]
  referenced := ["T", "K"]

theorem surface_plainSource : plainSource.surface .standard ⟨[], []⟩ = .ok plainSurface := by
  have h : (plainSource.surface .standard ⟨[], []⟩).toOption = some plainSurface := by
    rw [SourceFile.surface, plainSource.parse_eq_elim (ofList_append rfl rfl)]
    decide +kernel
  exact eq_ok_of_toOption h

theorem isClosed_plainSource : ∃ m, plainSource.parse = .ok m ∧
    plainSource.surface .standard ⟨[], []⟩ = .ok plainSurface ∧
    plainSurface.IsClosed .standard plainSource m (fun _ => False) := by
  obtain ⟨m, ⟨o⟩⟩ := origin_of_ok surface_plainSource
  refine ⟨m, o.parsed, surface_plainSource, ?_⟩
  refine (isClosed_of_surface o.parsed surface_plainSource).2.2 fun d hd => ?_
  have hfirst : ∀ d ∈ plainSurface.interfaces, plainSurface.interface? d.name = some d := by
    decide +kernel
  exact absurd (hfirst d hd.1) hd.2.2

def repeatedSource : SourceFile where
  path := ⟨"a.ts"⟩
  text := "interface F\x7ba:string\x7dinterface F\x7bb:M\x7dcustomElements.define('a-b',A);"
    ++ "export class A extends HTMLElement\x7bm(f:F)\x7b\x7d\x7d"

def repeatedInterface : Interface := ⟨"F", [], .record [⟨"b", .reference "M" [], false⟩]⟩

def repeatedSurface : Surface where
  fileName := "a"
  interfaces := [⟨"F", [], .record [⟨"a", .primitive .string, false⟩]⟩, repeatedInterface]
  enums := []
  component := ⟨"A", "HTMLElement", .named, none, some "a-b"⟩
  members := [⟨"m", .method, [⟨"f", .reference "F" [], false⟩], none, .implied, false, false⟩]
  imports := []
  referenced := ["F"]

theorem surface_repeatedSource :
    repeatedSource.surface .standard ⟨[], []⟩ = .ok repeatedSurface := by
  have h : (repeatedSource.surface .standard ⟨[], []⟩).toOption = some repeatedSurface := by
    rw [SourceFile.surface, repeatedSource.parse_eq_elim (ofList_append rfl rfl)]
    decide +kernel
  exact eq_ok_of_toOption h

theorem not_isClosed_repeatedSource :
    repeatedSource.surface .standard ⟨[], []⟩ = .ok repeatedSurface ∧
    "M" ∈ docNames (typedef repeatedSurface Config.standard.globalTypes repeatedInterface) ∧
    ¬ (ofSurface .standard repeatedSurface).Provides Config.standard.globalTypes "M" ∧
    ¬ repeatedSurface.Knows Config.standard.globalTypes "M" ∧
    ∀ m, ¬ repeatedSurface.IsClosed .standard repeatedSource m (fun _ => False) := by
  have hrepeated : repeatedSurface.IsRepeated repeatedInterface := by
    refine ⟨?_, ?_, ?_⟩ <;> decide +kernel
  have hmentioned : "M" ∈ docNames (typedef repeatedSurface Config.standard.globalTypes
      repeatedInterface) := by
    decide +kernel
  have hunknown : ¬ repeatedSurface.Knows Config.standard.globalTypes "M" := by
    rintro (h | h | h)
    · exact absurd h (by decide +kernel)
    · exact absurd h (by decide +kernel)
    · exact absurd h (by decide +kernel)
  refine ⟨surface_repeatedSource, hmentioned, fun hprovides => ?_, hunknown, fun m hclosed => ?_⟩
  · cases hprovides with
    | builtin h => exact absurd h (by decide +kernel)
    | global h => exact absurd h (by decide +kernel)
    | declared hblock hline hdeclares =>
        have hnone : ∀ block ∈ (ofSurface .standard repeatedSurface).facade ::
            (ofSurface .standard repeatedSurface).types, ∀ line ∈ block,
            declares (rootName "M") line = false := by
          decide +kernel
        exact absurd (hnone _ hblock _ hline) (by simp [hdeclares])
    | imported hline hbinds =>
        have honly : (ofSurface .standard repeatedSurface).imports = ["import './a.js';"] := by
          decide +kernel
        rw [honly, List.mem_singleton] at hline
        rcases hline ▸ hbinds.mem_toList with h | h | h
        · exact absurd h (by decide +kernel)
        · exact absurd h (by decide +kernel)
        · have hletter : 'M' ∈ "import './a.js';".toList := h 'M' (by decide +kernel)
          exact absurd hletter (by decide +kernel)
  · have hblock := (hclosed.blocks _ hrepeated.mem_typedBlocks).resolve_left id
    exact hunknown (hblock "M" hmentioned).2

end Surface

end ElementBridge
