import ElementBridge.Proofs.BaseFields
import ElementBridge.Proofs.DocumentedTypes
import ElementBridge.Proofs.ImportedWords
import ElementBridge.Proofs.SignatureFields
import ElementBridge.Proofs.TopLevelNames

namespace ElementBridge.Surface

open Bridge ClosureType

variable {s : Surface} {globals : List String} {t : TypeExpr} {name : String} {config : Config}

inductive Prints (s : Surface) (globals : List String) : TypeExpr → Prop where
  | signature {t : TypeExpr} {text : String} : s.Signs globals t text → Prints s globals t
  | typedef {d : Interface} {t : TypeExpr} {text : String} : d ∈ s.interfaces →
      s.isReferenced d.name = true → s.Defines globals d t text → Prints s globals t

/-- The ways in which a mention in a public type gets lost: in a union that admits everything, in an
accessor that has other types than that of its value, and in a field that a later one of its name
replaces. -/
inductive Loses (s : Surface) (globals : List String) (name : String) : TypeExpr → Prop where
  | collapsed {t u : TypeExpr} {ts : List TypeExpr} : TypeExpr.IsPart (.union ts) t →
      name ∈ TypeExpr.referencesAll ts → u ∈ ts → s.closureType globals u = "*" →
      name ∉ s.shown globals t → Loses s globals name t
  | hidden {m : Member} {t : TypeExpr} : m ∈ s.members → m.kind ≠ .method → t ∈ m.types →
      m.valueType ≠ some t → Loses s globals name t
  | replaced {d : Interface} {f : Field} : s.interface? d.name = some d → d.name ∈ s.referenced →
      f ∈ ownFields d → lastField? (ownFields d) f.name ≠ some f → Loses s globals name f.type

/-- The roots of the names in the types of a bridge, read off its comments. -/
def usedNames (s : Surface) (config : Config) : List String :=
  (s.typedBlocks config).flatMap fun block => (docNames block).map rootName

theorem mem_usedNames : name ∈ s.usedNames config ↔
    ∃ block ∈ s.typedBlocks config, ∃ n ∈ docNames block, rootName n = name := by
  simp [usedNames, List.mem_flatMap]

def IsWritten (s : Surface) (globals : List String) (name : String) : Prop :=
  name ∈ builtinNames ∨ name = s.component.facadeName ∨
    ∃ t, s.Prints globals t ∧ name ∈ s.shown globals t

theorem Prints.wellNamed (hs : s.Has TypeExpr.WellNamed) (h : s.Prints globals t) : t.WellNamed := by
  cases h with
  | signature h => exact h.has hs.members hs.params
  | typedef hd _ h => exact h.has hs hd

theorem Prints.typeText (hs : s.Has TypeExpr.WellNamed) (h : s.Prints globals t) {text : String}
    (hp : s.IsPrinted globals t text) : TypeText (Reads (s.IsWritten globals)) text.toList := by
  have read {n : String} (hn : s.IsWritten globals n) : Reads (s.IsWritten globals) n.toList := by
    simpa [Reads] using hn
  exact hp.typeText hs.component (h.wellNamed hs) (fun n hn => read (.inl hn))
    fun n hn => read (.inr (.inr ⟨t, h, hn⟩))

theorem clear_typedBlocks (hs : s.Has TypeExpr.WellNamed) :
    ∀ block ∈ s.typedBlocks config, Clear (s.IsWritten config.globalTypes) block := by
  have builtin {n : String} (hn : n ∈ builtinNames) : s.IsWritten config.globalTypes n := .inl hn
  have hfacade : s.IsWritten config.globalTypes s.component.facadeName := .inr (.inl rfl)
  have hsigns : SignsOver (s.IsWritten config.globalTypes) s config.globalTypes :=
    fun t text h => (Prints.signature h).typeText hs h.isPrinted
  intro block hblock
  rcases List.mem_append.1 hblock with hblock | hblock
  · rcases List.mem_append.1 hblock with hblock | hblock
    · obtain ⟨d, hd, rfl⟩ := List.mem_map.1 hblock
      obtain ⟨hmem, hr⟩ := List.mem_filter.1 hd
      refine clear_typedef (fun t text h => ?_) fun f hf => (hs.flatten hmem hf).1
      exact (Prints.typedef hmem hr h).typeText hs h.isPrinted
    · obtain ⟨d, -, rfl⟩ := List.mem_map.1 hblock
      exact clear_enumObject (builtin (by decide)) (builtin (by decide)) d
  · simp only [List.mem_cons, List.not_mem_nil, or_false] at hblock
    rcases hblock with rfl | rfl
    · exact clear_facadeClass hsigns (builtin (by decide))
    · exact clear_creatorFunction hs.component hsigns hfacade

theorem isVoid_of_shown (h : name ∈ s.shown globals t) : t.isVoid = false := by
  unfold TypeExpr.isVoid
  split
  · exact absurd h List.not_mem_nil
  · rfl

theorem Prints.used (hs : s.Has TypeExpr.WellNamed)
    (hplain : ∀ d ∈ s.interfaces, d.IsPlain) (h : s.Prints config.globalTypes t)
    (hshown : name ∈ s.shown config.globalTypes t) : rootName name ∈ s.usedNames config := by
  have typed {u : TypeExpr} {text : String} (hu : u.WellNamed)
      (hp : s.IsPrinted config.globalTypes u text) :
      TypeText (Reads fun _ => True) text.toList :=
    hp.typeText hs.component hu (fun _ _ => trivial) fun _ _ => trivial
  have ht := h.wellNamed hs
  refine mem_usedNames.2 ?_
  cases h with
  | signature h =>
      have hname := h.isPrinted.mem_typeNames (mem_typeNames_of_shown hs.component ht hshown)
      have hsigns : SignsOver (fun _ => True) s config.globalTypes := fun u text hu =>
        typed (hu.has hs.members hs.params) hu.isPrinted
      rcases mem_docNames_of_signs hsigns h (isVoid_of_shown hshown) hname with hdoc | hdoc
      · exact ⟨_, List.mem_append_right _ List.mem_cons_self, name, hdoc, rfl⟩
      · exact ⟨_, List.mem_append_right _ (List.mem_cons_of_mem _ List.mem_cons_self), name, hdoc,
          rfl⟩
  | @typedef d _ _ hd hr h =>
      have hname := h.isPrinted.mem_typeNames (mem_typeNames_of_shown hs.component ht hshown)
      have hdefines : DefinesOver (fun _ => True) s config.globalTypes d := fun u text hu =>
        typed (hu.has hs hd) hu.isPrinted
      have halias : ∀ u, d.shape = .alias u → s.flatten d = [] := by
        intro u hshape
        have hbases : d.bases = [] := hplain d hd (by rw [hshape]; rfl)
        refine List.eq_nil_iff_forall_not_mem.2 fun f hf => ?_
        obtain ⟨e, he, hf⟩ := mem_flatten hf
        cases he with
        | self =>
            rw [ownFields, hshape] at hf
            exact List.not_mem_nil hf
        | base hbase => exact List.not_mem_nil (hbases ▸ hbase)
      have hdoc := mem_docNames_of_defines hdefines (fun f hf => (hs.flatten hd hf).1) halias h hname
      have hblock : Bridge.typedef s config.globalTypes d ∈ typeBlocks s config.globalTypes :=
        List.mem_append_left _ (List.mem_map_of_mem (List.mem_filter.2 ⟨hd, hr⟩))
      exact ⟨_, List.mem_append_left _ hblock, name, hdoc, rfl⟩

theorem facadeName_mem_usedNames (hs : ∃ name : Name, s.component.name = name.text) :
    s.component.facadeName ∈ s.usedNames config := by
  have hname : s.component.facadeName.toList
      ∈ typeNames ("!" ++ s.component.facadeName).toList := by
    have hne : s.component.facadeName.toList ≠ [] := by simp [Component.facadeName]
    rw [String.toList_append, show "!".toList = ['!'] by simp, List.singleton_append,
      typeNames_cons (by decide), typeNames_name hne (facadeName_isName hs)]
    exact List.mem_singleton_self _
  have hdoc : Documents (creatorFunction s config.globalTypes) ("!" ++ s.component.facadeName) := by
    refine ⟨"* " ++ returnTag ("!" ++ s.component.facadeName), ?_,
      (carries_returnTag _).docType (typeText_facade (Q := fun _ => True) hs trivial).nested 0 rfl⟩
    refine List.mem_append_right _ ?_
    rw [returnTag, ← String.append_assoc]
    exact List.mem_cons_self
  refine mem_usedNames.2 ⟨_, List.mem_append_right _ (List.mem_cons_of_mem _ List.mem_cons_self), _,
    hdoc.mem_docNames hname, rootName_facadeName hs⟩

theorem rootName_of_builtin (h : name ∈ builtinNames) : rootName name = name := by
  have hall : ∀ n ∈ builtinNames, rootName n = n := by decide
  exact hall name h

/-- The names in the types of a bridge are those that its printed types show, its own class, and
those of built-in types. -/
theorem mem_usedNames_iff (hs : s.Has TypeExpr.WellNamed)
    (hplain : ∀ d ∈ s.interfaces, d.IsPlain) (hbuiltin : name ∉ builtinNames) :
    name ∈ s.usedNames config ↔ name = s.component.facadeName ∨
      ∃ t n, s.Prints config.globalTypes t ∧ n ∈ s.shown config.globalTypes t ∧
        rootName n = name := by
  constructor
  · intro h
    obtain ⟨block, hblock, n, hn, rfl⟩ := mem_usedNames.1 h
    rcases clear_typedBlocks hs block hblock n hn with hn | rfl | ⟨t, ht, hn⟩
    · rw [rootName_of_builtin hn] at hbuiltin
      exact absurd hn hbuiltin
    · exact .inl (rootName_facadeName hs.component)
    · exact .inr ⟨t, n, ht, hn, rfl⟩
  · rintro (rfl | ⟨t, n, ht, hn, rfl⟩)
    · exact facadeName_mem_usedNames hs.component
    · exact ht.used hs hplain hn

variable {disk : Disk} {file : SourceFile} {m : Tree.Module}

theorem Exposes.prints_or_loses (o : Origin config disk file m s)
    (h : s.Exposes config.globalTypes t) (name : String) :
    s.Prints config.globalTypes t ∨ s.Loses config.globalTypes name t := by
  cases h with
  | @member member _ hm ht =>
      by_cases hkind : member.kind = .method
      · left
        rcases List.mem_append.1 ht with ht | ht
        · obtain ⟨p, hp, rfl⟩ := List.mem_map.1 ht
          obtain ⟨text, htext⟩ := s.exists_paramType config.globalTypes p
          exact .signature (.param hm hkind hp htext)
        · exact .signature (.result hm hkind (Option.mem_toList.1 ht))
      · by_cases hvalue : member.valueType = some t
        · exact .inl (.signature (.accessor hm hkind hvalue))
        · exact .inr (.hidden hm hkind ht hvalue)
  | @constructor p hp =>
      obtain ⟨text, htext⟩ := s.exists_paramType config.globalTypes p
      exact .inl (.signature (.creatorParam hp htext))
  | @shape _ d _ hr hd ht =>
      obtain rfl := interface?_name hd
      have hmem : d ∈ s.interfaces := List.mem_of_find?_eq_some hd
      have hheld : d.name ∈ s.referenced :=
        (o.settled hr).2 (by simp [localMeaning_interface.2 hd, Meaning.isType])
      have hreferenced : s.isReferenced d.name = true := List.contains_iff_mem.2 hheld
      cases hshape : d.shape with
      | «alias» u =>
          rw [hshape] at ht
          obtain rfl := List.mem_singleton.1 ht
          exact .inl (.typedef hmem hreferenced (.alias hshape))
      | record fields =>
          rw [hshape] at ht
          obtain ⟨f, hf, rfl⟩ := List.mem_map.1 ht
          have hown : f ∈ ownFields d := by rwa [ownFields, hshape]
          by_cases hlast : lastField? (ownFields d) f.name = some f
          · have hfind := find?_flatten_own hmem (List.mem_map_of_mem hown)
            rw [hlast] at hfind
            exact .inl (.typedef hmem hreferenced (.field (List.mem_of_find?_eq_some hfind)))
          · exact .inr (.replaced hd hheld hown hlast)

theorem shownName_of_foreign (h : s.IsForeign globals name) : s.shownName globals name = [name] := by
  unfold shownName
  rw [resolve_of_foreign h, importMeaning]
  cases s.imports.lookup (rootName name) <;> rfl

theorem loses_of_unused (o : Origin config disk file m s) (hs : s.Has TypeExpr.WellNamed)
    (h : s.Exposes config.globalTypes t) (hn : name ∈ t.references)
    (hforeign : s.IsForeign config.globalTypes name) (hunused : rootName name ∉ s.usedNames config) :
    s.Loses config.globalTypes name t := by
  rcases h.prints_or_loses o name with hprints | hloses
  · have hlost : name ∉ s.shown config.globalTypes t := fun hshown =>
      hunused (hprints.used hs o.isPlain hshown)
    have hname : name ∈ s.shownName config.globalTypes name := by
      rw [shownName_of_foreign hforeign]
      exact List.mem_singleton_self name
    obtain ⟨ts, u, hpart, hmem, hu, hany⟩ :=
      exists_union_of_not_shown (hprints.wellNamed hs) hn hname hlost
    exact .collapsed hpart hmem hu hany hlost
  · exact hloses

def BindsItself (s : Surface) (name : String) : Prop :=
  s.component.isConstructed = true ∧ name = s.component.name

/-- What becomes of the imports of a bridge in its types. Each is mentioned in a public type, and used
if some printed type shows it; an unused one has lost all of its mentions. Lines are read where the
imported names are plain words. -/
structure UsesImports (s : Surface) (config : Config) : Prop where
  read : IsPlainTable s.imports →
    (ofSurface config s).imports.flatMap boundBy = importedNames s config
  mentioned : ∀ name ∈ importedNames s config, s.BindsItself name ∨
    ∃ t n, s.Exposes config.globalTypes t ∧ n ∈ t.references ∧
      s.IsForeign config.globalTypes n ∧ rootName n = name
  used : ∀ name, name ∉ builtinNames → (name ∈ s.usedNames config ↔
    name = s.component.facadeName ∨ ∃ t n, s.Prints config.globalTypes t ∧
      n ∈ s.shown config.globalTypes t ∧ rootName n = name)
  lost : ∀ name ∈ importedNames s config, name ∉ s.usedNames config → ∀ t n,
    s.Exposes config.globalTypes t → n ∈ t.references → s.IsForeign config.globalTypes n →
      rootName n = name → s.Loses config.globalTypes n t
  minimal : (∀ t n, s.Exposes config.globalTypes t → n ∈ t.references →
      ¬ s.Loses config.globalTypes n t) →
    ∀ name ∈ importedNames s config, s.BindsItself name ∨ name ∈ s.usedNames config

theorem mentioned_of_imported (hs : file.surface config disk = .ok s)
    (h : name ∈ importedNames s config) : s.BindsItself name ∨
      ∃ t n, s.Exposes config.globalTypes t ∧ n ∈ t.references ∧
        s.IsForeign config.globalTypes n ∧ rootName n = name := by
  have hnames : s.BindsItself name ∨ name ∈ s.imports.map Prod.fst := by
    obtain ⟨hitself, hother⟩ := importedNames_perm_of_surface hs
    by_cases himports : ImportsItself s config
    · exact .inr ((hitself himports).mem_iff.1 h)
    · rcases List.mem_append.1 ((hother himports).mem_iff.1 h) with h | h
      · split at h
        · next hconstructed => exact .inl ⟨hconstructed, List.mem_singleton.1 h⟩
        · exact absurd h List.not_mem_nil
      · exact .inr h
  refine hnames.imp_right fun hname => ?_
  obtain ⟨entry, hentry, rfl⟩ := List.mem_map.1 hname
  obtain ⟨m, ⟨o⟩⟩ := origin_of_ok hs
  obtain ⟨-, n, hn, hforeign, hroot⟩ := o.progress.imports entry.1 entry.2 hentry
  have hforeign := o.progress.same.isForeign.2 hforeign
  obtain ⟨t, ht, hmention⟩ := exposed_of_foreign hs (o.progress.same.reached hn) hforeign
  exact ⟨t, n, ht, hmention, hforeign, hroot⟩

theorem usesImports_of_surface (hs : file.surface config disk = .ok s) :
    s.UsesImports config := by
  obtain ⟨m, ⟨o⟩⟩ := origin_of_ok hs
  have hnamed := has_of_surface TypeExpr.wellNamed_kept hs
  have mentioned (name : String) (h : name ∈ importedNames s config) :=
    mentioned_of_imported hs h
  refine
    { read := fun himports => ?_
      mentioned := mentioned
      used := fun name hname => mem_usedNames_iff hnamed o.isPlain hname
      lost := fun name _ hunused t n ht hn hforeign hroot =>
        loses_of_unused o hnamed ht hn hforeign (hroot ▸ hunused)
      minimal := fun hkept name hname => (mentioned name hname).imp_right ?_ }
  · obtain ⟨component, hcomponent⟩ := hnamed.component
    exact boundBy_importLines config himports (hcomponent ▸ component.word.isIdentifier)
  · rintro ⟨t, n, ht, hn, hforeign, rfl⟩
    by_contra hunused
    exact hkept t n ht hn (loses_of_unused o hnamed ht hn hforeign hunused)

def needfulSource : SourceFile where
  path := ⟨"a.ts"⟩
  text := "import \x7bX\x7d from './m.js';import*as N from'n';"
    ++ "export class A extends HTMLElement\x7bm(x:X|null,y:N.M)\x7b\x7d\x7d"

def needfulSurface : Surface where
  fileName := "a"
  interfaces := []
  enums := []
  component := ⟨"A", "HTMLElement", .named, none, none⟩
  members := [⟨"m", .method,
    [⟨"x", .union [.reference "X" [], .primitive .null], false⟩, ⟨"y", .reference "N.M" [], false⟩],
    none, .implied, false, false⟩]
  imports := [("X", ⟨"./m.js", "X", false⟩), ("N", ⟨"n", "N", true⟩)]
  referenced := []

theorem surface_needfulSource : needfulSource.surface .standard ⟨[], []⟩ = .ok needfulSurface := by
  have h : (needfulSource.surface .standard ⟨[], []⟩).toOption = some needfulSurface := by
    rw [SourceFile.surface, needfulSource.parse_eq_elim (ofList_append rfl rfl)]
    decide +kernel
  exact eq_ok_of_toOption h

theorem usesImports_needfulSource :
    needfulSource.surface .standard ⟨[], []⟩ = .ok needfulSurface ∧
    needfulSurface.UsesImports .standard ∧ importedNames needfulSurface .standard = ["A", "X", "N"] ∧
    "X" ∈ needfulSurface.usedNames .standard ∧ "N" ∈ needfulSurface.usedNames .standard :=
  ⟨surface_needfulSource, usesImports_of_surface surface_needfulSource, by decide +kernel,
    by decide +kernel, by decide +kernel⟩

def needlessSource : SourceFile where
  path := ⟨"a.ts"⟩
  text := "import \x7bX\x7d from './m.js';export class A extends HTMLElement\x7bm(x:X|any)\x7b\x7d\x7d"

def needlessSurface : Surface where
  fileName := "a"
  interfaces := []
  enums := []
  component := ⟨"A", "HTMLElement", .named, none, none⟩
  members := [⟨"m", .method,
    [⟨"x", .union [.reference "X" [], .primitive .any], false⟩], none, .implied, false, false⟩]
  imports := [("X", ⟨"./m.js", "X", false⟩)]
  referenced := []

theorem surface_needlessSource :
    needlessSource.surface .standard ⟨[], []⟩ = .ok needlessSurface := by
  have h : (needlessSource.surface .standard ⟨[], []⟩).toOption = some needlessSurface := by
    decide +kernel
  exact eq_ok_of_toOption h

theorem not_used_needlessSource :
    needlessSource.surface .standard ⟨[], []⟩ = .ok needlessSurface ∧
    "import \x7bX\x7d from './m.js';" ∈ (ofSurface .standard needlessSurface).imports ∧
    "X" ∈ importedNames needlessSurface .standard ∧ ¬ needlessSurface.BindsItself "X" ∧
    "X" ∉ needlessSurface.usedNames .standard ∧
    ∀ block ∈ needlessSurface.typedBlocks .standard, ∀ line ∈ block, 'X' ∉ line.toList := by
  refine ⟨surface_needlessSource, ?_, ?_, ?_, ?_, ?_⟩
  · decide +kernel
  · decide +kernel
  · exact fun h => absurd h.2 (by decide)
  · decide +kernel
  · decide +kernel

end ElementBridge.Surface
