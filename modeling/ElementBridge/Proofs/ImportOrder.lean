import ElementBridge.Proofs.ImportStatements
import ElementBridge.Proofs.ImportedWords
import ElementBridge.Proofs.ReachedSurface

namespace ElementBridge

namespace Bridge

open ModuleImports

variable {s t : Surface} {config : Config} {module name : String} {m n : ModuleImports}
  {imports other : ImportTable}

namespace ModuleImports

theorem clauses_eq_nil_iff : m.clauses = [] ↔ ∀ name exported, ¬ m.Gives name (some exported) := by
  rw [clauses_eq_nil]
  constructor
  · rintro ⟨hdefault, hnamed⟩ name exported
    simp [Gives, hdefault, hnamed]
  · intro h
    refine ⟨Option.eq_none_iff_forall_ne_some.2 fun name hdefault => ?_,
      List.eq_nil_iff_forall_not_mem.2 fun pair hpair => ?_⟩
    · exact h name "default" (.inl ⟨rfl, hdefault⟩)
    · exact h pair.1 pair.2 (.inr hpair)

structure Alike (m n : ModuleImports) : Prop where
  wholes : m.wholes = n.wholes
  clauses : m.clauses = [] ↔ n.clauses = []
  sideEffect : m.sideEffect = n.sideEffect

theorem Gathers.alike (h : Gathers module imports m) (h' : Gathers module other n)
    (hmem : ∀ entry, entry ∈ imports ↔ entry ∈ other) : m.Alike n where
  wholes := by
    refine h.wholes.ext Sorted.isOrder_textBefore h'.wholes fun name => ?_
    simp only [h.mem_wholes, h'.mem_wholes, NamesWhole, hmem]
  clauses := by simp only [clauses_eq_nil_iff, h.gives_iff, h'.gives_iff, hmem]
  sideEffect := h.sideEffect.trans h'.sideEffect.symm

theorem addDefault_fields (m : ModuleImports) (name : String) :
    (m.addDefault name).wholes = m.wholes ∧ (m.addDefault name).sideEffect = m.sideEffect ∧
      (m.addDefault name).clauses ≠ [] := by
  have hclauses : (m.addDefault name).clauses ≠ [] := fun hnil =>
    clauses_eq_nil_iff.1 hnil name "default" (gives_addDefault.2 (.inr ⟨rfl, rfl⟩))
  refine ⟨?_, ?_, hclauses⟩ <;>
  · unfold addDefault
    split
    · split <;> rfl
    · rfl

theorem clauses_addNamed (m : ModuleImports) (name imported : String) :
    (m.addNamed name imported).clauses ≠ [] := fun hnil =>
  clauses_eq_nil_iff.1 hnil name imported (gives_addNamed.2 (.inr ⟨rfl, rfl⟩))

theorem Alike.addComponent (h : m.Alike n) (c : Component) :
    (m.addComponent c).Alike (n.addComponent c) := by
  unfold ModuleImports.addComponent
  split
  · obtain ⟨hwholes, heffect, hclauses⟩ := addDefault_fields m c.name
    obtain ⟨hwholes', heffect', hclauses'⟩ := addDefault_fields n c.name
    exact ⟨by rw [hwholes, hwholes', h.wholes], by simp [hclauses, hclauses'],
      by rw [heffect, heffect', h.sideEffect]⟩
  · exact ⟨h.wholes, by simp [clauses_addNamed], h.sideEffect⟩
  · exact ⟨h.wholes, h.clauses, rfl⟩

theorem Alike.length_lines (h : m.Alike n) (module : String) :
    (m.lines module).length = (n.lines module).length := by
  rw [lines_eq, lines_eq, List.length_map, List.length_map]
  unfold forms
  rw [h.wholes, h.sideEffect]
  cases hm : m.clauses with
  | nil =>
      rw [h.clauses.1 hm]
  | cons clause rest =>
      cases hn : n.clauses with
      | nil => simp [h.clauses.2 hn] at hm
      | cons clause' rest' => simp

theorem lines_of_clauses (hm : m.clauses ≠ []) : m.lines module
    = m.wholes.map (fun name => (ImportForm.whole name).text module)
      ++ ["import " ++ String.intercalate ", " m.clauses ++ " from " ++ fromText module] := by
  unfold lines
  congr 1
  split
  · next hnil => exact absurd hnil hm
  · rfl

theorem takeWhile_clauses (h : Text.isIdentifier name = true) (more : List String) :
    (String.intercalate ", " (name :: more)).toList.takeWhile Text.isIdentifierPart
      = name.toList := by
  have hall := List.all_eq_true.1 (Text.all_isIdentifierPart h).2
  cases more with
  | nil =>
      rw [String.intercalate_singleton]
      simpa using @List.takeWhile_append_of_pos _ _ _ [] hall
  | cons next others =>
      have htext : (String.intercalate ", " (name :: next :: others)).toList = name.toList
          ++ ',' :: ' ' :: (String.intercalate ", " (next :: others)).toList := by
        simp [String.intercalate_cons_cons]
      rw [htext, List.takeWhile_append_of_pos hall, List.takeWhile_cons_of_neg (by decide),
        List.append_nil]

theorem default_eq_of_lines {first second : String} (h : m.wholes = n.wholes)
    (hm : m.default = some first) (hn : n.default = some second)
    (hfirst : Text.isIdentifier first = true) (hsecond : Text.isIdentifier second = true)
    (hlines : m.lines module = n.lines module) : first = second := by
  have hclauses {m : ModuleImports} {first : String} (hm : m.default = some first) :
      ∃ more, m.clauses = first :: more := ⟨_, by rw [clauses_eq, hm]; rfl⟩
  obtain ⟨more, hmore⟩ := hclauses hm
  obtain ⟨others, hothers⟩ := hclauses hn
  rw [lines_of_clauses (by simp [hmore]), lines_of_clauses (by simp [hothers]), h, hmore, hothers]
    at hlines
  have htext := congrArg String.toList (List.singleton_inj.1 (List.append_cancel_left hlines))
  simp only [String.toList_append, List.append_cancel_right_eq, List.append_cancel_left_eq] at htext
  have hletters := congrArg (List.takeWhile Text.isIdentifierPart) htext
  rw [takeWhile_clauses hfirst, takeWhile_clauses hsecond] at hletters
  exact String.toList_injective hletters

end ModuleImports

theorem exists_lines_of_flatMap {xs ys : List (String × ModuleImports)}
    {print : String → ModuleImports → List String} (hkeys : xs.map Prod.fst = ys.map Prod.fst)
    (hlength : ∀ key m n, (key, m) ∈ xs → (key, n) ∈ ys →
      (print key m).length = (print key n).length)
    (h : (xs.flatMap fun entry => print entry.1 entry.2)
      = ys.flatMap fun entry => print entry.1 entry.2)
    (hm : (module, m) ∈ xs) : ∃ n, (module, n) ∈ ys ∧ print module m = print module n := by
  induction xs generalizing ys with
  | nil => exact absurd hm List.not_mem_nil
  | cons x xs ih =>
      obtain ⟨key, first⟩ := x
      cases ys with
      | nil => exact absurd hkeys (by simp)
      | cons y ys =>
          obtain ⟨key', second⟩ := y
          obtain ⟨rfl, hrest⟩ : key = key' ∧ xs.map Prod.fst = ys.map Prod.fst := by
            simpa using hkeys
          rw [List.flatMap_cons, List.flatMap_cons] at h
          obtain ⟨hhead, htail⟩ := List.append_inj h
            (hlength key first second List.mem_cons_self List.mem_cons_self)
          rcases List.mem_cons.1 hm with heq | hm
          · obtain ⟨rfl, rfl⟩ := Prod.mk.inj heq
            exact ⟨second, List.mem_cons_self, hhead⟩
          · obtain ⟨n, hn, hprint⟩ := ih hrest
              (fun key m n hm hn => hlength key m n (List.mem_cons_of_mem _ hm)
                (List.mem_cons_of_mem _ hn)) htail hm
            exact ⟨n, List.mem_cons_of_mem _ hn, hprint⟩

structure Reorders (s t : Surface) : Prop where
  fileName : t.fileName = s.fileName
  component : t.component = s.component
  imports : s.imports.Perm t.imports

/-- For each module the same name for its default export comes first. -/
def SameDefaults (s t : Surface) : Prop :=
  ∀ module, firstDefault? module s.imports = firstDefault? module t.imports

theorem Reorders.importLines_eq (h : Reorders s t) (hfirst : SameDefaults s t) (config : Config) :
    importLines s config = importLines t config := by
  have htaken := takeImports_eq (fun _ => h.imports.mem_iff) hfirst
  rw [importLines, importLines, moduleImports, moduleImports, ← takeImports, ← takeImports, htaken,
    h.fileName, h.component]

theorem Reorders.map_fst_moduleImports (h : Reorders s t) (config : Config) :
    (moduleImports s config).map Prod.fst = (moduleImports t config).map Prod.fst := by
  refine Sorted.Ascends.ext Sorted.isOrder_textBefore ascends_moduleImports ascends_moduleImports
    fun module => ?_
  have hkeys {s : Surface} : module ∈ (moduleImports s config).map Prod.fst ↔
      ∃ m, (module, m) ∈ moduleImports s config := by simp
  simp only [hkeys, exists_mem_moduleImports, h.imports.mem_iff, h.fileName]

theorem Reorders.alike (h : Reorders s t) (hm : (module, m) ∈ moduleImports s config)
    (hn : (module, n) ∈ moduleImports t config) : m.Alike n := by
  obtain ⟨gathered, hg, rfl⟩ := gathers_of_mem hm
  obtain ⟨gathered', hg', rfl⟩ := gathers_of_mem hn
  have halike := hg.alike hg' fun _ => h.imports.mem_iff
  rw [h.fileName, h.component]
  split
  · exact halike.addComponent s.component
  · exact halike

theorem default_of_mem (hm : (module, m) ∈ moduleImports s config)
    (hfirst : firstDefault? module s.imports = some name) : m.default = some name := by
  obtain ⟨gathered, hg, rfl⟩ := gathers_of_mem hm
  have hdefault := hg.default_eq.trans hfirst
  split
  · unfold ModuleImports.addComponent
    split
    · unfold ModuleImports.addDefault
      split
      · split <;> exact hdefault
      · next hnone => exact absurd (hnone.symm.trans hdefault) (by simp)
    · exact hdefault
    · exact hdefault
  · exact hdefault

theorem isIdentifier_of_firstDefault?
    (hnames : ∀ entry ∈ imports, Text.isIdentifier entry.1 = true)
    (hfirst : firstDefault? module imports = some name) : Text.isIdentifier name = true := by
  obtain ⟨symbol, hsymbol, -⟩ := names_of_firstDefault? hfirst
  exact hnames _ hsymbol

theorem Reorders.sameDefaults (h : Reorders s t)
    (hnames : ∀ entry ∈ s.imports, Text.isIdentifier entry.1 = true)
    (hlines : importLines s config = importLines t config) : SameDefaults s t := by
  intro module
  have hmem (entry) : entry ∈ s.imports ↔ entry ∈ t.imports := h.imports.mem_iff
  have hnone : firstDefault? module s.imports = none ↔ firstDefault? module t.imports = none := by
    simp only [firstDefault?_eq_none, hmem]
  cases hs : firstDefault? module s.imports with
  | none => exact (hnone.1 hs).symm
  | some first =>
      cases ht : firstDefault? module t.imports with
      | none => exact hs.symm.trans (hnone.2 ht)
      | some second =>
          obtain ⟨symbol, hsymbol, hmodule, -⟩ := names_of_firstDefault? hs
          obtain ⟨m, hm⟩ :=
            (@exists_mem_moduleImports s config module).2 (.inr ⟨_, hsymbol, hmodule⟩)
          obtain ⟨n, hn, hprint⟩ := exists_lines_of_flatMap (h.map_fst_moduleImports config)
            (fun key m n hm hn => (h.alike hm hn).length_lines key) hlines hm
          refine congrArg some (default_eq_of_lines (h.alike hm hn).wholes (default_of_mem hm hs)
            (default_of_mem hn ht) (isIdentifier_of_firstDefault? hnames hs) ?_ hprint)
          exact isIdentifier_of_firstDefault? (fun entry hentry => hnames _ ((hmem _).2 hentry)) ht

theorem Reorders.sameDefaults_of_unique (h : Reorders s t)
    (hunique : ∀ module first second, Names s.imports module first "default" →
      Names s.imports module second "default" → first = second) : SameDefaults s t := by
  intro module
  have hmem (entry) : entry ∈ s.imports ↔ entry ∈ t.imports := h.imports.mem_iff
  cases hs : firstDefault? module s.imports with
  | none =>
      rw [firstDefault?_eq_none] at hs
      exact (firstDefault?_eq_none.2 (by simpa only [hmem] using hs)).symm
  | some first =>
      have hfirst := names_of_firstDefault? hs
      cases ht : firstDefault? module t.imports with
      | none =>
          obtain ⟨symbol, hsymbol, hmodule, hwhole, himported⟩ := hfirst
          exact absurd himported
            (firstDefault?_eq_none.1 ht first symbol ((hmem _).1 hsymbol) hmodule hwhole)
      | some second =>
          obtain ⟨symbol, hsymbol, hrest⟩ := names_of_firstDefault? ht
          exact congrArg some
            (hunique module first second hfirst ⟨symbol, (hmem _).2 hsymbol, hrest⟩)

end Bridge

/-- The same method with its parameters in another order, or the same member. -/
structure Member.Rearranges (m n : Member) : Prop where
  same : n = { m with params := n.params }
  params : m.params.Perm n.params

theorem Member.Rearranges.mem_types {m n : Member} (h : m.Rearranges n) {type : TypeExpr} :
    type ∈ n.types ↔ type ∈ m.types := by
  have hresult : n.result = m.result := by rw [h.same]
  simp only [Member.types, hresult, List.mem_append, List.mem_map, h.params.mem_iff]

namespace Surface

open Bridge ElementBridge.Tree

variable {s t : Surface} {globals : List String} {name : String}

structure Rearranges (s t : Surface) : Prop where
  fileName : t.fileName = s.fileName
  interfaces : t.interfaces = s.interfaces
  enums : t.enums = s.enums
  component : t.component = s.component
  members : ∃ members, s.members.Perm members ∧ List.Forall₂ Member.Rearranges members t.members

namespace Rearranges

theorem localMeaning (h : s.Rearranges t) (name : String) :
    t.localMeaning name = s.localMeaning name := by
  simp only [Surface.localMeaning, Surface.interface?, Surface.enum?, h.interfaces, h.enums,
    h.component]

theorem isForeign (h : s.Rearranges t) : t.IsForeign globals name ↔ s.IsForeign globals name := by
  rw [IsForeign, IsForeign, h.localMeaning]

theorem exists_member (h : s.Rearranges t) {type : TypeExpr} :
    (∃ n ∈ t.members, type ∈ n.types) ↔ ∃ m ∈ s.members, type ∈ m.types := by
  obtain ⟨members, hperm, hmembers⟩ := h.members
  have hboth : (∃ n ∈ t.members, type ∈ n.types) ↔ ∃ m ∈ members, type ∈ m.types := by
    clear hperm
    generalize t.members = others at hmembers
    induction hmembers with
    | nil => simp
    | cons hfirst _ ih => simp only [List.exists_mem_cons_iff, hfirst.mem_types, ih]
  simp only [hboth, hperm.mem_iff]

theorem reached_iff (h : s.Rearranges t) : Reached t globals name ↔ Reached s globals name := by
  have hinterface {name : String} {d : Interface} :
      t.resolve globals name = some (.interface d) ↔
        s.resolve globals name = some (.interface d) := by
    rw [resolve_interface, resolve_interface, Surface.interface?, Surface.interface?, h.interfaces]
  constructor
  · intro hn
    induction hn with
    | member hm ht hn =>
        obtain ⟨m, hm, ht⟩ := h.exists_member.1 ⟨_, hm, ht⟩
        exact .member hm ht hn
    | constructor hp hn => exact .constructor (h.component ▸ hp) hn
    | base _ hd hb ih => exact .base ih (hinterface.1 hd) hb
    | shape _ hd ht hn ih => exact .shape ih (hinterface.1 hd) ht hn
  · intro hn
    induction hn with
    | member hm ht hn =>
        obtain ⟨m, hm, ht⟩ := h.exists_member.2 ⟨_, hm, ht⟩
        exact .member hm ht hn
    | constructor hp hn => exact .constructor (h.component.symm ▸ hp) hn
    | base _ hd hb ih => exact .base ih (hinterface.2 hd) hb
    | shape _ hd ht hn ih => exact .shape ih (hinterface.2 hd) ht hn

variable {config : Config} {disk disk' : Disk} {file other : SourceFile} {m m' : Module}

theorem mem_imports_iff (hm : file.parse = .ok m) (hs : file.surface config disk = .ok s)
    {entry : String × Imported} : entry ∈ s.imports ↔
      m.symbols.reverse.lookup entry.1 = some entry.2 ∧ ∃ name,
        Reached s config.globalTypes name ∧ s.IsForeign config.globalTypes name
          ∧ rootName name = entry.1 := by
  obtain ⟨o⟩ := origin_of_parse hm hs
  have hsame := o.progress.same
  have htable {key : String} {symbol : Imported} (hentry : (key, symbol) ∈ s.imports) :
      m.symbols.reverse.lookup key = some symbol ∧ ∃ name,
        Reached s config.globalTypes name ∧ s.IsForeign config.globalTypes name
          ∧ rootName name = key := by
    obtain ⟨hlookup, name, hn, hf, hroot⟩ := o.progress.imports _ _ hentry
    rw [← Collected.ofModule_imports o.collects]
    exact ⟨hlookup, name, hsame.reached hn, hsame.isForeign.2 hf, hroot⟩
  obtain ⟨key, symbol⟩ := entry
  refine ⟨htable, fun ⟨hlookup, name, hn, hf, hroot⟩ => ?_⟩
  have hkey := (isSome_resolve_iff_of_foreign hf).1 (o.settled hn).1
  rw [hroot] at hkey
  obtain ⟨⟨_, found⟩, hfound, rfl⟩ := List.mem_map.1 hkey
  obtain rfl : found = symbol := Option.some.inj ((htable hfound).1.symm.trans hlookup)
  exact hfound

theorem nodup_imports (hs : file.surface config disk = .ok s) : s.imports.Nodup := by
  obtain ⟨m, ⟨o⟩⟩ := origin_of_ok hs
  exact o.progress.importsUnique.of_map _

theorem reorders (h : s.Rearranges t) (hm : file.parse = .ok m) (hm' : other.parse = .ok m')
    (hs : file.surface config disk = .ok s) (ht : other.surface config disk' = .ok t)
    (hsymbols : m'.symbols = m.symbols) : Reorders s t where
  fileName := h.fileName
  component := h.component
  imports := by
    refine (List.perm_ext_iff_of_nodup (nodup_imports hs) (nodup_imports ht)).2 fun entry => ?_
    rw [mem_imports_iff hm hs, mem_imports_iff hm' ht, hsymbols]
    simp only [h.reached_iff, h.isForeign]

end Rearranges

end Surface

namespace Bridge

open ElementBridge.Tree

/-- The order of a table tells on the lines only through the first names for default exports, so not
at all where each has one name. Members and parameters in another order come to the same table in
another order. -/
theorem importLines_eq_iff (s t : Surface) (config : Config) :
    (t = { s with imports := t.imports } → s.imports.Perm t.imports →
      (SameDefaults s t → importLines s config = importLines t config) ∧
      ((∀ entry ∈ s.imports, Text.isIdentifier entry.1 = true) →
        importLines s config = importLines t config → SameDefaults s t) ∧
      ((∀ module first second, ModuleImports.Names s.imports module first "default" →
        ModuleImports.Names s.imports module second "default" → first = second) →
        SameDefaults s t)) ∧
    (∀ (disk disk' : Disk) (file other : SourceFile) (m m' : Module), file.parse = .ok m →
      other.parse = .ok m' → m'.symbols = m.symbols → file.surface config disk = .ok s →
      other.surface config disk' = .ok t → s.Rearranges t → s.imports.Perm t.imports ∧
        (importLines s config = importLines t config ↔ SameDefaults s t)) := by
  refine ⟨fun hsame hperm => ?_, fun disk disk' file other m m' hm hm' hsymbols hs ht h => ?_⟩
  · have hreorders : Reorders s t := ⟨by rw [hsame], by rw [hsame], hperm⟩
    exact ⟨fun hfirst => hreorders.importLines_eq hfirst config, hreorders.sameDefaults,
      hreorders.sameDefaults_of_unique⟩
  · have hreorders := h.reorders hm hm' hs ht hsymbols
    exact ⟨hreorders.imports, hreorders.sameDefaults (Surface.isIdentifier_of_mem_imports hs),
      fun hfirst => hreorders.importLines_eq hfirst config⟩

def callingSource (specifiers params : String) : SourceFile where
  path := ⟨"a.ts"⟩
  text := "import " ++ specifiers ++ " from './m.js';export class A extends HTMLElement\x7bm("
    ++ params ++ ")\x7b\x7d\x7d"

def calledWith (params : List Param) (imports : ImportTable) : Surface where
  fileName := "a"
  interfaces := []
  enums := []
  component := ⟨"A", "HTMLElement", .named, none, none⟩
  members := [⟨"m", .method, params, none, .implied, false, false⟩]
  imports := imports
  referenced := []

theorem rearranges_calledWith {params others : List Param} (h : params.Perm others)
    (imports more : ImportTable) :
    (calledWith params imports).Rearranges (calledWith others more) where
  fileName := rfl
  interfaces := rfl
  enums := rfl
  component := rfl
  members := ⟨_, .refl _, .cons ⟨rfl, h⟩ .nil⟩

def paramX : Param := ⟨"a", .reference "X" [], false⟩

def paramY : Param := ⟨"b", .reference "Y" [], false⟩

def importX : String × Imported := ("X", ⟨"./m.js", "default", false⟩)

theorem importLines_eq_of_namedY : ∃ m m', ∃ s t : Surface,
    (callingSource "X,\x7bY\x7d" "a:X,b:Y").parse = .ok m ∧
    (callingSource "X,\x7bY\x7d" "b:Y,a:X").parse = .ok m' ∧ m'.symbols = m.symbols ∧
    (callingSource "X,\x7bY\x7d" "a:X,b:Y").surface .standard ⟨[], []⟩ = .ok s ∧
    (callingSource "X,\x7bY\x7d" "b:Y,a:X").surface .standard ⟨[], []⟩ = .ok t ∧
    s.Rearranges t ∧ s.imports.Perm t.imports ∧
    importLines s .standard
      = ["import \x7bA\x7d from './a.js';", "import X, \x7bY\x7d from './m.js';"] ∧
    importLines t .standard = importLines s .standard := by
  let importY : String × Imported := ("Y", ⟨"./m.js", "Y", false⟩)
  let s := calledWith [paramX, paramY] [importX, importY]
  let t := calledWith [paramY, paramX] [importY, importX]
  have hs : (callingSource "X,\x7bY\x7d" "a:X,b:Y").surface .standard ⟨[], []⟩ = .ok s :=
    eq_ok_of_toOption (by decide +kernel)
  have ht : (callingSource "X,\x7bY\x7d" "b:Y,a:X").surface .standard ⟨[], []⟩ = .ok t :=
    eq_ok_of_toOption (by decide +kernel)
  have hsymbols : ∀ params ∈ ["a:X,b:Y", "b:Y,a:X"],
      (callingSource "X,\x7bY\x7d" params).parse.toOption.map Module.symbols
        = some [importX, importY] := by decide +kernel
  obtain ⟨m, ⟨o⟩⟩ := Surface.origin_of_ok hs
  obtain ⟨m', ⟨o'⟩⟩ := Surface.origin_of_ok ht
  have hm := hsymbols _ List.mem_cons_self
  have hm' := hsymbols _ (List.mem_cons_of_mem _ List.mem_cons_self)
  rw [o.parsed] at hm
  rw [o'.parsed] at hm'
  have hsame : m'.symbols = m.symbols := by
    rw [Option.some.inj hm, Option.some.inj hm']
  have hrearranges : s.Rearranges t := rearranges_calledWith (.swap _ _ _) _ _
  obtain ⟨hperm, hlines⟩ := (importLines_eq_iff s t .standard).2 _ _ _ _ _ _ o.parsed o'.parsed
    hsame hs ht hrearranges
  have honly : ∀ entry ∈ s.imports, entry.2.imported = "default" → entry.1 = "X" := by decide
  have hdefaults : SameDefaults s { s with imports := t.imports } := by
    refine ((importLines_eq_iff s { s with imports := t.imports } .standard).1 rfl hperm).2.2 ?_
    rintro module first second ⟨symbol, hfirst, -, -, hdefault⟩ ⟨symbol', hsecond, -, -, hdefault'⟩
    exact (honly _ hfirst hdefault).trans (honly _ hsecond hdefault').symm
  exact ⟨m, m', s, t, o.parsed, o'.parsed, hsame, hs, ht, hrearranges, hperm, by decide +kernel,
    (hlines.2 hdefaults).symm⟩

/-- Two names for one default export: the parameter that comes first gives the default import. -/
theorem not_importLines_eq_callingSource : ∃ s t,
    (callingSource "X,\x7bdefault as Y\x7d" "a:X,b:Y").surface .standard ⟨[], []⟩ = .ok s ∧
    (callingSource "X,\x7bdefault as Y\x7d" "b:Y,a:X").surface .standard ⟨[], []⟩ = .ok t ∧
    s.Rearranges t ∧ s.imports.Perm t.imports ∧
    importLines s .standard = ["import \x7bA\x7d from './a.js';",
      "import X, \x7bdefault as Y\x7d from './m.js';"] ∧
    importLines t .standard = ["import \x7bA\x7d from './a.js';",
      "import Y, \x7bdefault as X\x7d from './m.js';"] ∧
    importLines { s with imports := t.imports } .standard ≠ importLines s .standard := by
  let importY : String × Imported := ("Y", ⟨"./m.js", "default", false⟩)
  refine ⟨calledWith [paramX, paramY] [importX, importY],
    calledWith [paramY, paramX] [importY, importX],
    eq_ok_of_toOption (by decide +kernel), eq_ok_of_toOption (by decide +kernel),
    rearranges_calledWith (.swap _ _ _) _ _, .swap _ _ _, ?_, ?_, ?_⟩ <;>
  decide +kernel

end Bridge

end ElementBridge
