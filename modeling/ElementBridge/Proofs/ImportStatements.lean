import ElementBridge.Proofs.GatheredImports
import ElementBridge.Proofs.ReadImports

namespace ElementBridge

open ElementBridge.Tree

structure Binding where
  module : String
  name : String
  exported : Option String
deriving DecidableEq, Repr

def Imported.export? (symbol : Imported) : Option String :=
  if symbol.whole then none else some symbol.imported

namespace Tree

def ImportBinding.export? : ImportBinding → Option String
  | .named imported _ => some imported
  | .default => some "default"
  | .whole => none

def Import.bindings (node : Import) : List Binding :=
  (node.specifiers.getD []).map fun pair => ⟨node.module, pair.1, pair.2.export?⟩

def Import.isWhole (node : Import) : Bool :=
  (node.specifiers.getD []).any fun pair => pair.2 == .whole

def Import.names (node : Import) : List String :=
  (node.specifiers.getD []).filterMap fun pair =>
    match pair.2 with
    | .named _ _ => some pair.1
    | _ => none

def Import.TakesValues (node : Import) : Prop :=
  node.typeOnly = false ∧ ∀ name imported, (name, .named imported true) ∉ node.specifiers.getD []

end Tree

namespace Bridge

namespace ModuleImports

variable {module name other : String} {exported : Option String} {imports : ImportTable}
  {m : ModuleImports} {c : Component}

/-- A module is imported for an export, or as a whole, under this name. -/
def Gives (m : ModuleImports) (name : String) : Option String → Prop
  | none => name ∈ m.wholes
  | some exported => (exported = "default" ∧ m.default = some name) ∨ (name, exported) ∈ m.named

structure Distinct (m : ModuleImports) : Prop where
  wholes : Sorted.Ascends Sorted.textBefore m.wholes
  named : Sorted.Ascends pairBefore m.named
  default : ∀ name ∈ m.default, (name, "default") ∉ m.named

theorem Gathers.distinct (h : Gathers module imports m) : m.Distinct where
  wholes := h.wholes
  named := h.named
  default name hname hmem := ((h.mem_named name "default").1 hmem).2 ⟨rfl, hname⟩

theorem names_of_firstDefault? (h : firstDefault? module imports = some name) :
    Names imports module name "default" := by
  obtain ⟨⟨key, symbol⟩, hfound, rfl⟩ := Option.map_eq_some_iff.1 h
  have hsymbol := List.find?_some hfound
  simp only [Bool.and_eq_true, beq_iff_eq, Bool.not_eq_true'] at hsymbol
  exact ⟨symbol, List.mem_of_find?_eq_some hfound, hsymbol.1.1, hsymbol.1.2, hsymbol.2⟩

theorem export?_eq_none {symbol : Imported} : symbol.export? = none ↔ symbol.whole = true := by
  simp [Imported.export?]

theorem export?_eq_some {symbol : Imported} {exported : String} :
    symbol.export? = some exported ↔ symbol.whole = false ∧ symbol.imported = exported := by
  simp [Imported.export?]

theorem Gathers.gives_iff (h : Gathers module imports m) : m.Gives name exported ↔
    ∃ symbol, (name, symbol) ∈ imports ∧ symbol.module = module ∧ symbol.export? = exported := by
  cases exported with
  | none => simp only [Gives, h.mem_wholes, NamesWhole, export?_eq_none]
  | some exported =>
      simp only [export?_eq_some]
      constructor
      · rintro (⟨rfl, hdefault⟩ | hnamed)
        · exact names_of_firstDefault? (h.default_eq.symm.trans hdefault)
        · exact ((h.mem_named name exported).1 hnamed).1
      · intro hnames
        by_cases hdefault : exported = "default" ∧ m.default = some name
        · exact .inl hdefault
        · exact .inr ((h.mem_named name exported).2 ⟨hnames, hdefault⟩)

theorem gives_addNamed {imported : String} : (m.addNamed other imported).Gives name exported ↔
    m.Gives name exported ∨ (name = other ∧ exported = some imported) := by
  cases exported with
  | none => simp [Gives, addNamed]
  | some exported =>
      simp only [Gives, mem_addNamed, Prod.mk.injEq, Option.some.injEq]
      change (_ ∧ m.default = _) ∨ _ ↔ _
      tauto

theorem gives_addDefault : (m.addDefault other).Gives name exported ↔
    m.Gives name exported ∨ (name = other ∧ exported = some "default") := by
  unfold addDefault
  split
  · next first hfirst =>
      split
      · next heq =>
          subst heq
          refine ⟨.inl, fun h => h.elim id ?_⟩
          rintro ⟨rfl, rfl⟩
          exact .inl ⟨rfl, hfirst⟩
      · exact gives_addNamed
  · next hnone =>
      cases exported with
      | none => simp [Gives]
      | some exported =>
          simp only [Gives, hnone, Option.some.injEq, reduceCtorEq, and_false, false_or]
          rw [or_comm, and_comm, eq_comm (a := other)]

theorem gives_addComponent (hc : c.isConstructed = true → c.export ≠ .unexported) :
    (m.addComponent c).Gives name exported ↔ m.Gives name exported ∨
      (c.isConstructed = true ∧ name = c.name ∧ exported = some c.exportName) := by
  unfold addComponent
  split
  · next hconstructed hdefault =>
      simp [gives_addDefault, Component.exportName, hconstructed, hdefault]
  · next hconstructed hnamed =>
      simp [gives_addNamed, Component.exportName, hconstructed, hnamed]
  · next hdefault hnamed =>
      have hplain : c.isConstructed ≠ true := by
        intro hconstructed
        cases hkind : c.export with
        | named => exact hnamed hconstructed hkind
        | default => exact hdefault hconstructed hkind
        | unexported => exact hc hconstructed hkind
      rw [or_iff_left fun h => hplain h.1]
      cases exported <;> rfl

theorem Distinct.addNamed {imported : String} (h : m.Distinct)
    (hdefault : imported = "default" → m.default ≠ some other) :
    (m.addNamed other imported).Distinct where
  wholes := h.wholes
  named := h.named.insert isOrder_pairBefore _
  default name hname hmem := by
    rcases mem_addNamed.1 hmem with heq | hmem
    · obtain ⟨rfl, rfl⟩ := Prod.mk.inj heq
      exact hdefault rfl hname
    · exact h.default name hname hmem

theorem Gathers.distinct_addComponent (h : Gathers module imports m)
    (hname : c.isConstructed = true → c.name ≠ "default") : (m.addComponent c).Distinct := by
  have hm := h.distinct
  unfold addComponent
  split
  · unfold addDefault
    split
    · next first hfirst =>
        split
        · exact hm
        · next hne => exact hm.addNamed fun _ heq => hne (Option.some.inj (hfirst.symm.trans heq))
    · next hnone =>
        refine ⟨hm.wholes, hm.named, fun name _ hmem => ?_⟩
        obtain ⟨symbol, hsymbol, hmodule, hwhole, himported⟩ := ((h.mem_named _ _).1 hmem).1
        exact firstDefault?_eq_none.1 (h.default_eq.symm.trans hnone) _ symbol hsymbol hmodule
          hwhole himported
  · next hconstructed _ => exact hm.addNamed fun heq => absurd heq (hname hconstructed)
  · exact ⟨hm.wholes, hm.named, hm.default⟩

def forms (m : ModuleImports) : List ImportForm :=
  m.wholes.map .whole ++
    match m.clauses with
    | [] => if m.sideEffect && m.wholes.isEmpty then [.bare] else []
    | _ :: _ => [.bindings m.default m.named]

theorem lines_eq (module : String) (m : ModuleImports) :
    m.lines module = m.forms.map (·.text module) := by
  have hclauses : (ModuleImports.mk [] m.default m.named false).clauses = m.clauses := rfl
  unfold lines forms
  rw [List.map_append, List.map_map]
  congr 1
  split
  · next hnil =>
      rw [hnil]
      split <;> rfl
  · next hcons =>
      cases hlist : m.clauses with
      | nil => exact absurd hlist hcons
      | cons clause rest => simp [ImportForm.text, hclauses, hlist]

theorem clauses_eq_nil : m.clauses = [] ↔ m.default = none ∧ m.named = [] := by
  rw [clauses_eq, List.append_eq_nil_iff]
  by_cases hnamed : m.named = [] <;> simp [hnamed]

def statements (module : String) (m : ModuleImports) : List Import :=
  m.forms.map (·.node module)

def bindings (module : String) (m : ModuleImports) : List Binding :=
  m.wholes.map (⟨module, ·, none⟩) ++ (m.default.toList.map (⟨module, ·, some "default"⟩)
    ++ m.named.map fun pair => ⟨module, pair.1, some pair.2⟩)

theorem bindings_bindings (module : String) (first : Option String)
    (named : List (String × String)) :
    ((ImportForm.bindings first named).node module).bindings =
      first.toList.map (⟨module, ·, some "default"⟩)
        ++ named.map fun pair => (⟨module, pair.1, some pair.2⟩ : Binding) := by
  simp [Import.bindings, ImportForm.node, ImportForm.specifiers, Grammar.namedBindings,
    ImportBinding.export?, Function.comp_def]

theorem flatMap_statements (module : String) (m : ModuleImports) :
    (m.statements module).flatMap Import.bindings = m.bindings module := by
  have hwholes : (m.wholes.map fun name => (ImportForm.whole name).node module).flatMap
      Import.bindings = m.wholes.map (⟨module, ·, none⟩) := by
    rw [List.flatMap_map]
    exact List.flatMap_pure_eq_map _ _
  unfold statements forms bindings
  rw [List.map_append, List.map_map, List.flatMap_append]
  refine congrArg₂ _ hwholes ?_
  split
  · next hnil =>
      obtain ⟨hdefault, hnamed⟩ := clauses_eq_nil.1 hnil
      rw [hdefault, hnamed]
      split <;> rfl
  · rw [List.map_singleton, List.flatMap_singleton, bindings_bindings]

theorem mem_bindings {b : Binding} :
    b ∈ m.bindings module ↔ b.module = module ∧ m.Gives b.name b.exported := by
  obtain ⟨source, name, exported⟩ := b
  simp only [bindings, List.mem_append, List.mem_map, Option.mem_toList, Binding.mk.injEq]
  cases exported with
  | none => simp [Gives, eq_comm, and_comm]
  | some exported =>
      simp only [Gives, Option.some.injEq, reduceCtorEq, and_false, exists_false, false_or]
      constructor
      · rintro (⟨first, hfirst, rfl, rfl, rfl⟩ | ⟨⟨first, imported⟩, hnamed, rfl, rfl, rfl⟩)
        · exact ⟨rfl, .inl ⟨rfl, hfirst⟩⟩
        · exact ⟨rfl, .inr hnamed⟩
      · rintro ⟨rfl, ⟨rfl, hdefault⟩ | hnamed⟩
        · exact .inl ⟨name, hdefault, rfl, rfl, rfl⟩
        · exact .inr ⟨(name, exported), hnamed, rfl, rfl, rfl⟩

theorem Distinct.nodup_bindings (h : m.Distinct) : (m.bindings module).Nodup := by
  have hwholes := (h.wholes.nodup Sorted.isOrder_textBefore).map
    (f := fun name => (⟨module, name, none⟩ : Binding)) fun _ _ heq => (Binding.mk.inj heq).2.1
  have hnamed := (h.named.nodup isOrder_pairBefore).map
    (f := fun pair => (⟨module, pair.1, some pair.2⟩ : Binding)) fun _ _ heq =>
      Prod.ext (Binding.mk.inj heq).2.1 (Option.some.inj (Binding.mk.inj heq).2.2)
  refine List.nodup_append'.2 ⟨hwholes, List.nodup_append'.2 ⟨?_, hnamed, ?_⟩, ?_⟩
  · cases m.default <;> simp
  · intro b hb hb'
    obtain ⟨first, hfirst, rfl⟩ := List.mem_map.1 hb
    obtain ⟨pair, hpair, heq⟩ := List.mem_map.1 hb'
    obtain ⟨-, hname, himported⟩ := Binding.mk.inj heq
    have himported : pair.2 = "default" := Option.some.inj himported
    exact h.default first (Option.mem_toList.1 hfirst) (hname ▸ himported ▸ hpair)
  · intro b hb hb'
    obtain ⟨name, -, rfl⟩ := List.mem_map.1 hb
    rcases List.mem_append.1 hb' with hb' | hb'
    · obtain ⟨first, -, heq⟩ := List.mem_map.1 hb'
      exact absurd (Binding.mk.inj heq).2.2 (by simp)
    · obtain ⟨pair, -, heq⟩ := List.mem_map.1 hb'
      exact absurd (Binding.mk.inj heq).2.2 (by simp)

theorem filter_statements_length (module : String) (m : ModuleImports) :
    ((m.statements module).filter (!·.isWhole)).length ≤ 1 := by
  have hwholes : (m.wholes.map fun name => (ImportForm.whole name).node module).filter
      (!·.isWhole) = [] := by
    refine List.filter_eq_nil_iff.2 fun node hnode => ?_
    obtain ⟨name, -, rfl⟩ := List.mem_map.1 hnode
    simp [Import.isWhole, ImportForm.node, ImportForm.specifiers]
  unfold statements forms
  rw [List.map_append, List.map_map, List.filter_append]
  change (List.filter _ (m.wholes.map fun name => (ImportForm.whole name).node module)
    ++ _).length ≤ 1
  rw [hwholes, List.nil_append]
  refine Nat.le_trans (List.length_filter_le _ _) ?_
  split
  · split <;> simp
  · simp

theorem mem_forms {form : ImportForm} (h : form ∈ m.forms) :
    (∃ name ∈ m.wholes, form = .whole name) ∨
      (form = .bare ∧ m.clauses = [] ∧ m.wholes = [] ∧ m.sideEffect = true) ∨
      (form = .bindings m.default m.named ∧ m.clauses ≠ []) := by
  unfold forms at h
  rcases List.mem_append.1 h with h | h
  · obtain ⟨name, hname, rfl⟩ := List.mem_map.1 h
    exact .inl ⟨name, hname, rfl⟩
  · split at h
    · next hnil =>
        split at h
        · next hbare =>
            simp only [Bool.and_eq_true, List.isEmpty_iff] at hbare
            exact .inr (.inl ⟨List.mem_singleton.1 h, hnil, hbare.2, hbare.1⟩)
        · exact absurd h List.not_mem_nil
    · next hcons => exact .inr (.inr ⟨List.mem_singleton.1 h, by simp [hcons]⟩)

theorem Distinct.pairwise_names (h : m.Distinct) {node : Import}
    (hnode : node ∈ m.statements module) : node.names.Pairwise (· ≤ ·) := by
  obtain ⟨form, hform, rfl⟩ := List.mem_map.1 hnode
  rcases mem_forms hform with ⟨name, -, rfl⟩ | ⟨rfl, -⟩ | ⟨rfl, -⟩
  · exact .nil
  · exact .nil
  · have hnames : ((ImportForm.bindings m.default m.named).node module).names
        = m.named.map Prod.fst := by
      cases m.default <;>
        simp [Import.names, ImportForm.node, ImportForm.specifiers, Grammar.namedBindings,
          List.filterMap_map, List.filterMap_eq_map']
    rw [hnames, List.pairwise_map]
    refine h.named.imp fun {a b} hab => ?_
    rcases pairBefore_iff.1 hab with hlt | ⟨heq, -⟩
    · exact String.not_lt.1 (String.lt_asymm (of_decide_eq_true hlt))
    · exact heq ▸ String.le_refl _

theorem takesValues_of_mem {node : Import} (hnode : node ∈ m.statements module) :
    node.module = module ∧ node.TakesValues := by
  obtain ⟨form, -, rfl⟩ := List.mem_map.1 hnode
  refine ⟨rfl, rfl, fun name imported hmem => ?_⟩
  cases form <;> simp_all [ImportForm.node, ImportForm.specifiers, Grammar.namedBindings]

theorem statements_of_bare {node : Import} (hnode : node ∈ m.statements module)
    (hbare : node.specifiers = none) : m.statements module = [node] ∧ m.sideEffect = true := by
  obtain ⟨form, hform, rfl⟩ := List.mem_map.1 hnode
  rcases mem_forms hform with ⟨name, -, rfl⟩ | ⟨rfl, hclauses, hwholes, heffect⟩ | ⟨rfl, -⟩
  · simp [ImportForm.node, ImportForm.specifiers] at hbare
  · refine ⟨?_, heffect⟩
    simp [statements, forms, hclauses, hwholes, heffect]
  · simp [ImportForm.node, ImportForm.specifiers] at hbare

def IsReadable (m : ModuleImports) : Prop := ∀ name exported, m.Gives name exported →
  IsBindable name ∧ ∀ imported ∈ exported, Text.isIdentifier imported = true

theorem IsReadable.forms (h : m.IsReadable) {form : ImportForm} (hform : form ∈ m.forms) :
    form.IsReadable := by
  have hnamed : ∀ pair ∈ m.named, Grammar.IsEntryPair pair := fun pair hpair =>
    (h pair.1 (some pair.2) (.inr hpair)).imp_right fun himported => himported pair.2 rfl
  rcases mem_forms hform with ⟨name, hname, rfl⟩ | ⟨rfl, -⟩ | ⟨rfl, hne⟩
  · exact .whole (h name none hname).1
  · exact .bare
  · cases hdefault : m.default with
    | none => exact .named (fun hnil => hne (clauses_eq_nil.2 ⟨hdefault, hnil⟩)) hnamed
    | some first => exact .default (h first (some "default") (.inl ⟨rfl, hdefault⟩)).1 hnamed

end ModuleImports

open ModuleImports

variable {s : Surface} {config : Config} {module : String} {m : ModuleImports}

/-- What a table asks of a module, and the component if the module is its own. -/
structure Fills (s : Surface) (config : Config) (module : String) (m : ModuleImports) : Prop where
  distinct : m.Distinct
  gives_iff : ∀ name exported, m.Gives name exported ↔
    (∃ symbol, (name, symbol) ∈ s.imports ∧ symbol.module = module ∧ symbol.export? = exported) ∨
    (s.component.isConstructed = true ∧ module = config.componentModule s.fileName ∧
      name = s.component.name ∧ exported = some s.component.exportName)
  sideEffect : m.sideEffect = true → module = config.componentModule s.fileName
  own : s.component.isConstructed = false → module = config.componentModule s.fileName →
    m.sideEffect = true

/-- The creator does not call a constructor that no import can reach. -/
structure IsImportable (c : Component) : Prop where
  isExported : c.isConstructed = true → c.export ≠ .unexported
  name : c.isConstructed = true → IsBindable c.name

theorem IsImportable.notDefault {c : Component} (hc : IsImportable c)
    (hconstructed : c.isConstructed = true) : c.name ≠ "default" := by
  intro heq
  have hfree := (hc.name hconstructed).isFree
  rw [heq] at hfree
  exact absurd hfree (by decide)

theorem gathers_of_mem (hm : (module, m) ∈ moduleImports s config) :
    ∃ gathered, Gathers module s.imports gathered ∧
      m = if module = config.componentModule s.fileName then gathered.addComponent s.component
        else gathered := by
  have hgathered := gathered_takeImports s.imports
  have hlookup := lookup_of_mem hgathered.ascends.alterModule hm
  rw [lookup_alterModule hgathered.ascends] at hlookup
  refine ⟨_, hgathered.gathers module, ?_⟩
  split at hlookup
  · next hown => rw [if_pos hown, ← Option.some.inj hlookup, hown]
  · next hother =>
      rw [if_neg hother, show (takeImports [] s.imports).lookup module = some m from hlookup]
      rfl

theorem gives_of_mem (hc : s.component.isConstructed = true → s.component.export ≠ .unexported)
    (hm : (module, m) ∈ moduleImports s config) {name : String} {exported : Option String}
    (hgives : m.Gives name exported) :
    (∃ symbol, (name, symbol) ∈ s.imports ∧ symbol.module = module ∧ symbol.export? = exported) ∨
      (name = s.component.name ∧ exported = some s.component.exportName) := by
  obtain ⟨gathered, hg, rfl⟩ := gathers_of_mem hm
  split at hgives
  · rw [gives_addComponent hc, hg.gives_iff] at hgives
    exact hgives.imp_right fun h => h.2
  · exact .inl (hg.gives_iff.1 hgives)

theorem fills_of_mem (hc : IsImportable s.component)
    (hm : (module, m) ∈ moduleImports s config) : Fills s config module m := by
  obtain ⟨gathered, hg, rfl⟩ := gathers_of_mem hm
  split
  · next hown =>
      subst hown
      refine ⟨hg.distinct_addComponent hc.notDefault, fun name exported => ?_, fun _ => rfl,
        fun hplain _ => ?_⟩
      · rw [gives_addComponent hc.isExported, hg.gives_iff]
        simp
      · simp [addComponent, hplain]
  · next hother =>
      refine ⟨hg.distinct, fun name exported => ?_, fun heffect => ?_,
        fun _ hown => absurd hown hother⟩
      · rw [hg.gives_iff, or_iff_left fun h => hother h.2.1]
      · exact absurd (heffect.symm.trans hg.sideEffect) (by simp)

theorem ascends_moduleImports : Ascends (moduleImports s config) :=
  (gathered_takeImports s.imports).ascends.alterModule

theorem exists_mem_moduleImports : (∃ m, (module, m) ∈ moduleImports s config) ↔
    module = config.componentModule s.fileName ∨ ∃ entry ∈ s.imports, entry.2.module = module := by
  have hgathered := gathered_takeImports s.imports
  have hascends := @ascends_moduleImports s config
  have hsome : ((moduleImports s config).lookup module).isSome = true ↔
      module = config.componentModule s.fileName ∨ ∃ entry ∈ s.imports, entry.2.module = module := by
    rw [← hgathered.isSome, moduleImports, ← takeImports, lookup_alterModule hgathered.ascends]
    split
    · next hown => simp [hown]
    · next hother => simp [hother]
  rw [← hsome, Option.isSome_iff_exists]
  exact exists_congr fun m => ⟨lookup_of_mem hascends, mem_of_lookup⟩

theorem Fills.forms_ne_nil (h : Fills s config (config.componentModule s.fileName) m) :
    m.forms ≠ [] := by
  have hlisted : m.clauses = [] → m.sideEffect = true := by
    intro hnil
    obtain ⟨hdefault, hnamed⟩ := clauses_eq_nil.1 hnil
    refine h.own (Bool.eq_false_iff.2 fun hconstructed => ?_) rfl
    have hgives := (h.gives_iff s.component.name _).2 (.inr ⟨hconstructed, rfl, rfl, rfl⟩)
    simp [Gives, hdefault, hnamed] at hgives
  unfold forms
  split
  · next hnil =>
      cases hwholes : m.wholes with
      | nil => simp [hlisted hnil]
      | cons name rest => simp
  · simp

def Needs (s : Surface) (config : Config) (b : Binding) : Prop :=
  (∃ symbol, (b.name, symbol) ∈ s.imports ∧ symbol.module = b.module ∧
      symbol.export? = b.exported) ∨
    (s.component.isConstructed = true ∧
      b = ⟨config.componentModule s.fileName, s.component.name, some s.component.exportName⟩)

structure Imports (s : Surface) (config : Config) (nodes : List Import) : Prop where
  nodup : (nodes.flatMap Import.bindings).Nodup
  mem_iff : ∀ b, b ∈ nodes.flatMap Import.bindings ↔ Needs s config b
  values : ∀ node ∈ nodes, node.TakesValues
  grouped : ∀ module, (nodes.filter fun node => node.module == module && !node.isWhole).length ≤ 1
  bare : ∀ node ∈ nodes, node.specifiers = none →
    node.module = config.componentModule s.fileName ∧
      nodes.filter (·.module == config.componentModule s.fileName) = [node]
  own : ∃ node ∈ nodes, node.module = config.componentModule s.fileName
  modules : (nodes.map (·.module)).Pairwise (· ≤ ·)
  names : ∀ node ∈ nodes, node.names.Pairwise (· ≤ ·)

def importNodes (s : Surface) (config : Config) : List Import :=
  (moduleImports s config).flatMap fun entry => entry.2.statements entry.1

theorem mem_importNodes {node : Import} : node ∈ importNodes s config ↔
    ∃ m, (node.module, m) ∈ moduleImports s config ∧ node ∈ m.statements node.module := by
  constructor
  · intro h
    obtain ⟨⟨module, m⟩, hm, hnode⟩ := List.mem_flatMap.1 h
    obtain rfl := (takesValues_of_mem hnode).1
    exact ⟨m, hm, hnode⟩
  · rintro ⟨m, hm, hnode⟩
    exact List.mem_flatMap.2 ⟨_, hm, hnode⟩

theorem filter_statements (other : String) (m : ModuleImports) :
    (m.statements other).filter (·.module == module)
      = if other = module then m.statements other else [] := by
  split
  · next heq =>
      refine List.filter_eq_self.2 fun node hnode => ?_
      rw [(takesValues_of_mem hnode).1, heq, beq_self_eq_true]
  · next hne =>
      refine List.filter_eq_nil_iff.2 fun node hnode => ?_
      rw [(takesValues_of_mem hnode).1, beq_iff_eq]
      exact hne

theorem filter_importNodes (hm : (module, m) ∈ moduleImports s config) :
    (importNodes s config).filter (·.module == module) = m.statements module := by
  obtain ⟨before, after, hsplit⟩ := List.append_of_mem hm
  have hkeys : (module :: (before ++ after).map Prod.fst).Nodup := by
    have hascends := (@ascends_moduleImports s config).nodup Sorted.isOrder_textBefore
    rw [hsplit, List.map_append, List.map_cons, List.nodup_middle] at hascends
    rwa [List.map_append]
  have hothers : ∀ entry ∈ before ++ after, entry.1 ≠ module := fun entry hentry heq =>
    (List.nodup_cons.1 hkeys).1 (heq ▸ List.mem_map_of_mem hentry)
  have hnone {entries : List (String × ModuleImports)} (h : ∀ entry ∈ entries, entry.1 ≠ module) :
      (entries.flatMap fun entry =>
        (entry.2.statements entry.1).filter (·.module == module)) = [] := by
    refine List.flatMap_eq_nil_iff.2 fun entry hentry => ?_
    rw [filter_statements, if_neg (h entry hentry)]
  rw [importNodes, List.filter_flatMap, hsplit, List.flatMap_append, List.flatMap_cons,
    hnone fun entry hentry => hothers entry (List.mem_append_left _ hentry),
    hnone fun entry hentry => hothers entry (List.mem_append_right _ hentry),
    filter_statements, if_pos rfl, List.nil_append, List.append_nil]

theorem bindings_importNodes (s : Surface) (config : Config) :
    (importNodes s config).flatMap Import.bindings
      = (moduleImports s config).flatMap fun entry => entry.2.bindings entry.1 := by
  rw [importNodes, List.flatMap_assoc]
  exact List.flatMap_congr fun entry _ => flatMap_statements entry.1 entry.2

theorem Fills.gives_iff_needs (h : Fills s config module m) {name : String}
    {exported : Option String} :
    m.Gives name exported ↔ Needs s config ⟨module, name, exported⟩ := by
  rw [h.gives_iff]
  simp only [Needs, Binding.mk.injEq]

theorem Needs.from_module {b : Binding} (h : Needs s config b) :
    b.module = config.componentModule s.fileName ∨
      ∃ entry ∈ s.imports, entry.2.module = b.module := by
  rcases h with ⟨symbol, hsymbol, hmodule, -⟩ | ⟨-, rfl⟩
  · exact .inr ⟨_, hsymbol, hmodule⟩
  · exact .inl rfl

theorem nodup_bindings_importNodes (hc : IsImportable s.component) :
    ((importNodes s config).flatMap Import.bindings).Nodup := by
  rw [bindings_importNodes, List.nodup_flatMap]
  refine ⟨fun entry hentry => (fills_of_mem hc hentry).distinct.nodup_bindings, ?_⟩
  refine (List.pairwise_map.1 (@ascends_moduleImports s config)).imp fun {a b} hab c hca hcb => ?_
  have heq : a.1 = b.1 := (mem_bindings.1 hca).1.symm.trans (mem_bindings.1 hcb).1
  simp [heq, Sorted.isOrder_textBefore.irrefl] at hab

theorem mem_bindings_importNodes (hc : IsImportable s.component) {b : Binding} :
    b ∈ (importNodes s config).flatMap Import.bindings ↔ Needs s config b := by
  rw [bindings_importNodes, List.mem_flatMap]
  constructor
  · rintro ⟨⟨module, m⟩, hm, hb⟩
    obtain ⟨rfl, hgives⟩ := mem_bindings.1 hb
    exact (fills_of_mem hc hm).gives_iff_needs.1 hgives
  · intro hneeds
    obtain ⟨m, hm⟩ := exists_mem_moduleImports.2 hneeds.from_module
    exact ⟨_, hm, mem_bindings.2 ⟨rfl, (fills_of_mem hc hm).gives_iff_needs.2 hneeds⟩⟩

theorem filter_importNodes_length (module : String) :
    ((importNodes s config).filter fun node => node.module == module && !node.isWhole).length
      ≤ 1 := by
  by_cases hentry : ∃ m, (module, m) ∈ moduleImports s config
  · obtain ⟨m, hm⟩ := hentry
    rw [← List.filter_filter, List.filter_comm, filter_importNodes hm]
    exact filter_statements_length module m
  · have hnone : ((importNodes s config).filter fun node =>
        node.module == module && !node.isWhole) = [] := by
      refine List.filter_eq_nil_iff.2 fun node hnode => ?_
      obtain ⟨m, hm, -⟩ := mem_importNodes.1 hnode
      rw [Bool.and_eq_true, beq_iff_eq]
      exact fun h => hentry ⟨m, h.1 ▸ hm⟩
    rw [hnone]
    exact Nat.zero_le _

theorem modules_importNodes : ((importNodes s config).map (·.module)).Pairwise (· ≤ ·) := by
  rw [importNodes, List.map_flatMap, List.pairwise_flatMap]
  have hmodules {entry : String × ModuleImports} {source : String}
      (h : source ∈ (entry.2.statements entry.1).map (·.module)) : source = entry.1 := by
    obtain ⟨node, hnode, rfl⟩ := List.mem_map.1 h
    exact (takesValues_of_mem hnode).1
  constructor
  · intro entry _
    refine List.pairwise_of_forall_mem_list fun a ha b hb => ?_
    have hsame : a = b := (hmodules ha).trans (hmodules hb).symm
    exact hsame ▸ String.le_refl a
  · refine (List.pairwise_map.1 ascends_moduleImports).imp fun {x y} hxy a ha b hb => ?_
    rw [hmodules ha, hmodules hb]
    exact String.not_lt.1 (String.lt_asymm (of_decide_eq_true hxy))

theorem imports_importNodes (hc : IsImportable s.component) :
    Imports s config (importNodes s config) where
  nodup := nodup_bindings_importNodes hc
  mem_iff _ := mem_bindings_importNodes hc
  values node hnode := by
    obtain ⟨m, -, hnode⟩ := mem_importNodes.1 hnode
    exact (takesValues_of_mem hnode).2
  grouped := filter_importNodes_length
  bare node hnode hbare := by
    obtain ⟨m, hm, hnode⟩ := mem_importNodes.1 hnode
    obtain ⟨hstatements, heffect⟩ := statements_of_bare hnode hbare
    have hown := (fills_of_mem hc hm).sideEffect heffect
    refine ⟨hown, ?_⟩
    rw [← hown, filter_importNodes hm, hstatements]
  own := by
    obtain ⟨m, hm⟩ := (@exists_mem_moduleImports s config _).2 (.inl rfl)
    obtain ⟨form, hform⟩ := List.exists_mem_of_ne_nil _ (fills_of_mem hc hm).forms_ne_nil
    exact ⟨form.node _, List.mem_flatMap.2 ⟨_, hm, List.mem_map_of_mem hform⟩, rfl⟩
  modules := modules_importNodes
  names node hnode := by
    obtain ⟨m, hm, hnode⟩ := mem_importNodes.1 hnode
    exact (fills_of_mem hc hm).distinct.pairwise_names hnode

structure IsSpelled (s : Surface) (config : Config) : Prop where
  names : ∀ entry ∈ s.imports, IsBindable entry.1 ∧
    (entry.2.whole = false → Text.isIdentifier entry.2.imported = true)
  modules : ∀ entry ∈ s.imports, entry.2.module.toList.all (Scan.isPlain '\x27') = true
  own : (config.componentModule s.fileName).toList.all (Scan.isPlain '\x27') = true

theorem Fills.isReadable (h : Fills s config module m) (hc : IsImportable s.component)
    (hs : IsSpelled s config) : m.IsReadable := by
  intro name exported hgives
  rcases (h.gives_iff name exported).1 hgives with ⟨symbol, hsymbol, -, rfl⟩ |
    ⟨hconstructed, -, rfl, rfl⟩
  · obtain ⟨hname, himported⟩ := hs.names _ hsymbol
    refine ⟨hname, fun imported hexport => ?_⟩
    obtain ⟨hwhole, rfl⟩ := export?_eq_some.1 hexport
    exact himported hwhole
  · refine ⟨hc.name hconstructed, fun imported hexport => ?_⟩
    obtain rfl := Option.some.inj hexport
    unfold Component.exportName
    split
    · decide
    · exact (hc.name hconstructed).isIdentifier

theorem plain_of_mem (hs : IsSpelled s config) (hm : (module, m) ∈ moduleImports s config) :
    module.toList.all (Scan.isPlain '\x27') = true := by
  rcases exists_mem_moduleImports.1 ⟨m, hm⟩ with rfl | ⟨entry, hentry, rfl⟩
  · exact hs.own
  · exact hs.modules entry hentry

/-- The import lines of a bridge are read as statements that bind exactly what it has to import. -/
theorem read_importLines (hc : IsImportable s.component) (hs : IsSpelled s config) :
    ∃ nodes : List Import, Module.ofText? (joinLines (importLines s config))
      = some (nodes.map .importFrom) ∧ Imports s config nodes := by
  let forms := (moduleImports s config).flatMap fun entry => entry.2.forms.map (entry.1, ·)
  have hforms : ∀ entry ∈ forms, entry.2.IsReadable ∧
      entry.1.toList.all (Scan.isPlain '\x27') = true := by
    intro entry hentry
    obtain ⟨⟨module, m⟩, hm, hentry⟩ := List.mem_flatMap.1 hentry
    obtain ⟨form, hform, rfl⟩ := List.mem_map.1 hentry
    exact ⟨((fills_of_mem hc hm).isReadable hc hs).forms hform, plain_of_mem hs hm⟩
  have hlines : importLines s config = forms.map fun entry => entry.2.text entry.1 := by
    rw [List.map_flatMap]
    refine List.flatMap_congr fun entry _ => (lines_eq entry.1 entry.2).trans ?_
    rw [List.map_map]
    rfl
  have hnodes : importNodes s config = forms.map fun entry => entry.2.node entry.1 := by
    rw [List.map_flatMap]
    refine List.flatMap_congr fun entry _ => ?_
    rw [statements, List.map_map]
    rfl
  refine ⟨importNodes s config, ?_, imports_importNodes hc⟩
  rw [hlines, ofText?_lines hforms, hnodes, List.map_map]
  rfl

def crowdedSurface : Surface where
  fileName := "a"
  interfaces := []
  enums := []
  component := ⟨"A", "HTMLElement", .default, none, none⟩
  members := []
  imports := [("E", ⟨"./m.js", "default", false⟩), ("D", ⟨"./m.js", "default", false⟩),
    ("X", ⟨"./m.js", "Y", false⟩), ("n", ⟨"./m.js", "", true⟩), ("B", ⟨"./a.js", "default", false⟩)]
  referenced := []

example : importLines crowdedSurface .standard = [
    "import B, \x7bdefault as A\x7d from './a.js';",
    "import * as n from './m.js';",
    "import E, \x7bdefault as D, Y as X\x7d from './m.js';"] := by
  decide +kernel

theorem read_importLines_crowdedSurface :
    IsImportable crowdedSurface.component ∧ IsSpelled crowdedSurface .standard ∧
      ∃ nodes, Module.ofText? (joinLines (importLines crowdedSurface .standard))
        = some (nodes.map .importFrom) ∧ Imports crowdedSurface .standard nodes := by
  have hc : IsImportable crowdedSurface.component :=
    ⟨fun _ => by decide, fun _ => by decide⟩
  have hs : IsSpelled crowdedSurface .standard := ⟨by decide, by decide, by decide⟩
  exact ⟨hc, hs, read_importLines hc hs⟩

end Bridge

end ElementBridge
