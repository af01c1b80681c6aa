import ElementBridge.Proofs.ImportedNames
import Mathlib.Data.List.Nodup
import Mathlib.Data.List.Perm.Basic

namespace ElementBridge

namespace Sorted

variable {α : Type} {before : α → α → Bool}

structure IsOrder (before : α → α → Bool) : Prop where
  asymm : ∀ {a b}, before a b = true → before b a = false
  trans : ∀ {a b c}, before a b = true → before b c = true → before a c = true
  total : ∀ a b, before a b = false → before b a = false → a = b

def Ascends (before : α → α → Bool) (items : List α) : Prop :=
  items.Pairwise fun a b => before a b = true

theorem IsOrder.irrefl (h : IsOrder before) (a : α) : before a a = false := by
  cases haa : before a a with
  | false => rfl
  | true => exact absurd (haa.symm.trans (h.asymm haa)) (by simp)

theorem Ascends.insert (ho : IsOrder before) {items : List α} (h : Ascends before items) (a : α) :
    Ascends before (insert before a items) := by
  induction items with
  | nil => exact List.pairwise_singleton _ _
  | cons b rest ih =>
      obtain ⟨hb, hrest⟩ := List.pairwise_cons.1 h
      unfold Sorted.insert
      split
      · next hab =>
          refine List.pairwise_cons.2 ⟨List.forall_mem_cons.2 ⟨hab, fun c hc => ?_⟩, h⟩
          exact ho.trans hab (hb c hc)
      · split
        · next hba =>
            refine List.pairwise_cons.2 ⟨fun c hc => ?_, ih hrest⟩
            rcases (mem_insert ho.total).1 hc with rfl | hc
            · exact hba
            · exact hb c hc
        · exact h

theorem insert_of_mem (ho : IsOrder before) {items : List α} (h : Ascends before items) {a : α}
    (ha : a ∈ items) : insert before a items = items := by
  induction items with
  | nil => exact absurd ha List.not_mem_nil
  | cons b rest ih =>
      obtain ⟨hb, hrest⟩ := List.pairwise_cons.1 h
      unfold Sorted.insert
      rcases List.mem_cons.1 ha with rfl | ha
      · simp [ho.irrefl]
      · simp [hb a ha, ho.asymm (hb a ha), ih hrest ha]

theorem insert_perm (ho : IsOrder before) {items : List α} {a : α} (ha : a ∉ items) :
    (insert before a items).Perm (a :: items) := by
  induction items with
  | nil => exact .refl _
  | cons b rest ih =>
      obtain ⟨hab, ha⟩ := not_or.1 (fun h => ha (List.mem_cons.2 h))
      unfold Sorted.insert
      split
      · exact .refl _
      · next hnot =>
          split
          · exact ((ih ha).cons b).trans (.swap a b rest)
          · next hnot' => exact absurd (ho.total a b (by simpa using hnot) (by simpa using hnot')) hab

theorem isOrder_textBefore : IsOrder textBefore where
  asymm h := decide_eq_false (String.lt_asymm (of_decide_eq_true h))
  trans h h' := decide_eq_true (String.lt_trans (of_decide_eq_true h) (of_decide_eq_true h'))
  total := eq_of_textBefore

end Sorted

namespace Bridge

namespace ModuleImports

theorem pairBefore_iff {a b : String × String} : pairBefore a b = true ↔
    Sorted.textBefore a.1 b.1 = true ∨ a.1 = b.1 ∧ Sorted.textBefore a.2 b.2 = true := by
  simp [pairBefore]

theorem isOrder_pairBefore : Sorted.IsOrder pairBefore where
  asymm {a b} h := by
    have ho := Sorted.isOrder_textBefore
    rw [← Bool.not_eq_true, pairBefore_iff]
    rcases pairBefore_iff.1 h with hab | ⟨heq, hab⟩
    · rintro (hba | ⟨heq, -⟩)
      · simp [ho.asymm hab] at hba
      · simp [heq, ho.irrefl] at hab
    · rintro (hba | ⟨-, hba⟩)
      · simp [heq, ho.irrefl] at hba
      · simp [ho.asymm hab] at hba
  trans {a b c} h h' := by
    have ho := Sorted.isOrder_textBefore
    rw [pairBefore_iff] at h h' ⊢
    rcases h with hab | ⟨heq, hab⟩
    · rcases h' with hbc | ⟨heq, -⟩
      · exact .inl (ho.trans hab hbc)
      · exact .inl (heq ▸ hab)
    · rcases h' with hbc | ⟨heq', hbc⟩
      · exact .inl (heq ▸ hbc)
      · exact .inr ⟨heq.trans heq', ho.trans hab hbc⟩
  total := eq_of_pairBefore

def names (m : ModuleImports) : List String :=
  m.wholes ++ m.default.toList ++ m.named.map Prod.fst

/-- Named imports ascend, and the default export is among them only under a second name. -/
structure Tidy (m : ModuleImports) : Prop where
  ascends : Sorted.Ascends pairBefore m.named
  defaultFirst : m.default = none → ∀ name, (name, "default") ∉ m.named

variable {m : ModuleImports} {name exported : String} {symbol : Imported}

theorem mem_names : name ∈ m.names ↔ ∃ exported, m.Takes exported name := by
  simp only [names, List.mem_append, Option.mem_toList, List.mem_map, Prod.exists,
    exists_and_right, exists_eq_right]
  constructor
  · rintro ((h | h) | ⟨exported, h⟩)
    · exact ⟨_, .whole h⟩
    · exact ⟨_, .default h⟩
    · exact ⟨_, .named h⟩
  · rintro ⟨exported, h⟩
    cases h with
    | whole h => exact .inl (.inl h)
    | default h => exact .inl (.inr h)
    | named h => exact .inr ⟨_, h⟩

theorem tidy_empty : Tidy .empty := ⟨List.Pairwise.nil, fun _ _ => List.not_mem_nil⟩

theorem Tidy.addNamed (h : m.Tidy) (hexported : exported = "default" → m.default ≠ none) :
    (m.addNamed name exported).Tidy := by
  refine ⟨h.ascends.insert isOrder_pairBefore _, fun hnone other hmem => ?_⟩
  rcases mem_addNamed.1 hmem with heq | hmem
  · exact hexported (Prod.mk.inj heq).2.symm hnone
  · exact h.defaultFirst hnone other hmem

theorem names_addNamed (hn : (name, exported) ∉ m.named) :
    (m.addNamed name exported).names.Perm (name :: m.names) := by
  have hnamed := ((Sorted.insert_perm isOrder_pairBefore hn).map Prod.fst).append_left
    (m.wholes ++ m.default.toList)
  exact hnamed.trans List.perm_middle

theorem Tidy.addDefault (h : m.Tidy) : (m.addDefault name).Tidy := by
  unfold ModuleImports.addDefault
  split
  · next hfirst =>
      split
      · exact h
      · exact h.addNamed fun _ => by simp [hfirst]
  · exact ⟨h.ascends, fun hnone => absurd hnone (by simp)⟩

theorem names_addDefault (hn : ¬ m.Takes "default" name) :
    (m.addDefault name).names.Perm (name :: m.names) := by
  unfold ModuleImports.addDefault
  split
  · next first hfirst =>
      split
      · next heq => exact absurd (.default (heq ▸ hfirst)) hn
      · exact names_addNamed fun hmem => hn (.named hmem)
  · next hnone =>
      simp only [names, hnone, Option.toList_some, Option.toList_none, List.append_nil,
        List.append_assoc, List.singleton_append]
      exact List.perm_middle

theorem Tidy.add (h : m.Tidy) : (m.add name symbol).Tidy := by
  unfold ModuleImports.add
  split
  · exact ⟨h.ascends, h.defaultFirst⟩
  · split
    · exact h.addDefault
    · next hdefault => exact h.addNamed fun heq => absurd heq (by simpa using hdefault)

theorem names_add (hn : name ∉ m.names) :
    (m.add name symbol).names.Perm (name :: m.names) := by
  have hfresh {exported : String} : ¬ m.Takes exported name := fun h => hn (mem_names.2 ⟨_, h⟩)
  unfold ModuleImports.add
  split
  · have hwholes := (Sorted.insert_perm Sorted.isOrder_textBefore (fun h => hfresh (.whole h)) :
      (Sorted.insert Sorted.textBefore name m.wholes).Perm _)
    exact (hwholes.append_right m.default.toList).append_right (m.named.map Prod.fst)
  · split
    · exact names_addDefault hfresh
    · exact names_addNamed fun h => hfresh (.named h)

theorem Takes.of_addNamed {other otherExport : String}
    (h : (m.addNamed other otherExport).Takes exported name) :
    m.Takes exported name ∨ exported = otherExport ∧ name = other := by
  cases h with
  | whole h => exact .inl (.whole h)
  | default h => exact .inl (.default h)
  | named h =>
      rcases mem_addNamed.1 h with heq | h
      · exact .inr ⟨(Prod.mk.inj heq).2, (Prod.mk.inj heq).1⟩
      · exact .inl (.named h)

theorem Takes.of_add {other : String} (h : (m.add other symbol).Takes exported name) :
    m.Takes exported name ∨ exported = symbol.exportName ∧ name = other := by
  unfold ModuleImports.add at h
  unfold Imported.exportName
  split at h
  · next hwhole =>
      rw [if_pos hwhole]
      cases h with
      | whole h => exact (mem_addWhole.1 h).elim (fun heq => .inr ⟨rfl, heq⟩) fun h => .inl (.whole h)
      | default h => exact .inl (.default h)
      | named h => exact .inl (.named h)
  · next hwhole =>
      rw [if_neg hwhole]
      split at h
      · next hdefault =>
          rw [beq_iff_eq.1 hdefault]
          unfold ModuleImports.addDefault at h
          split at h
          · split at h
            · exact .inl h
            · exact h.of_addNamed
          · cases h with
            | whole h => exact .inl (.whole h)
            | default h => exact .inr ⟨rfl, (Option.some.inj h).symm⟩
            | named h => exact .inl (.named h)
      · exact h.of_addNamed

theorem takes_iff : m.Takes exported name ↔ exported = "*" ∧ name ∈ m.wholes ∨
    exported = "default" ∧ m.default = some name ∨ (name, exported) ∈ m.named := by
  constructor
  · intro h
    cases h with
    | whole h => exact .inl ⟨rfl, h⟩
    | default h => exact .inr (.inl ⟨rfl, h⟩)
    | named h => exact .inr (.inr h)
  · rintro (⟨rfl, h⟩ | ⟨rfl, h⟩ | h)
    · exact .whole h
    · exact .default h
    · exact .named h

theorem addNamed_of_mem (hm : m.Tidy) (h : (name, exported) ∈ m.named) :
    m.addNamed name exported = m := by
  rw [ModuleImports.addNamed, Sorted.insert_of_mem isOrder_pairBefore hm.ascends h]

theorem addDefault_of_takes (hm : m.Tidy) (h : m.Takes "default" name) : m.addDefault name = m := by
  have h := (takes_iff.1 h).resolve_left fun hstar => absurd hstar.1 (by decide)
  unfold ModuleImports.addDefault
  split
  · next first hfirst =>
      split
      · rfl
      · next hne =>
          refine addNamed_of_mem hm (h.resolve_left fun hdefault => hne ?_)
          exact Option.some.inj (hfirst.symm.trans hdefault.2)
  · next hnone =>
      rcases h with ⟨-, hdefault⟩ | hnamed
      · exact absurd (hnone.symm.trans hdefault) (by simp)
      · exact absurd hnamed (hm.defaultFirst hnone name)

variable {c : Component}

theorem names_addComponent_of_takes (hm : m.Tidy) (hc : c.name ≠ "*" ∧ c.name ≠ "default")
    (h : m.Takes c.exportName c.name) : (m.addComponent c).names = m.names := by
  unfold ModuleImports.addComponent
  unfold Component.exportName at h
  split
  · next hdefault =>
      rw [hdefault] at h
      rw [addDefault_of_takes hm h]
  · next hnamed =>
      rw [hnamed] at h
      have hmem := ((takes_iff.1 h).resolve_left fun hstar => hc.1 hstar.1).resolve_left
        fun hdefault => hc.2 hdefault.1
      rw [addNamed_of_mem hm hmem]
  · rfl

theorem names_addComponent (he : c.isConstructed = true → c.export ≠ .unexported)
    (h : ¬ m.Takes c.exportName c.name) : (m.addComponent c).names.Perm
      ((if c.isConstructed then [c.name] else []) ++ m.names) := by
  unfold ModuleImports.addComponent
  unfold Component.exportName at h
  split
  · next hconstructed hdefault =>
      rw [hdefault] at h
      rw [if_pos hconstructed]
      exact names_addDefault h
  · next hconstructed hnamed =>
      rw [hnamed] at h
      rw [if_pos hconstructed]
      exact names_addNamed fun hmem => h (.named hmem)
  · next hdefault hnamed =>
      have hplain : ¬ c.isConstructed = true := by
        intro hconstructed
        cases hkind : c.export with
        | named => exact hnamed hconstructed hkind
        | default => exact hdefault hconstructed hkind
        | unexported => exact he hconstructed hkind
      rw [if_neg hplain]
      exact .refl _

end ModuleImports

variable {module : String} {change : ModuleImports → ModuleImports}
  {modules : List (String × ModuleImports)}

def boundNames (modules : List (String × ModuleImports)) : List String :=
  modules.flatMap (·.2.names)

def Ascends (modules : List (String × ModuleImports)) : Prop :=
  Sorted.Ascends Sorted.textBefore (modules.map Prod.fst)

theorem map_fst_alterModule : (alterModule module change modules).map Prod.fst
    = Sorted.insert Sorted.textBefore module (modules.map Prod.fst) := by
  have ho := Sorted.isOrder_textBefore
  induction modules with
  | nil => rfl
  | cons entry rest ih =>
      obtain ⟨name, m⟩ := entry
      rw [alterModule, List.map_cons, Sorted.insert]
      split
      · next heq => simp [heq, ho.irrefl]
      · next hne =>
          split
          · rfl
          · next hbefore =>
              have hafter : Sorted.textBefore name module = true := by
                rw [← Bool.not_eq_false]
                exact fun h => hne (ho.total _ _ (by simpa using hbefore) h)
              rw [if_pos hafter, List.map_cons, ih]

theorem Ascends.alterModule (h : Ascends modules) : Ascends (alterModule module change modules) := by
  rw [Ascends, map_fst_alterModule]
  exact Sorted.Ascends.insert Sorted.isOrder_textBefore h module

theorem Ascends.eq_of_mem (h : Ascends modules) {m m' : ModuleImports}
    (hm : (module, m) ∈ modules) (hm' : (module, m') ∈ modules) : m = m' := by
  have hkeys : (modules.map Prod.fst).Nodup := by
    refine List.Pairwise.imp ?_ h
    rintro first _ hbefore rfl
    exact absurd hbefore (by simp [Sorted.isOrder_textBefore.irrefl])
  exact (Prod.mk.inj (List.inj_on_of_nodup_map hkeys hm hm' rfl)).2

theorem alterModule_eq (h : Ascends modules) : ∃ before m after,
    alterModule module change modules = before ++ (module, change m) :: after ∧
      (modules = before ++ (module, m) :: after ∨
        m = .empty ∧ modules = before ++ after ∧ module ∉ modules.map Prod.fst) := by
  induction modules with
  | nil => exact ⟨[], .empty, [], rfl, .inr ⟨rfl, rfl, List.not_mem_nil⟩⟩
  | cons entry rest ih =>
      obtain ⟨name, m⟩ := entry
      obtain ⟨hfirst, hrest⟩ := List.pairwise_cons.1 h
      unfold Bridge.alterModule
      split
      · next heq => exact ⟨[], m, rest, heq ▸ rfl, .inl (heq ▸ rfl)⟩
      · next hne =>
          split
          · next hbefore =>
              refine ⟨[], .empty, (name, m) :: rest, rfl, .inr ⟨rfl, rfl, ?_⟩⟩
              rintro (_ | ⟨_, hmem⟩)
              · exact hne rfl
              · have hafter := hfirst module hmem
                simp [Sorted.isOrder_textBefore.asymm hbefore] at hafter
          · obtain ⟨before, m', after, haltered, hcases⟩ := ih hrest
            refine ⟨(name, m) :: before, m', after, by rw [haltered]; rfl, ?_⟩
            rcases hcases with heq | ⟨hempty, heq, hmem⟩
            · exact .inl (by rw [heq]; rfl)
            · refine .inr ⟨hempty, by rw [heq]; rfl, ?_⟩
              rintro (_ | ⟨_, hmem'⟩)
              · exact hne rfl
              · exact hmem hmem'

structure Alters (module : String) (change : ModuleImports → ModuleImports)
    (modules : List (String × ModuleImports)) (m : ModuleImports) : Prop where
  found : (module, m) ∈ modules ∨ m = .empty ∧ module ∉ modules.map Prod.fst
  entries : ∀ entry ∈ alterModule module change modules,
    entry = (module, change m) ∨ entry ∈ modules
  names : ∀ extra, (change m).names.Perm (extra ++ m.names) →
    (boundNames (alterModule module change modules)).Perm (extra ++ boundNames modules)

theorem exists_alters (change : ModuleImports → ModuleImports) (module : String)
    (h : Ascends modules) : ∃ m, Alters module change modules m := by
  obtain ⟨before, m, after, haltered, hcases⟩ := @alterModule_eq module change modules h
  have hold : boundNames modules = boundNames before ++ (m.names ++ boundNames after) := by
    rcases hcases with rfl | ⟨rfl, rfl, -⟩
    · simp [boundNames]
    · simp [boundNames, ModuleImports.names, ModuleImports.empty]
  refine ⟨m, ?_, fun entry hentry => ?_, fun extra hextra => ?_⟩
  · rcases hcases with rfl | ⟨hempty, -, hnew⟩
    · exact .inl (by simp)
    · exact .inr ⟨hempty, hnew⟩
  · rw [haltered, List.mem_append, List.mem_cons] at hentry
    rcases hcases with rfl | ⟨-, rfl, -⟩
    · rcases hentry with hentry | rfl | hentry
      · exact .inr (List.mem_append_left _ hentry)
      · exact .inl rfl
      · exact .inr (List.mem_append_right _ (List.mem_cons_of_mem _ hentry))
    · rcases hentry with hentry | rfl | hentry
      · exact .inr (List.mem_append_left _ hentry)
      · exact .inl rfl
      · exact .inr (List.mem_append_right _ hentry)
  · have hnew : boundNames (alterModule module change modules)
        = boundNames before ++ ((change m).names ++ boundNames after) := by
      simp [haltered, boundNames]
    calc (boundNames (alterModule module change modules)).Perm
          (boundNames before ++ ((extra ++ m.names) ++ boundNames after)) :=
            hnew ▸ (hextra.append_right _).append_left _
      _ = boundNames before ++ (extra ++ (m.names ++ boundNames after)) := by
            rw [List.append_assoc]
      (boundNames before ++ (extra ++ (m.names ++ boundNames after))).Perm
          (extra ++ (boundNames before ++ (m.names ++ boundNames after))) :=
            List.perm_append_comm_assoc _ _ _
      _ = extra ++ boundNames modules := by rw [hold]

structure Lists (modules : List (String × ModuleImports)) (imports : ImportTable) : Prop where
  ascends : Ascends modules
  tidy : ∀ entry ∈ modules, entry.2.Tidy
  names : (boundNames modules).Perm (imports.map Prod.fst)
  takes : ∀ entry ∈ modules, ∀ exported name, entry.2.Takes exported name →
    ∃ symbol, (name, symbol) ∈ imports ∧ symbol.module = entry.1 ∧ symbol.exportName = exported

variable {imports : ImportTable} {name : String} {symbol : Imported} {m : ModuleImports}

theorem lists_nil : Lists [] [] where
  ascends := List.Pairwise.nil
  tidy _ h := absurd h List.not_mem_nil
  names := .refl _
  takes _ h := absurd h List.not_mem_nil

theorem Lists.tidy_of_alters (h : Lists modules imports) (ha : Alters module change modules m) :
    m.Tidy := by
  rcases ha.found with hmem | ⟨rfl, -⟩
  · exact h.tidy _ hmem
  · exact ModuleImports.tidy_empty

theorem not_takes_empty {exported : String} : ¬ ModuleImports.empty.Takes exported name := by
  intro h
  cases h with
  | whole h => exact absurd h List.not_mem_nil
  | default h => exact absurd h (by simp [ModuleImports.empty])
  | named h => exact absurd h List.not_mem_nil

theorem Lists.takes_of_alters (h : Lists modules imports) (ha : Alters module change modules m)
    {exported : String} (ht : m.Takes exported name) :
    ∃ symbol, (name, symbol) ∈ imports ∧ symbol.module = module ∧ symbol.exportName = exported := by
  rcases ha.found with hmem | ⟨rfl, -⟩
  · exact h.takes _ hmem exported name ht
  · exact absurd ht not_takes_empty

theorem Lists.add (h : Lists modules imports) (hn : name ∉ imports.map Prod.fst) :
    Lists (alterModule symbol.module (·.add name symbol) modules) (imports ++ [(name, symbol)]) := by
  obtain ⟨m, ha⟩ := exists_alters (·.add name symbol) symbol.module h.ascends
  have hfresh : name ∉ m.names := by
    intro hmem
    obtain ⟨exported, ht⟩ := ModuleImports.mem_names.1 hmem
    obtain ⟨found, hfound, -⟩ := h.takes_of_alters ha ht
    exact hn (List.mem_map_of_mem hfound)
  refine ⟨h.ascends.alterModule, fun entry hentry => ?_, ?_, fun entry hentry exported other ht => ?_⟩
  · rcases ha.entries entry hentry with rfl | hentry
    · exact (h.tidy_of_alters ha).add
    · exact h.tidy entry hentry
  · have hnames := ha.names [name] (ModuleImports.names_add hfresh)
    rw [List.map_append]
    exact (hnames.trans (h.names.cons name)).trans (List.perm_append_singleton _ _).symm
  · have keep : (∃ found, (other, found) ∈ imports ∧ found.module = entry.1 ∧
          found.exportName = exported) →
        ∃ found, (other, found) ∈ imports ++ [(name, symbol)] ∧ found.module = entry.1 ∧
          found.exportName = exported :=
      fun ⟨found, hfound, heq⟩ => ⟨found, List.mem_append_left _ hfound, heq⟩
    rcases ha.entries entry hentry with rfl | hentry
    · rcases ht.of_add with ht | ⟨rfl, rfl⟩
      · exact keep (h.takes_of_alters ha ht)
      · exact ⟨symbol, by simp, rfl, rfl⟩
    · exact keep (h.takes entry hentry exported other ht)

theorem Lists.takeImports (h : Lists modules imports) {more : ImportTable}
    (hn : ((imports ++ more).map Prod.fst).Nodup) :
    Lists (takeImports modules more) (imports ++ more) := by
  induction more generalizing modules imports with
  | nil => simpa [Bridge.takeImports] using h
  | cons entry rest ih =>
      rw [List.append_cons] at hn ⊢
      refine ih (h.add ?_) hn
      rw [List.map_append, List.map_append, List.append_assoc] at hn
      exact fun hmem => (List.nodup_append.1 hn).2.2 _ hmem _ (by simp) rfl

variable {s : Surface} {config : Config}

def ImportsItself (s : Surface) (config : Config) : Prop :=
  ∃ symbol, (s.component.name, symbol) ∈ s.imports ∧
    symbol.module = config.componentModule s.fileName ∧
    symbol.exportName = s.component.exportName

def importedNames (s : Surface) (config : Config) : List String :=
  boundNames (moduleImports s config)

theorem importedNames_perm (hn : (s.imports.map Prod.fst).Nodup)
    (hc : s.component.name ≠ "*" ∧ s.component.name ≠ "default")
    (he : s.component.isConstructed = true → s.component.export ≠ .unexported) :
    (ImportsItself s config → (importedNames s config).Perm (s.imports.map Prod.fst)) ∧
    (¬ ImportsItself s config → (importedNames s config).Perm
      ((if s.component.isConstructed then [s.component.name] else [])
        ++ s.imports.map Prod.fst)) := by
  have hlists : Lists (takeImports [] s.imports) s.imports := lists_nil.takeImports hn
  obtain ⟨m, ha⟩ := exists_alters (·.addComponent s.component)
    (config.componentModule s.fileName) hlists.ascends
  have himports : m.Takes s.component.exportName s.component.name ↔ ImportsItself s config := by
    refine ⟨fun ht => hlists.takes_of_alters ha ht, fun ⟨symbol, hsymbol, hmodule, hexport⟩ => ?_⟩
    obtain ⟨m', hm', ht⟩ := @offers_takeImports [] _ _ _ hsymbol
    rw [hmodule] at hm'
    rw [hexport] at ht
    rcases ha.found with hm | ⟨-, hnew⟩
    · exact hlists.ascends.eq_of_mem hm hm' ▸ ht
    · exact absurd (List.mem_map_of_mem hm') hnew
  constructor
  · intro hitself
    have hsame := ModuleImports.names_addComponent_of_takes (hlists.tidy_of_alters ha) hc
      (himports.2 hitself)
    exact (ha.names [] (.of_eq hsame)).trans hlists.names
  · intro hitself
    have hmore := ModuleImports.names_addComponent he fun ht => hitself (himports.1 ht)
    exact (ha.names _ hmore).trans (hlists.names.append_left _)

end Bridge

end ElementBridge
