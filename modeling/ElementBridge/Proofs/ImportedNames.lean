import ElementBridge.Bridge.Imports

namespace ElementBridge

theorem mem_of_lookup {α β : Type} [BEq α] [LawfulBEq α] {entries : List (α × β)} {key : α}
    {value : β} (h : entries.lookup key = some value) : (key, value) ∈ entries := by
  obtain ⟨before, after, rfl, -⟩ := List.lookup_eq_some_iff.1 h
  simp

namespace Sorted

variable {α : Type} {before : α → α → Bool}

theorem mem_insert (hb : ∀ a b, before a b = false → before b a = false → a = b) {a c : α}
    {items : List α} : c ∈ insert before a items ↔ c = a ∨ c ∈ items := by
  induction items with
  | nil => simp [insert]
  | cons b rest ih =>
      unfold insert
      split
      · exact List.mem_cons
      · next hab =>
          split
          · rw [List.mem_cons, ih, List.mem_cons, or_left_comm]
          · next hba =>
              obtain rfl := hb a b (by simpa using hab) (by simpa using hba)
              simp

theorem eq_of_textBefore (a b : String) (h : textBefore a b = false)
    (h' : textBefore b a = false) : a = b :=
  String.le_antisymm (of_decide_eq_false h') (of_decide_eq_false h)

end Sorted

def Imported.exportName (symbol : Imported) : String := if symbol.whole then "*" else symbol.imported

def Component.exportName (c : Component) : String :=
  match c.export with
  | .default => "default"
  | _ => c.name

namespace Bridge

namespace ModuleImports

theorem eq_of_pairBefore (a b : String × String) (h : pairBefore a b = false)
    (h' : pairBefore b a = false) : a = b := by
  simp only [pairBefore, Bool.or_eq_false_iff, Bool.and_eq_false_iff, beq_eq_false_iff_ne] at h h'
  have hfirst : a.1 = b.1 := Sorted.eq_of_textBefore _ _ h.1 h'.1
  have hsecond : a.2 = b.2 := Sorted.eq_of_textBefore _ _
    (h.2.resolve_left (absurd hfirst)) (h'.2.resolve_left (absurd hfirst.symm))
  exact Prod.ext hfirst hsecond

inductive Takes (m : ModuleImports) : String → String → Prop where
  | whole {name : String} : name ∈ m.wholes → m.Takes "*" name
  | default {name : String} : m.default = some name → m.Takes "default" name
  | named {exported name : String} : (name, exported) ∈ m.named → m.Takes exported name

variable {m : ModuleImports} {exported name : String}

theorem mem_addNamed {pair : String × String} :
    pair ∈ (m.addNamed name exported).named ↔ pair = (name, exported) ∨ pair ∈ m.named :=
  Sorted.mem_insert eq_of_pairBefore

theorem Takes.addNamed (h : m.Takes exported name) (other otherExport : String) :
    (m.addNamed other otherExport).Takes exported name := by
  cases h with
  | whole h => exact .whole h
  | default h => exact .default h
  | named h => exact .named (mem_addNamed.2 (.inr h))

theorem takes_addNamed (m : ModuleImports) (name exported : String) :
    (m.addNamed name exported).Takes exported name := .named (mem_addNamed.2 (.inl rfl))

theorem Takes.addDefault (h : m.Takes exported name) (other : String) :
    (m.addDefault other).Takes exported name := by
  unfold ModuleImports.addDefault
  split
  · split
    · exact h
    · exact h.addNamed other "default"
  · next hnone =>
      cases h with
      | whole h => exact .whole h
      | default h => exact absurd (hnone.symm.trans h) (by simp)
      | named h => exact .named h

theorem takes_addDefault (m : ModuleImports) (name : String) :
    (m.addDefault name).Takes "default" name := by
  unfold ModuleImports.addDefault
  split
  · next first hfirst =>
      split
      · next heq => exact .default (heq ▸ hfirst)
      · exact takes_addNamed m name "default"
  · exact .default rfl

theorem mem_addWhole {other : String} :
    other ∈ (m.addWhole name).wholes ↔ other = name ∨ other ∈ m.wholes :=
  Sorted.mem_insert Sorted.eq_of_textBefore

theorem Takes.add (h : m.Takes exported name) (other : String) (symbol : Imported) :
    (m.add other symbol).Takes exported name := by
  unfold ModuleImports.add
  split
  · cases h with
    | whole h => exact .whole (mem_addWhole.2 (.inr h))
    | default h => exact .default h
    | named h => exact .named h
  · split
    · exact h.addDefault other
    · exact h.addNamed other symbol.imported

theorem takes_add (m : ModuleImports) (name : String) (symbol : Imported) :
    (m.add name symbol).Takes symbol.exportName name := by
  unfold ModuleImports.add Imported.exportName
  split
  · exact .whole (mem_addWhole.2 (.inl rfl))
  · split
    · next hdefault =>
        rw [beq_iff_eq.1 hdefault]
        exact takes_addDefault m name
    · exact takes_addNamed m name symbol.imported

theorem Takes.addComponent (h : m.Takes exported name) (c : Component) :
    (m.addComponent c).Takes exported name := by
  unfold ModuleImports.addComponent
  split
  · exact h.addDefault c.name
  · exact h.addNamed c.name c.name
  · cases h with
    | whole h => exact .whole h
    | default h => exact .default h
    | named h => exact .named h

end ModuleImports

inductive Binds : String → String → String → String → Prop where
  | whole {module name : String} :
      Binds ("import * as " ++ name ++ " from " ++ ModuleImports.fromText module) module "*" name
  | default {module name : String} {m : ModuleImports} : m.default = some name →
      Binds ("import " ++ String.intercalate ", " m.clauses ++ " from "
        ++ ModuleImports.fromText module) module "default" name
  | named {module exported name : String} {m : ModuleImports} : (name, exported) ∈ m.named →
      Binds ("import " ++ String.intercalate ", " m.clauses ++ " from "
        ++ ModuleImports.fromText module) module exported name

theorem mem_intercalate {texts : List (List Char)} {text : List Char} (h : text ∈ texts) {c : Char}
    (hc : c ∈ text) (separator : List Char) : c ∈ separator.intercalate texts := by
  induction texts with
  | nil => exact absurd h List.not_mem_nil
  | cons first rest ih =>
      cases rest with
      | nil =>
          rw [List.intercalate_singleton]
          exact List.mem_singleton.1 h ▸ hc
      | cons next more =>
          rw [List.intercalate_cons_cons, List.mem_append, List.mem_append]
          rcases List.mem_cons.1 h with rfl | h
          · exact .inl (.inl hc)
          · exact .inr (ih h)

theorem Binds.mem_toList {line module exported name : String} (h : Binds line module exported name) :
    '*' ∈ line.toList ∨ '\x7b' ∈ line.toList ∨ ∀ c ∈ name.toList, c ∈ line.toList := by
  have clause {m : ModuleImports} {text : String} (ht : text ∈ m.clauses) {c : Char}
      (hc : c ∈ text.toList) : c ∈ ("import " ++ String.intercalate ", " m.clauses ++ " from "
        ++ ModuleImports.fromText module).toList := by
    have hmem := mem_intercalate (List.mem_map_of_mem ht) hc ", ".toList
    simp only [String.toList_append, String.toList_intercalate, List.mem_append]
    exact .inl (.inl (.inr hmem))
  cases h with
  | whole => exact .inl (by simp)
  | default h => exact .inr (.inr fun c hc => clause (by simp [ModuleImports.clauses, h]) hc)
  | @named _ _ _ m h =>
      have hsome : m.named.isEmpty = false := List.isEmpty_eq_false_iff.2 (List.ne_nil_of_mem h)
      have hnamed : "\x7b" ++ String.intercalate ", " (m.named.map ModuleImports.namedText)
          ++ "\x7d" ∈ m.clauses := by
        simp [ModuleImports.clauses, hsome]
      exact .inr (.inl (clause hnamed (by simp)))

theorem ModuleImports.Takes.binds {m : ModuleImports} {exported name : String}
    (h : m.Takes exported name) (module : String) :
    ∃ line ∈ m.lines module, Binds line module exported name := by
  have clause (hne : m.clauses ≠ []) : "import " ++ String.intercalate ", " m.clauses ++ " from "
      ++ ModuleImports.fromText module ∈ m.lines module := by
    unfold ModuleImports.lines
    refine List.mem_append_right _ ?_
    split
    · next hnil => exact absurd hnil hne
    · exact List.mem_singleton_self _
  cases h with
  | whole h => exact ⟨_, List.mem_append_left _ (List.mem_map_of_mem h), .whole⟩
  | default h => exact ⟨_, clause (by simp [ModuleImports.clauses, h]), .default h⟩
  | named h =>
      have hsome : m.named.isEmpty = false := by
        rw [List.isEmpty_eq_false_iff]
        exact List.ne_nil_of_mem h
      exact ⟨_, clause (by simp [ModuleImports.clauses, hsome]), .named h⟩

variable {module : String} {change : ModuleImports → ModuleImports}
  {modules : List (String × ModuleImports)}

theorem exists_mem_alterModule : ∃ m, (module, change m) ∈ alterModule module change modules := by
  induction modules with
  | nil => exact ⟨_, List.mem_cons_self⟩
  | cons entry rest ih =>
      obtain ⟨name, m⟩ := entry
      unfold alterModule
      split
      · next heq => exact ⟨m, heq ▸ List.mem_cons_self⟩
      · split
        · exact ⟨_, List.mem_cons_self⟩
        · obtain ⟨m', hm'⟩ := ih
          exact ⟨m', List.mem_cons_of_mem _ hm'⟩

theorem mem_alterModule {name : String} {m : ModuleImports} (h : (name, m) ∈ modules) :
    (name, m) ∈ alterModule module change modules ∨
      (name, change m) ∈ alterModule module change modules := by
  induction modules with
  | nil => exact absurd h List.not_mem_nil
  | cons entry rest ih =>
      obtain ⟨first, m'⟩ := entry
      unfold alterModule
      split
      · rcases List.mem_cons.1 h with heq | h
        · cases heq
          exact .inr List.mem_cons_self
        · exact .inl (List.mem_cons_of_mem _ h)
      · split
        · exact .inl (List.mem_cons_of_mem _ h)
        · rcases List.mem_cons.1 h with heq | h
          · exact .inl (heq ▸ List.mem_cons_self)
          · exact (ih h).imp (List.mem_cons_of_mem _) (List.mem_cons_of_mem _)

def Offers (modules : List (String × ModuleImports)) (module exported name : String) : Prop :=
  ∃ m, (module, m) ∈ modules ∧ m.Takes exported name

variable {exported name : String}

theorem Offers.alterModule (h : Offers modules module exported name)
    (hchange : ∀ m : ModuleImports, m.Takes exported name → (change m).Takes exported name)
    (other : String) : Offers (alterModule other change modules) module exported name := by
  obtain ⟨m, hm, htakes⟩ := h
  rcases @mem_alterModule other change _ _ _ hm with hm | hm
  · exact ⟨m, hm, htakes⟩
  · exact ⟨_, hm, hchange m htakes⟩

theorem offers_alterModule
    (hchange : ∀ m : ModuleImports, (change m).Takes exported name) :
    Offers (Bridge.alterModule module change modules) module exported name := by
  obtain ⟨m, hm⟩ := @exists_mem_alterModule module change modules
  exact ⟨_, hm, hchange m⟩

def takeImports (modules : List (String × ModuleImports)) (imports : ImportTable) :
    List (String × ModuleImports) :=
  imports.foldl (fun modules (name, symbol) =>
    Bridge.alterModule symbol.module (·.add name symbol) modules) modules

theorem Offers.takeImports (h : Offers modules module exported name) (imports : ImportTable) :
    Offers (takeImports modules imports) module exported name := by
  induction imports generalizing modules with
  | nil => exact h
  | cons entry rest ih =>
      exact ih (h.alterModule (fun _ htakes => htakes.add entry.1 entry.2) entry.2.module)

theorem offers_takeImports {imports : ImportTable} {symbol : Imported}
    (h : (name, symbol) ∈ imports) :
    Offers (Bridge.takeImports modules imports) symbol.module symbol.exportName name := by
  induction imports generalizing modules with
  | nil => exact absurd h List.not_mem_nil
  | cons entry rest ih =>
      rcases List.mem_cons.1 h with rfl | h
      · exact (offers_alterModule fun m => ModuleImports.takes_add m name symbol).takeImports rest
      · exact ih h

variable {s : Surface} {config : Config}

theorem binds_of_offers (h : Offers (moduleImports s config) module exported name) :
    ∃ line ∈ importLines s config, Binds line module exported name := by
  obtain ⟨m, hm, htakes⟩ := h
  obtain ⟨line, hline, hbinds⟩ := htakes.binds module
  exact ⟨line, List.mem_flatMap.2 ⟨_, hm, hline⟩, hbinds⟩

theorem binds_of_import {symbol : Imported} (h : (name, symbol) ∈ s.imports) :
    ∃ line ∈ importLines s config, Binds line symbol.module symbol.exportName name := by
  refine binds_of_offers (Offers.alterModule (offers_takeImports h) ?_ _)
  exact fun _ htakes => htakes.addComponent s.component

theorem binds_component (hc : s.component.isConstructed = true)
    (he : s.component.export ≠ .unexported) : ∃ line ∈ importLines s config,
      Binds line (config.componentModule s.fileName) s.component.exportName
        s.component.name := by
  refine binds_of_offers (offers_alterModule fun m => ?_)
  unfold ModuleImports.addComponent Component.exportName
  rw [hc]
  cases hkind : s.component.export with
  | named => exact m.takes_addNamed _ _
  | default => exact m.takes_addDefault _
  | unexported => exact absurd hkind he

end Bridge

end ElementBridge
