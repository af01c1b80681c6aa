import ElementBridge.Proofs.BoundImports

/-!
What an import table asks of each module. The order of the table counts for one thing only: which
of the names for a default export comes first.
-/

namespace ElementBridge

namespace Sorted

variable {α : Type} {before : α → α → Bool} {a b : List α}

theorem Ascends.nodup (ho : IsOrder before) (h : Ascends before a) : a.Nodup := by
  refine List.Pairwise.imp ?_ h
  rintro x _ hx rfl
  simp [ho.irrefl] at hx

theorem Ascends.ext (ho : IsOrder before) (ha : Ascends before a) (hb : Ascends before b)
    (hmem : ∀ x, x ∈ a ↔ x ∈ b) : a = b := by
  have hperm := (List.perm_ext_iff_of_nodup (ha.nodup ho) (hb.nodup ho)).2 hmem
  refine hperm.eq_of_pairwise (fun x y _ _ hxy hyx => ?_) ha hb
  simp [ho.asymm hxy] at hyx

end Sorted

namespace Bridge

def firstDefault? (module : String) (imports : ImportTable) : Option String :=
  (imports.find? fun entry =>
    entry.2.module == module && !entry.2.whole && entry.2.imported == "default").map Prod.fst

theorem firstDefault?_snoc (module : String) (imports : ImportTable) (entry : String × Imported) :
    firstDefault? module (imports ++ [entry]) = (firstDefault? module imports).or
      (if entry.2.module == module && !entry.2.whole && entry.2.imported == "default"
        then some entry.1 else none) := by
  rw [firstDefault?, List.find?_append, Option.map_or, List.find?_singleton]
  split <;> rfl

theorem firstDefault?_eq_none {module : String} {imports : ImportTable} :
    firstDefault? module imports = none ↔ ∀ name symbol, (name, symbol) ∈ imports →
      symbol.module = module → symbol.whole = false → symbol.imported ≠ "default" := by
  simp only [firstDefault?, Option.map_eq_none_iff, List.find?_eq_none, Bool.and_eq_true,
    beq_iff_eq, Bool.not_eq_true', not_and, Prod.forall, and_imp, ne_eq]

namespace ModuleImports

def Names (imports : ImportTable) (module name exported : String) : Prop :=
  ∃ symbol, (name, symbol) ∈ imports ∧ symbol.module = module ∧ symbol.whole = false ∧
    symbol.imported = exported

def NamesWhole (imports : ImportTable) (module name : String) : Prop :=
  ∃ symbol, (name, symbol) ∈ imports ∧ symbol.module = module ∧ symbol.whole = true

structure Gathers (module : String) (imports : ImportTable) (m : ModuleImports) : Prop where
  wholes : Sorted.Ascends Sorted.textBefore m.wholes
  named : Sorted.Ascends pairBefore m.named
  mem_wholes : ∀ name, name ∈ m.wholes ↔ NamesWhole imports module name
  default_eq : m.default = firstDefault? module imports
  mem_named : ∀ name exported, (name, exported) ∈ m.named ↔
    Names imports module name exported ∧ ¬ (exported = "default" ∧ m.default = some name)
  sideEffect : m.sideEffect = false

variable {module name exported : String} {imports other : ImportTable} {m n : ModuleImports}
  {entry : String × Imported}

theorem exists_mem_snoc {P : Imported → Prop} :
    (∃ symbol, (name, symbol) ∈ imports ++ [entry] ∧ P symbol) ↔
      (∃ symbol, (name, symbol) ∈ imports ∧ P symbol) ∨ (P entry.2 ∧ entry.1 = name) := by
  obtain ⟨key, found⟩ := entry
  simp only [List.mem_append, List.mem_singleton, Prod.mk.injEq]
  constructor
  · rintro ⟨symbol, h | ⟨rfl, rfl⟩, hsymbol⟩
    · exact .inl ⟨symbol, h, hsymbol⟩
    · exact .inr ⟨hsymbol, rfl⟩
  · rintro (⟨symbol, h, hsymbol⟩ | ⟨hsymbol, rfl⟩)
    · exact ⟨symbol, .inl h, hsymbol⟩
    · exact ⟨found, .inr ⟨rfl, rfl⟩, hsymbol⟩

theorem names_snoc : Names (imports ++ [entry]) module name exported ↔
    Names imports module name exported ∨ (entry.2.module = module ∧ entry.2.whole = false ∧
      entry.2.imported = exported ∧ entry.1 = name) := by
  simp only [Names, exists_mem_snoc, and_assoc]

theorem namesWhole_snoc : NamesWhole (imports ++ [entry]) module name ↔
    NamesWhole imports module name ∨
      (entry.2.module = module ∧ entry.2.whole = true ∧ entry.1 = name) := by
  simp only [NamesWhole, exists_mem_snoc, and_assoc]

theorem gathers_nil : Gathers module [] .empty where
  wholes := .nil
  named := .nil
  mem_wholes _ := by simp [NamesWhole, empty]
  default_eq := rfl
  mem_named _ _ := by simp [Names, empty]
  sideEffect := rfl

theorem Gathers.elsewhere (h : Gathers module imports m) (hmodule : entry.2.module ≠ module) :
    Gathers module (imports ++ [entry]) m where
  wholes := h.wholes
  named := h.named
  mem_wholes name := by simp [namesWhole_snoc, hmodule, h.mem_wholes]
  default_eq := by simp [firstDefault?_snoc, hmodule, h.default_eq]
  mem_named name exported := by simp [names_snoc, hmodule, h.mem_named]
  sideEffect := h.sideEffect

theorem Gathers.addWhole (h : Gathers module imports m) (hmodule : entry.2.module = module)
    (hwhole : entry.2.whole = true) :
    Gathers module (imports ++ [entry]) (m.addWhole entry.1) where
  wholes := h.wholes.insert Sorted.isOrder_textBefore _
  named := h.named
  mem_wholes name := by
    rw [mem_addWhole, namesWhole_snoc, h.mem_wholes]
    simp [hmodule, hwhole, or_comm, eq_comm]
  default_eq := by simp [ModuleImports.addWhole, firstDefault?_snoc, hwhole, h.default_eq]
  mem_named name exported := by simp [ModuleImports.addWhole, names_snoc, hwhole, h.mem_named]
  sideEffect := h.sideEffect

theorem Gathers.addNamed (h : Gathers module imports m) (hmodule : entry.2.module = module)
    (hwhole : entry.2.whole = false)
    (hfirst : entry.2.imported = "default" → ∃ first, m.default = some first ∧ first ≠ entry.1) :
    Gathers module (imports ++ [entry]) (m.addNamed entry.1 entry.2.imported) where
  wholes := h.wholes
  named := h.named.insert isOrder_pairBefore _
  mem_wholes name := by simp [ModuleImports.addNamed, namesWhole_snoc, hwhole, h.mem_wholes]
  default_eq := by
    change m.default = _
    rw [firstDefault?_snoc, ← h.default_eq]
    by_cases hdefault : entry.2.imported = "default"
    · obtain ⟨first, hfirst, -⟩ := hfirst hdefault
      rw [hfirst]
      rfl
    · simp [hdefault]
  mem_named name exported := by
    change _ ↔ _ ∧ ¬ (_ ∧ m.default = _)
    rw [mem_addNamed, names_snoc, h.mem_named, Prod.mk.injEq]
    constructor
    · rintro (⟨rfl, rfl⟩ | ⟨hlisted, hother⟩)
      · refine ⟨.inr ⟨hmodule, hwhole, rfl, rfl⟩, ?_⟩
        rintro ⟨hdefault, hsome⟩
        obtain ⟨first, hfirst, hne⟩ := hfirst hdefault
        exact hne (Option.some.inj (hfirst.symm.trans hsome))
      · exact ⟨.inl hlisted, hother⟩
    · rintro ⟨hlisted | ⟨-, -, rfl, rfl⟩, hother⟩
      · exact .inr ⟨hlisted, hother⟩
      · exact .inl ⟨rfl, rfl⟩
  sideEffect := h.sideEffect

theorem Gathers.setDefault (h : Gathers module imports m) (hmodule : entry.2.module = module)
    (hwhole : entry.2.whole = false) (hdefault : entry.2.imported = "default")
    (hfirst : ∀ first ∈ m.default, first = entry.1) :
    Gathers module (imports ++ [entry]) { m with default := some entry.1 } where
  wholes := h.wholes
  named := h.named
  mem_wholes name := by simp [namesWhole_snoc, hwhole, h.mem_wholes]
  default_eq := by
    rw [firstDefault?_snoc, ← h.default_eq]
    cases hm : m.default with
    | none => simp [hmodule, hwhole, hdefault]
    | some first => simp [hfirst first hm]
  mem_named name exported := by
    rw [names_snoc, h.mem_named]
    constructor
    · rintro ⟨hlisted, hother⟩
      refine ⟨.inl hlisted, fun ⟨hexported, hsome⟩ => ?_⟩
      cases hm : m.default with
      | none =>
          obtain ⟨symbol, hsymbol, hin, hpart, himported⟩ := hlisted
          have hnone := firstDefault?_eq_none.1 (h.default_eq.symm.trans hm)
          exact hnone name symbol hsymbol hin hpart (himported.trans hexported)
      | some first =>
          obtain rfl := hfirst first hm
          exact hother ⟨hexported, hm.trans hsome⟩
    · rintro ⟨hlisted | ⟨-, -, rfl, rfl⟩, hother⟩
      · refine ⟨hlisted, fun ⟨hexported, hsome⟩ => hother ⟨hexported, ?_⟩⟩
        rw [hfirst name hsome]
      · exact absurd ⟨hdefault, rfl⟩ hother
  sideEffect := h.sideEffect

theorem Gathers.add (h : Gathers module imports m) (hmodule : entry.2.module = module) :
    Gathers module (imports ++ [entry]) (m.add entry.1 entry.2) := by
  unfold ModuleImports.add
  split
  · next hwhole => exact h.addWhole hmodule hwhole
  · next hwhole =>
      have hwhole : entry.2.whole = false := by simpa using hwhole
      split
      · next hdefault =>
          have hdefault := beq_iff_eq.1 hdefault
          unfold addDefault
          split
          · next first hm =>
              split
              · next hsame =>
                  have hset := h.setDefault hmodule hwhole hdefault fun _ hfirst =>
                    (Option.some.inj (hm.symm.trans hfirst)).symm.trans hsame
                  rwa [← hsame, ← hm] at hset
              · next hne => exact hdefault ▸ h.addNamed hmodule hwhole fun _ => ⟨first, hm, hne⟩
          · next hm =>
              exact h.setDefault hmodule hwhole hdefault fun _ hfirst => by simp [hm] at hfirst
      · next hdefault => exact h.addNamed hmodule hwhole fun heq => by simp [heq] at hdefault

theorem Gathers.eq (h : Gathers module imports m) (h' : Gathers module other n)
    (hmem : ∀ entry, entry ∈ imports ↔ entry ∈ other)
    (hfirst : firstDefault? module imports = firstDefault? module other) : m = n := by
  have hdefault : m.default = n.default := by rw [h.default_eq, h'.default_eq, hfirst]
  have hwholes : m.wholes = n.wholes := by
    refine h.wholes.ext Sorted.isOrder_textBefore h'.wholes fun name => ?_
    simp only [h.mem_wholes, h'.mem_wholes, NamesWhole, hmem]
  have hnamed : m.named = n.named := by
    refine h.named.ext isOrder_pairBefore h'.named fun pair => ?_
    simp only [h.mem_named pair.1 pair.2, h'.mem_named pair.1 pair.2, Names, hmem, hdefault]
  have heffect : m.sideEffect = n.sideEffect := h.sideEffect.trans h'.sideEffect.symm
  cases m
  cases n
  simp_all

end ModuleImports

open ModuleImports

variable {module : String} {change : ModuleImports → ModuleImports} {imports other : ImportTable}
  {modules more : List (String × ModuleImports)}

theorem lookup_eq_none_of_not_mem {name : String} (h : name ∉ modules.map Prod.fst) :
    modules.lookup name = none := by
  rw [List.lookup_eq_none_iff]
  intro entry hentry
  simpa using fun heq : name = entry.1 => h (heq ▸ List.mem_map_of_mem hentry)

theorem lookup_of_mem (h : Ascends modules) {name : String} {m : ModuleImports}
    (hm : (name, m) ∈ modules) : modules.lookup name = some m := by
  have hname : name ∈ modules.map Prod.fst := List.mem_map_of_mem hm
  cases hfound : modules.lookup name with
  | none =>
      rw [List.lookup_eq_none_iff] at hfound
      exact absurd (hfound _ hm) (by simp)
  | some found => exact congrArg some (h.eq_of_mem (mem_of_lookup hfound) hm)

theorem lookup_alterModule (h : Ascends modules) (name : String) :
    (alterModule module change modules).lookup name = if name = module
      then some (change ((modules.lookup module).getD .empty)) else modules.lookup name := by
  induction modules with
  | nil =>
      by_cases hname : name = module
      · simp [alterModule, hname]
      · have hne : (name == module) = false := by simpa using hname
        simp [alterModule, List.lookup_cons, hne, hname]
  | cons entry rest ih =>
      obtain ⟨first, m⟩ := entry
      obtain ⟨hfirst, hrest⟩ := List.pairwise_cons.1 h
      unfold alterModule
      split
      · next heq =>
          subst heq
          by_cases hname : name = module
          · simp [hname]
          · have hne : (name == module) = false := by simpa using hname
            simp [List.lookup_cons, hne, hname]
      · next hne =>
          have hother : (module == first) = false := by simpa using hne
          split
          · next hbefore =>
              have habsent : rest.lookup module = none := by
                refine lookup_eq_none_of_not_mem fun hmem => ?_
                have hafter := Sorted.isOrder_textBefore.trans hbefore (hfirst module hmem)
                simp [Sorted.isOrder_textBefore.irrefl] at hafter
              by_cases hname : name = module
              · simp [hname, List.lookup_cons, hother, habsent]
              · have hne : (name == module) = false := by simpa using hname
                simp [List.lookup_cons, hne, hname]
          · simp only [List.lookup_cons, ih hrest, hother]
            by_cases hname : name = module
            · simp [hname, hother]
            · simp [hname]

theorem Ascends.eq_of_lookup (h : Ascends modules) (h' : Ascends more)
    (hlookup : ∀ name, modules.lookup name = more.lookup name) : modules = more := by
  have mem_of {a b : List (String × ModuleImports)} (hb : Ascends b)
      (hab : ∀ name, a.lookup name = b.lookup name) (ha : Ascends a) :
      ∀ entry ∈ a, entry ∈ b := fun entry hentry => by
    have hfound := lookup_of_mem ha hentry
    rw [hab] at hfound
    exact mem_of_lookup hfound
  have hnodup {a : List (String × ModuleImports)} (ha : Ascends a) : a.Nodup :=
    List.Nodup.of_map _ (Sorted.Ascends.nodup Sorted.isOrder_textBefore ha)
  have hperm : modules.Perm more := (List.perm_ext_iff_of_nodup (hnodup h) (hnodup h')).2
    fun entry => ⟨mem_of h' hlookup h entry, mem_of h (fun name => (hlookup name).symm) h' entry⟩
  have hpairs {a : List (String × ModuleImports)} (ha : Ascends a) :
      a.Pairwise fun x y => Sorted.textBefore x.1 y.1 = true := List.pairwise_map.1 ha
  refine hperm.eq_of_pairwise (fun x y _ _ hxy hyx => ?_) (hpairs h) (hpairs h')
  simp [Sorted.isOrder_textBefore.asymm hxy] at hyx

structure Gathered (imports : ImportTable) (modules : List (String × ModuleImports)) : Prop where
  ascends : Ascends modules
  gathers : ∀ module, Gathers module imports ((modules.lookup module).getD .empty)
  isSome : ∀ module, (modules.lookup module).isSome ↔ ∃ entry ∈ imports, entry.2.module = module

theorem gathered_nil : Gathered [] [] := ⟨.nil, fun _ => gathers_nil, fun _ => by simp⟩

theorem Gathered.add (h : Gathered imports modules) (entry : String × Imported) :
    Gathered (imports ++ [entry])
      (alterModule entry.2.module (·.add entry.1 entry.2) modules) := by
  refine ⟨h.ascends.alterModule, fun module => ?_, fun module => ?_⟩
  · rw [lookup_alterModule h.ascends]
    split
    · next heq =>
        subst heq
        exact (h.gathers _).add rfl
    · next hne => exact (h.gathers module).elsewhere (Ne.symm hne)
  · rw [lookup_alterModule h.ascends]
    split
    · next heq => simp [heq]
    · next hne => simp [h.isSome, Ne.symm hne]

theorem Gathered.takeImports (h : Gathered imports modules) (rest : ImportTable) :
    Gathered (imports ++ rest) (takeImports modules rest) := by
  induction rest generalizing imports modules with
  | nil => simpa [Bridge.takeImports] using h
  | cons entry rest ih =>
      rw [List.append_cons]
      exact ih (h.add entry)

theorem gathered_takeImports (imports : ImportTable) :
    Gathered imports (takeImports [] imports) := gathered_nil.takeImports imports

/-- Tables with the same members and the same first default names come to the same. -/
theorem takeImports_eq (hmem : ∀ entry, entry ∈ imports ↔ entry ∈ other)
    (hfirst : ∀ module, firstDefault? module imports = firstDefault? module other) :
    takeImports [] imports = takeImports [] other := by
  have h := gathered_takeImports imports
  have h' := gathered_takeImports other
  refine h.ascends.eq_of_lookup h'.ascends fun module => ?_
  have hsome : ((takeImports [] imports).lookup module).isSome
      ↔ ((takeImports [] other).lookup module).isSome := by
    simp only [h.isSome, h'.isSome, hmem]
  have hsame := (h.gathers module).eq (h'.gathers module) hmem (hfirst module)
  cases hleft : (takeImports [] imports).lookup module with
  | none =>
      cases hright : (takeImports [] other).lookup module with
      | none => rfl
      | some m => simp [hleft, hright] at hsome
  | some m =>
      cases hright : (takeImports [] other).lookup module with
      | none => simp [hleft, hright] at hsome
      | some n => simpa [hleft, hright] using hsame

end Bridge

end ElementBridge
