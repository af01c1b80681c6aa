import ElementBridge.Proofs.SurfaceFailures
import ElementBridge.Proofs.UnusableFiles
import ElementBridge.Proofs.WrittenSources

/-!
Runs that know less of the modules: they fail at most where a symbol is withheld, and otherwise end
the same. So a file that is no module, unlike a missing one, refuses the names imported from it.
-/

namespace ElementBridge

open ElementBridge.Tree

/-- A symbol is no module as a whole, and its module is known not to export it. -/
def ModuleGraph.Refuses (g : ModuleGraph) (symbol : Imported) : Prop :=
  symbol.whole = false ∧
    ∃ names, g.exports? symbol.module = some names ∧ symbol.imported ∉ names

namespace Setting

variable {e : Setting} {g : ModuleGraph} {s t : Surface} {m : Mention} {ms found : List Mention}

theorem imports_subset_of_visit (h : e.visit s m = .ok (t, found)) : s.imports ⊆ t.imports := by
  obtain ⟨-, u, ha, ht⟩ := visit_ok h
  rw [ht.imports]
  cases ha with
  | known _ => exact List.Subset.refl _
  | imported _ _ _ _ => exact List.subset_append_left _ _

theorem imports_subset_of_reach {n : Nat} (h : e.reach n ms s = .ok t) :
    s.imports ⊆ t.imports := by
  induction n generalizing ms s with
  | zero =>
      cases ms <;>
        · obtain rfl := Except.ok.inj h
          exact List.Subset.refl _
  | succ n ih =>
      cases ms with
      | nil =>
          obtain rfl := Except.ok.inj h
          exact List.Subset.refl _
      | cons m rest =>
          rw [Setting.reach, bind_eq_ok] at h
          obtain ⟨⟨u, found⟩, hv, h⟩ := h
          exact List.Subset.trans (imports_subset_of_visit hv) (ih h)

/-- The symbol that a name is imported as is refused, though not by the other modules. -/
structure Withholds (e : Setting) (g : ModuleGraph) (name : String) (symbol : Imported) : Prop where
  bound : e.imports.lookup (rootName name) = some symbol
  refused : e.graph.Refuses symbol
  allowed : ¬ g.Refuses symbol

theorem isExported_iff (e : Setting) (symbol : Imported) :
    e.isExported symbol = true ↔ ¬ e.graph.Refuses symbol := by
  rw [ModuleGraph.Refuses, ← isExported_eq_false, Bool.not_eq_false]

section

variable (hle : ∀ symbol, g.Refuses symbol → e.graph.Refuses symbol)
include hle

theorem takeImport_regraph :
    e.takeImport s m = { e with graph := g }.takeImport s m ∨
      s.resolve e.globals m.name = none ∧ e.takeImport s m = .error (e.unresolved m) ∧
        ∃ symbol, e.Withholds g m.name symbol := by
  unfold takeImport
  cases hresolve : s.resolve e.globals m.name with
  | some meaning => exact .inl rfl
  | none =>
      cases hlookup : e.imports.lookup (rootName m.name) with
      | none => exact .inl rfl
      | some symbol =>
          by_cases hg : g.Refuses symbol
          · have he : e.isExported symbol = false := isExported_eq_false.2 (hle symbol hg)
            have he' : { e with graph := g }.isExported symbol = false :=
              isExported_eq_false.2 hg
            exact .inl (by simp only [he, he']; rfl)
          · have he' : { e with graph := g }.isExported symbol = true :=
              (isExported_iff { e with graph := g } symbol).2 hg
            by_cases he : e.graph.Refuses symbol
            · have hrefused : e.isExported symbol = false := isExported_eq_false.2 he
              exact .inr ⟨rfl, by simp [hrefused], symbol, hlookup, he, hg⟩
            · have hallowed : e.isExported symbol = true := (isExported_iff e symbol).2 he
              exact .inl (by simp only [hallowed, he', if_true])

/-- What knows less takes in the same, or stops at a symbol that the other takes in. -/
theorem visit_regraph :
    e.visit s m = { e with graph := g }.visit s m ∨
      e.visit s m = .error (e.unresolved m) ∧ ∃ symbol, e.Withholds g m.name symbol ∧
        ∀ t found, { e with graph := g }.visit s m = .ok (t, found) →
          (rootName m.name, symbol) ∈ t.imports := by
  cases ho : e.obstacles.lookup (rootName m.name) with
  | some o =>
      left
      simp [visit, ho, bind, Except.bind, unsupported]
  | none =>
      rcases takeImport_regraph hle with heq | ⟨hresolve, herror, symbol, hsymbol⟩
      · left
        unfold visit
        rw [heq]
        rfl
      · refine .inr ⟨by simp [visit, ho, herror, bind, Except.bind], symbol, hsymbol, ?_⟩
        intro t found h
        obtain ⟨-, u, ha, ht⟩ := visit_ok h
        rw [ht.imports]
        cases ha with
        | known hknown => rw [hresolve] at hknown; cases hknown
        | imported _ _ hlookup _ =>
            obtain rfl := Option.some.inj (hsymbol.bound.symm.trans hlookup)
            exact List.mem_append_right _ List.mem_cons_self

theorem reach_regraph (n : Nat) (ms : List Mention) (s : Surface) :
    e.reach n ms s = { e with graph := g }.reach n ms s ∨
      ∃ m symbol, e.reach n ms s = .error (e.unresolved m) ∧ e.Withholds g m.name symbol ∧
        ∀ t, { e with graph := g }.reach n ms s = .ok t →
          (rootName m.name, symbol) ∈ t.imports := by
  induction n generalizing ms s with
  | zero => cases ms <;> exact .inl rfl
  | succ n ih =>
      cases ms with
      | nil => exact .inl rfl
      | cons m rest =>
          rw [Setting.reach, Setting.reach]
          rcases visit_regraph hle with heq | ⟨herror, symbol, hsymbol, hmem⟩
          · rw [← heq]
            cases hv : e.visit s m with
            | error f => exact .inl rfl
            | ok next => exact ih _ _
          · refine .inr ⟨m, symbol, by rw [herror]; rfl, hsymbol, fun t ht => ?_⟩
            obtain ⟨⟨u, found⟩, hv, ht⟩ := bind_eq_ok.1 ht
            exact imports_subset_of_reach ht (hmem u found hv)

end

end Setting

namespace Surface

variable {config : Config} {disk : Disk} {l : Location} {file : SourceFile} {tree : Module}
  {g g' : ModuleGraph}

/-- Two runs end the same, or the first stops at a name of which the other takes in a symbol that
`P` holds of. -/
def PartAt (P : Imported → Prop) (file : SourceFile) (x y : Except Failure Surface) : Prop :=
  x = y ∨ ∃ (m : Mention) (symbol : Imported), P symbol ∧
    x = .error (.unresolved file.name m.name m.origin) ∧
    ∀ s, y = .ok s → (rootName m.name, symbol) ∈ s.imports

theorem ofModule_regraph (config : Config) (file : SourceFile) (tree : Module)
    (hle : ∀ symbol, g'.Refuses symbol → g.Refuses symbol) :
    PartAt (fun symbol => g.Refuses symbol ∧ ¬ g'.Refuses symbol) file
      (ofModule config file g tree) (ofModule config file g' tree) := by
  unfold ofModule
  cases hc : (Collected.ofModule config tree).mapError (refused file.name) with
  | error f => exact .inl rfl
  | ok c =>
      change PartAt _ file (ofCollected config file g c) (ofCollected config file g' c)
      unfold ofCollected
      split
      · next candidate hsingle =>
          let s := start file c candidate
          rcases Setting.reach_regraph (e := setting config file g c) hle s.mentionBound s.mentions
            s with heq | ⟨m, symbol, herror, hsymbol, hmem⟩
          · exact .inl (congrArg (· >>= checkReachable file) heq)
          · refine .inr ⟨m, symbol, ⟨hsymbol.refused, hsymbol.allowed⟩, ?_, fun t ht => ?_⟩
            · exact congrArg (· >>= checkReachable file) herror
            · obtain ⟨u, hu, ht⟩ := bind_eq_ok.1 ht
              obtain ⟨rfl, -⟩ := checkReachable_ok ht
              exact hmem _ hu
      · exact .inl rfl

theorem Origin.not_refuses {s : Surface} (o : Origin config disk file tree s) {name : String}
    {symbol : Imported} (h : (name, symbol) ∈ s.imports) :
    ¬ (ModuleGraph.load disk file tree).Refuses symbol := by
  obtain ⟨other, hother, hexported⟩ := o.checked.imports name (List.mem_map_of_mem h)
  obtain rfl := Option.some.inj (hother.symm.trans (o.progress.imports name symbol h).1)
  exact (Setting.isExported_iff _ _).1 hexported

/-- What a file that is no module makes of a source, against the disk without the file: it counts
as a module that exports nothing. So the two runs part just where a name is taken from it. -/
structure ReadsUnusable (config : Config) (disk : Disk) (l : Location) (file : SourceFile)
    (tree : Module) : Prop where
  exports : ∀ specifier, ModuleGraph.LeadsTo disk l file tree specifier →
    (ModuleGraph.load disk file tree).exports? specifier = some [] ∧
      (ModuleGraph.load (disk.without l) file tree).exports? specifier = none
  others : ∀ specifier, ¬ ModuleGraph.LeadsTo disk l file tree specifier →
    (ModuleGraph.load (disk.without l) file tree).exports? specifier
      = (ModuleGraph.load disk file tree).exports? specifier
  part : PartAt (fun symbol => symbol.whole = false ∧
    ModuleGraph.LeadsTo disk l file tree symbol.module) file
      (file.surface config disk) (file.surface config (disk.without l))
  ok_iff : ∀ s, file.surface config disk = .ok s ↔
    file.surface config (disk.without l) = .ok s ∧ ∀ name symbol, (name, symbol) ∈ s.imports →
      symbol.whole = false → ¬ ModuleGraph.LeadsTo disk l file tree symbol.module

theorem readsUnusable_of_parse (config : Config) (hm : file.parse = .ok tree)
    (h : disk.Unusable l) (hsole : disk.IsSoleFor l file.directory tree.exportScan.followed) :
    ReadsUnusable config disk l file tree := by
  have hexports (specifier : String) (hl : ModuleGraph.LeadsTo disk l file tree specifier) :=
    ModuleGraph.exports?_of_leadsTo h hsole hl
  have hothers (specifier : String) (hl : ¬ ModuleGraph.LeadsTo disk l file tree specifier) :=
    ModuleGraph.exports?_of_not_leadsTo h hsole hl
  have hrefused (symbol : Imported) : (ModuleGraph.load disk file tree).Refuses symbol ↔
      (ModuleGraph.load (disk.without l) file tree).Refuses symbol ∨
        symbol.whole = false ∧ ModuleGraph.LeadsTo disk l file tree symbol.module := by
    unfold ModuleGraph.Refuses
    by_cases hl : ModuleGraph.LeadsTo disk l file tree symbol.module
    · simp [hexports _ hl, hl]
    · simp [hothers _ hl, hl]
  have hpart : PartAt (fun symbol => symbol.whole = false ∧
      ModuleGraph.LeadsTo disk l file tree symbol.module) file
        (file.surface config disk) (file.surface config (disk.without l)) := by
    rw [surface_eq_ofModule hm, surface_eq_ofModule hm]
    refine (ofModule_regraph config file tree fun symbol hrefuses =>
      (hrefused symbol).2 (.inl hrefuses)).imp_right ?_
    rintro ⟨m, symbol, ⟨hrefuses, hallowed⟩, hrest⟩
    exact ⟨m, symbol, ((hrefused symbol).1 hrefuses).resolve_left hallowed, hrest⟩
  refine ⟨hexports, hothers, hpart, fun s => ⟨fun hs => ⟨?_, ?_⟩, ?_⟩⟩
  · rcases hpart with heq | ⟨m, symbol, -, herror, -⟩
    · rw [← heq, hs]
    · rw [hs] at herror
      cases herror
  · intro name symbol hmem hwhole hl
    obtain ⟨o⟩ := origin_of_parse hm hs
    exact o.not_refuses hmem ((hrefused symbol).2 (.inr ⟨hwhole, hl⟩))
  · rintro ⟨hs, himports⟩
    rcases hpart with heq | ⟨m, symbol, ⟨hwhole, hl⟩, -, hmem⟩
    · rw [heq, hs]
    · exact absurd hl (himports _ symbol (hmem s hs) hwhole)

theorem isSoleFor_of_files (h : disk.files = [l]) (dir : Path) (specifiers : List String) :
    disk.IsSoleFor l dir specifiers := by
  intro start specifier _ p _ _ c _ hfile
  have hmem := Disk.place_mem_files hfile
  rw [h] at hmem
  exact List.mem_singleton.1 hmem

def unparsedEntry : SourceFile where
  path := ⟨"a.ts"⟩
  text := "import type \x7bX\x7d from './p.js';"
    ++ "export class A extends HTMLElement\x7bm(x:X)\x7b\x7d\x7d"

def unparsedDisk : Disk := ⟨[], [(["p.ts"], .file "interface \x7b".toUTF8)]⟩

theorem unusable_unparsedDisk : unparsedDisk.Unusable ["p.ts"] :=
  ⟨_, rfl, Option.isNone_iff_eq_none.1 (by decide +kernel)⟩

theorem isSoleFor_unparsedDisk (dir : Path) (specifiers : List String) :
    unparsedDisk.IsSoleFor ["p.ts"] dir specifiers :=
  isSoleFor_of_files (by decide +kernel) dir specifiers

theorem parse_unparsedEntry : ∃ tree, unparsedEntry.parse = .ok tree ∧
    tree.exportScan.followed = ["./p.js"] := by
  have held : unparsedEntry.parse.toOption.map (·.exportScan.followed) = some ["./p.js"] := by
    rw [unparsedEntry.parse_eq_elim (ofList_append rfl rfl)]
    decide +kernel
  exact map_toOption_eq_some.1 held

theorem readsUnusable_unparsedEntry : ∃ tree, unparsedEntry.parse = .ok tree ∧
    unparsedDisk.Unusable ["p.ts"] ∧
    unparsedDisk.IsSoleFor ["p.ts"] unparsedEntry.directory tree.exportScan.followed ∧
    ReadsUnusable .standard unparsedDisk ["p.ts"] unparsedEntry tree := by
  obtain ⟨tree, htree, -⟩ := parse_unparsedEntry
  have hsole := isSoleFor_unparsedDisk unparsedEntry.directory tree.exportScan.followed
  exact ⟨tree, htree, unusable_unparsedDisk, hsole,
    readsUnusable_of_parse .standard htree unusable_unparsedDisk hsole⟩

/-- The name is refused where the file cannot be parsed, and accepted where there is none. -/
theorem not_same_unparsedEntry : ∃ tree, unparsedEntry.parse = .ok tree ∧
    unparsedDisk.Unusable ["p.ts"] ∧
    unparsedDisk.IsSoleFor ["p.ts"] unparsedEntry.directory tree.exportScan.followed ∧
    ModuleGraph.LeadsTo unparsedDisk ["p.ts"] unparsedEntry tree "./p.js" ∧
    (ModuleGraph.load unparsedDisk unparsedEntry tree).exports? "./p.js" = some [] ∧
    unparsedEntry.surface .standard unparsedDisk = .error (.unresolved "a.ts" "X" "m") ∧
    ∃ s, unparsedEntry.surface .standard (unparsedDisk.without ["p.ts"]) = .ok s ∧
      s.imports = [("X", ⟨"./p.js", "X", false⟩)] := by
  obtain ⟨tree, htree, hfollowed⟩ := parse_unparsedEntry
  have hsole := isSoleFor_unparsedDisk unparsedEntry.directory tree.exportScan.followed
  have hleads : ModuleGraph.LeadsTo unparsedDisk ["p.ts"] unparsedEntry tree "./p.js" := by
    refine ⟨by simp [hfollowed], ⟨"./p.ts"⟩, by decide +kernel, by decide +kernel⟩
  have hstops : failureOf (unparsedEntry.surface .standard unparsedDisk)
      = some (.unresolved "a.ts" "X" "m") := by
    rw [SourceFile.surface, unparsedEntry.parse_eq_elim (ofList_append rfl rfl)]
    decide +kernel
  have hruns : (unparsedEntry.surface .standard (unparsedDisk.without ["p.ts"])).toOption.map
      (·.imports) = some [("X", ⟨"./p.js", "X", false⟩)] := by
    rw [SourceFile.surface, unparsedEntry.parse_eq_elim (ofList_append rfl rfl)]
    decide +kernel
  obtain ⟨s, hs, himports⟩ := Option.map_eq_some_iff.1 hruns
  exact ⟨tree, htree, unusable_unparsedDisk, hsole, hleads,
    (ModuleGraph.exports?_of_leadsTo unusable_unparsedDisk hsole hleads).1,
    failureOf_eq_some.1 hstops, s, eq_ok_of_toOption hs, himports⟩

end Surface

end ElementBridge
