import ElementBridge.Proofs.OfSource
import ElementBridge.Proofs.WrittenSources

namespace ElementBridge.Surface

open ElementBridge.Tree

variable {config : Config} {disk : Disk} {file : SourceFile} {m : Module} {s : Surface}

/-- A surface with exactly the local types and imports that it reaches. `m` is its module; of the
imports in it that bind one name the last counts. -/
structure IsExact (s : Surface) (globals : List String) (m : Module) : Prop where
  typesOnce : s.referenced.Nodup
  types : ∀ name, name ∈ s.referenced ↔ Reached s globals name ∧
    ∃ meaning, s.resolve globals name = some meaning ∧ meaning.isType = true
  importsOnce : (s.imports.map Prod.fst).Nodup
  imports : ∀ root, root ∈ s.imports.map Prod.fst ↔
    ∃ name, Reached s globals name ∧ s.IsForeign globals name ∧ rootName name = root
  symbols : ∀ root symbol, (root, symbol) ∈ s.imports →
    m.symbols.reverse.lookup root = some symbol
  resolves : ∀ name, Reached s globals name → (s.resolve globals name).isSome
  members : ∀ member ∈ s.members, ∀ t ∈ member.types, s.missing? globals t = none
  constructor : ∀ p ∈ s.component.params, s.missing? globals p.type = none
  declarations : ∀ d, s.interface? d.name = some d → d.name ∈ s.referenced →
    ∀ t ∈ d.shape.types, s.missing? globals t = none

theorem missing?_eq_none {globals : List String} {t : TypeExpr}
    (h : ∀ name ∈ t.references, (s.resolve globals name).isSome) :
    s.missing? globals t = none := by
  refine List.find?_eq_none.2 fun name hn => ?_
  simpa [Option.isSome_iff_ne_none] using h name hn

theorem isExact_of_surface (hm : file.parse = .ok m) (hs : file.surface config disk = .ok s) :
    s.IsExact config.globalTypes m := by
  obtain ⟨o⟩ := origin_of_parse hm hs
  have run := o.progress
  have resolves {name : String} (hn : Reached s config.globalTypes name) :
      (s.resolve config.globalTypes name).isSome := (o.settled hn).1
  refine
    { typesOnce := run.unique
      types := fun name => ⟨fun hn => ?_, fun ⟨hn, meaning, hr, ht⟩ => ?_⟩
      importsOnce := run.importsUnique
      imports := fun root => ⟨fun hk => ?_, fun ⟨name, hn, hf, hroot⟩ => ?_⟩
      symbols := fun root symbol hk => ?_
      resolves := fun name => resolves
      members := fun member hmem t ht => missing?_eq_none fun name hn =>
        resolves (.member hmem ht hn)
      constructor := fun p hp => missing?_eq_none fun name hn => resolves (.constructor hp hn)
      declarations := fun d hd hr t ht => missing?_eq_none fun name hn =>
        resolves (.shape (o.reached hr) (resolve_interface.2 hd) ht hn) }
  · obtain ⟨-, htype⟩ := run.types name hn
    rw [← run.same.localMeaning, ← isType_resolve config.globalTypes] at htype
    exact ⟨o.reached hn, (Option.any_eq_true _ _).1 htype⟩
  · refine (o.settled hn).2 ?_
    rw [← isType_resolve config.globalTypes, hr]
    exact ht
  · obtain ⟨entry, hentry, rfl⟩ := List.mem_map.1 hk
    obtain ⟨-, name, hn, hf, hroot⟩ := run.imports entry.1 entry.2 hentry
    exact ⟨name, run.same.reached hn, run.same.isForeign.2 hf, hroot⟩
  · rw [← hroot]
    exact (isSome_resolve_iff_of_foreign hf).1 (resolves hn)
  · rw [← Collected.ofModule_imports o.collects]
    exact (run.imports _ _ hk).1

def cyclicSource : SourceFile where
  path := ⟨"a.ts"⟩
  text := "import*as N from'n';export class A extends B\x7bm(x:T|N.M)\x7b\x7d\x7d"
    ++ "enum L\x7b\x7dinterface T\x7bt?:T;k:K\x7denum K\x7b\x7d"

def smallConfig : Config := { Config.standard with hostElementBases := ["B"] }

theorem isExact_cyclicSource : ∃ m s, cyclicSource.parse = .ok m ∧
    cyclicSource.surface smallConfig ⟨[], []⟩ = .ok s ∧ s.referenced = ["T", "K"] ∧
    s.imports.map Prod.fst = ["N"] ∧ s.IsExact smallConfig.globalTypes m := by
  have held : (cyclicSource.surface smallConfig ⟨[], []⟩).toOption.map
      (fun s => (s.referenced, s.imports.map Prod.fst)) = some (["T", "K"], ["N"]) := by
    rw [SourceFile.surface, cyclicSource.parse_eq_elim (ofList_append rfl rfl)]
    decide +kernel
  obtain ⟨s, hs, hparts⟩ := map_toOption_eq_some.1 held
  obtain ⟨hr, hi⟩ := Prod.mk.inj hparts
  obtain ⟨m, ⟨o⟩⟩ := origin_of_ok hs
  exact ⟨m, s, o.parsed, hs, hr, hi, isExact_of_surface o.parsed hs⟩

end ElementBridge.Surface
