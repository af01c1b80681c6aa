import ElementBridge.Proofs.MethodRuns
import ElementBridge.Proofs.ParameterMarks
import ElementBridge.Proofs.WrittenSources

/-!
Whether the optional parameters of a list come last. Only a question mark makes a parameter
optional, and in a method with several signatures also that one of them does not reach so far.
-/

namespace ElementBridge

open ElementBridge.Tree Bridge

namespace Run

def Spares (r : Run) (i : Nat) : Prop :=
  ∃ s ∈ r.signatures, ∀ p : Param, s.params[i]? = some p → p.optional = true

/-- The parameters that can be left out come last: for several signatures those that one of them
does not need, else those with a mark. -/
def SparesLast (r : Run) : Prop :=
  (∀ m, r.signatures = [] → r.implementation = some m → MarksLast (m.params.map (·.optional))) ∧
    ∀ i j, i < j → (∃ s ∈ r.signatures, j < s.params.length) → r.Spares i → r.Spares j

variable {r : Run} {m : Member}

theorem marksLast_getElem {marks : List Bool} : MarksLast marks ↔
    ∀ (i j : Nat) (a b : Bool), i < j → marks[i]? = some a → marks[j]? = some b →
      a = true → b = true := by
  rw [MarksLast, List.pairwise_iff_getElem]
  constructor
  · intro h i j a b hij ha hb
    obtain ⟨hi, rfl⟩ := List.getElem?_eq_some_iff.1 ha
    obtain ⟨hj, rfl⟩ := List.getElem?_eq_some_iff.1 hb
    exact h i j hi hj hij
  · intro h i j hi hj hij
    exact h i j _ _ hij (List.getElem?_eq_getElem hi) (List.getElem?_eq_getElem hj)

theorem marksLast_member_iff (h : r.member? = some m) :
    MarksLast (m.params.map (·.optional)) ↔ r.SparesLast := by
  obtain ⟨- | ⟨first, rest⟩, implementation⟩ := r
  · obtain rfl : implementation = some m := h
    refine ⟨fun hlast => ⟨fun n _ hn => Option.some.inj hn ▸ hlast, ?_⟩, fun hlast => hlast.1 m rfl rfl⟩
    rintro i j - ⟨s, hs, -⟩
    cases hs
  obtain rfl := Option.some.inj h
  have hmark {i : Nat} {a : Bool} : (((Member.foldOverloads first rest implementation).params.map
      (·.optional))[i]? = some a) ↔ (∃ s ∈ first :: rest, i < s.params.length) ∧
        (a = true ↔ Spares ⟨first :: rest, implementation⟩ i) := by
    rw [List.getElem?_map, Option.map_eq_some_iff]
    constructor
    · rintro ⟨q, hq, rfl⟩
      have hreach := (List.getElem?_eq_some_iff.1 hq).1
      refine ⟨Member.lt_length_params_foldOverloads.1 hreach, ?_⟩
      rw [Member.param_foldOverloads hq]
      exact Member.optional_foldedParam
    · rintro ⟨⟨s, hs, hreach⟩, ha⟩
      refine ⟨_, Member.exists_param_foldOverloads hs hreach, ?_⟩
      rw [Bool.eq_iff_iff, ha]
      exact Member.optional_foldedParam
  rw [marksLast_getElem]
  constructor
  · refine fun hlast => ⟨fun n hn => absurd hn (List.cons_ne_nil first rest), ?_⟩
    rintro i j hij ⟨s, hs, hreach⟩ hspares
    have hfirst := (hmark (a := true)).2 ⟨⟨s, hs, Nat.lt_trans hij hreach⟩, iff_of_true rfl hspares⟩
    have hsecond := congrArg (Option.map (·.optional))
      (@Member.exists_param_foldOverloads _ _ implementation _ _ hs hreach)
    rw [← List.getElem?_map] at hsecond
    exact Member.optional_foldedParam.1 (hlast i j _ _ hij hfirst hsecond rfl)
  · rintro ⟨-, hspares⟩ i j a b hij ha hb hmarked
    obtain ⟨-, ha⟩ := hmark.1 ha
    obtain ⟨hreach, hb⟩ := hmark.1 hb
    exact hb.2 (hspares i j hij hreach (ha.1 hmarked))

theorem sparesLast_of_none (h : r.member? = none) : r.SparesLast := by
  obtain ⟨- | ⟨first, rest⟩, implementation⟩ := r
  · obtain rfl : implementation = none := h
    refine ⟨fun m _ hm => (nomatch hm), ?_⟩
    rintro i j - ⟨s, hs, -⟩
    cases hs
  · cases h

theorem sparesLast_of_declared (h : ∀ d ∈ r.declared, MarksLast (d.params.map (·.optional))) :
    r.SparesLast := by
  refine ⟨fun m _ hm => h m (by simp [declared, hm]), ?_⟩
  rintro i j hij - ⟨s, hs, hspares⟩
  refine ⟨s, hs, fun p hp => ?_⟩
  have hlast := marksLast_getElem.1 (h s (List.mem_append_right _ hs))
  have hinside : i < s.params.length := Nat.lt_trans hij (List.getElem?_eq_some_iff.1 hp).1
  have hfirst := List.getElem?_eq_getElem hinside
  refine hlast i j _ _ hij ?_ ?_ (hspares _ hfirst)
  · rw [List.getElem?_map, hfirst]
    rfl
  · rw [List.getElem?_map, hp]
    rfl

end Run

namespace Tree

/-- No parameter with a question mark stands in front of one that has neither a mark nor a
default. -/
def Parameters.MarksOrDefaultsLast (ps : Parameters TypeNode) : Prop :=
  ps.items.Pairwise fun p q => p.optional = true → q.optional = true ∨ q.hasDefault = true

/-- No parameter with a question mark stands in front of one that has a default alone. -/
def Parameters.DefaultsFirst (ps : Parameters TypeNode) : Prop :=
  ps.items.Pairwise fun p q => p.optional = true → q.hasDefault = true → q.optional = true

instance (ps : Parameters TypeNode) : Decidable ps.MarksOrDefaultsLast :=
  inferInstanceAs (Decidable (List.Pairwise _ _))

instance (ps : Parameters TypeNode) : Decidable ps.DefaultsFirst :=
  inferInstanceAs (Decidable (List.Pairwise _ _))

theorem Parameters.MarksOrDefaultsLast.marksLast_iff {ps : Parameters TypeNode}
    (h : ps.MarksOrDefaultsLast) : MarksLast (ps.items.map (·.optional)) ↔ ps.DefaultsFirst := by
  rw [MarksLast, List.pairwise_map]
  constructor
  · exact fun hlast => hlast.imp fun hmark hp _ => hmark hp
  · intro hfirst
    refine (h.and hfirst).imp ?_
    rintro p q ⟨hor, hdefault⟩ hp
    exact (hor hp).elim id (hdefault hp)

end Tree

namespace Candidate

variable {config : Config} {kind : Export} {node : ClassNode} {candidate : Candidate}

def constructorParameters (node : ClassNode) : List (Parameter TypeNode) :=
  (node.constructor?.map (·.params.items)).getD []

theorem marks_constructor (h : ofNode? config kind node = .ok (some candidate)) :
    candidate.component.params.map (·.optional)
      = (constructorParameters node).map (·.optional) := by
  have hwritten := written_of_constructor h
  unfold constructorParameters
  cases hconstructor : node.constructor? with
  | none =>
      rw [hconstructor] at hwritten
      rw [List.map_eq_nil_iff.1 hwritten]
      rfl
  | some m =>
      rw [hconstructor] at hwritten
      exact marks_of_written hwritten

theorem marksLast_methods_iff (h : ofNode? config kind node = .ok (some candidate)) :
    (∀ m ∈ candidate.members, m.kind = .method → MarksLast (m.params.map (·.optional)))
      ↔ ∀ r ∈ runs node.publicMethods, r.IsMethod → r.SparesLast := by
  constructor
  · intro hlast r hr hmethod
    cases hm : r.member? with
    | none => exact Run.sparesLast_of_none hm
    | some m =>
        obtain ⟨hmem, hkind⟩ := (mem_methods_iff h).2 ⟨r, hr, hmethod, hm⟩
        exact (Run.marksLast_member_iff hm).1 (hlast m hmem hkind)
  · intro hruns m hmem hkind
    obtain ⟨r, hr, hmethod, hm⟩ := (mem_methods_iff h).1 ⟨hmem, hkind⟩
    exact (Run.marksLast_member_iff hm).2 (hruns r hr hmethod)

theorem marksLast_of_defaultsFirst
    (hmarks : ∀ ps ∈ node.parameters, ps.MarksOrDefaultsLast)
    (hdefaults : ∀ ps ∈ node.parameters, ps.DefaultsFirst) :
    MarksLast ((constructorParameters node).map (·.optional)) ∧
      ∀ r ∈ runs node.publicMethods, r.IsMethod → r.SparesLast := by
  have hwritten {m : Method} (hm : .method m ∈ node.elements) :
      MarksLast (m.params.items.map (·.optional)) := by
    have hps := ClassNode.mem_parameters hm
    exact (hmarks _ hps).marksLast_iff.2 (hdefaults _ hps)
  constructor
  · unfold constructorParameters
    cases hconstructor : node.constructor? with
    | none => exact .nil
    | some m => exact hwritten (mem_elements_of_constructor hconstructor)
  · intro r hr _
    refine Run.sparesLast_of_declared fun d hd => ?_
    obtain ⟨hasBody, hpublic⟩ := of_mem_declared hr hd
    obtain ⟨m, hm, -, hparams⟩ := written_of_publicMethods hpublic
    rw [marks_of_written hparams]
    exact hwritten hm

end Candidate

namespace Surface

variable {config : Config} {disk : Disk} {file : SourceFile} {m : Module} {s : Surface}

/-- The tags of the creator have their marks last if and only if the constructor is written so, and
those of the class if and only if each method can do without all parameters behind one that it can
do without. If marks stand in front of nothing but marks and defaults, a default behind a mark is
all that can go wrong. -/
theorem lastMarked_of_surface (hm : file.parse = .ok m) (hs : file.surface config disk = .ok s) :
    ∃ kind node, m.hosts config = [(kind, node)] ∧
      (LastMarked (ofSurface config s).creator
        ↔ MarksLast ((Candidate.constructorParameters node).map (·.optional))) ∧
      (LastMarked (ofSurface config s).facade
        ↔ ∀ r ∈ runs node.publicMethods, r.IsMethod → r.SparesLast) ∧
      ((∀ ps ∈ node.parameters, ps.MarksOrDefaultsLast) →
        (∀ ps ∈ node.parameters, ps.DefaultsFirst) →
        LastMarked (ofSurface config s).creator ∧ LastMarked (ofSurface config s).facade) := by
  have hhas := has_of_surface TypeExpr.wellNamed_kept hs
  obtain ⟨hconstructor, hmembers⟩ := areNamed_of_surface hs
  obtain ⟨o⟩ := origin_of_parse hm hs
  obtain ⟨kind, node, hhost, hlowered, hsame⟩ := o.host
  have hcreator : LastMarked (ofSurface config s).creator
      ↔ MarksLast ((Candidate.constructorParameters node).map (·.optional)) := by
    have hparams : s.component.params = o.candidate.component.params := by
      rw [o.progress.same.component]
      rfl
    rw [← Candidate.marks_constructor hlowered, ← hparams]
    exact lastMarked_creatorFunction _ hhas.component hconstructor hhas.params
  have hfacade : LastMarked (ofSurface config s).facade
      ↔ ∀ r ∈ runs node.publicMethods, r.IsMethod → r.SparesLast := by
    rw [← Candidate.marksLast_methods_iff hlowered, ← hsame]
    exact lastMarked_facadeClass _ hhas.component hmembers fun m hm p hp => (hhas.members m hm).param hp
  refine ⟨kind, node, hhost, hcreator, hfacade, fun hmarks hdefaults => ?_⟩
  obtain ⟨hlast, hruns⟩ := Candidate.marksLast_of_defaultsFirst hmarks hdefaults
  exact ⟨hcreator.2 hlast, hfacade.2 hruns⟩

def spareSource : SourceFile where
  path := ⟨"a.ts"⟩
  text := "export class A extends HTMLElement\x7bconstructor(a=1,b?:string)\x7bsuper()\x7d"
    ++ "m(a:string):void;m(a:string,b:number,c?:string):void\x7d"

theorem lastMarked_spareSource : ∃ s, spareSource.surface .standard ⟨[], []⟩ = .ok s ∧
    LastMarked (ofSurface .standard s).creator ∧ LastMarked (ofSurface .standard s).facade ∧
    markLists (ofSurface .standard s).facade
      = [[], [], [], [false, true, true], [], [], []] := by
  have hread : (spareSource.surface .standard ⟨[], []⟩).toOption.map (fun s =>
      markLists (ofSurface .standard s).facade) = some [[], [], [], [false, true, true], [], [], []] := by
    rw [SourceFile.surface, spareSource.parse_eq_elim (ofList_append rfl rfl)]
    decide +kernel
  have hwritten : spareSource.parse.toOption.map (fun m => (m.hosts .standard).all fun c =>
      c.2.parameters.all fun ps => decide (ps.MarksOrDefaultsLast ∧ ps.DefaultsFirst))
      = some true := by
    rw [spareSource.parse_eq_elim (ofList_append rfl rfl)]
    decide +kernel
  obtain ⟨s, hs, hmarks⟩ := map_toOption_eq_some.1 hread
  obtain ⟨m, hm, hall⟩ := map_toOption_eq_some.1 hwritten
  obtain ⟨kind, node, hhost, -, -, hlast⟩ := lastMarked_of_surface hm hs
  rw [hhost] at hall
  have hparameters : ∀ ps ∈ node.parameters, ps.MarksOrDefaultsLast ∧ ps.DefaultsFirst := by
    simpa using hall
  obtain ⟨hcreator, hfacade⟩ :=
    hlast (fun ps hps => (hparameters ps hps).1) fun ps hps => (hparameters ps hps).2
  exact ⟨s, hs, hcreator, hfacade, hmarks⟩

def defaultSource : SourceFile where
  path := ⟨"a.ts"⟩
  text := "export class A extends HTMLElement\x7bm(a?:string,b=1)\x7b\x7d\x7d"

/-- The parameter with the default is not marked, though one in front of it is. -/
theorem not_lastMarked_defaultSource :
    defaultSource.parse.toOption.map (fun m => (m.hosts .standard).map fun c =>
      c.2.parameters.map fun ps => decide ps.MarksOrDefaultsLast) = some [[true]] ∧
    (defaultSource.surface .standard ⟨[], []⟩).toOption.map (fun s =>
      markLists (ofSurface .standard s).facade) = some [[], [], [], [true, false], [], [], []] ∧
    ¬ MarksLast [true, false] := by
  rw [SourceFile.surface, defaultSource.parse_eq_elim rfl]
  refine ⟨by decide +kernel, by decide +kernel, ?_⟩
  simp [MarksLast]

end Surface

end ElementBridge
