import ElementBridge.Proofs.MethodRuns
import ElementBridge.Proofs.ParameterLists
import ElementBridge.Proofs.WrittenSources
import Mathlib.Data.List.Nodup

/-!
Whether the parameters of a stub have different names. What several signatures are folded into takes
each name from the first declaration that is long enough, so names that differ in each declaration
may meet there.
-/

namespace ElementBridge

open ElementBridge.Tree

namespace Run

def arity (r : Run) : Nat := (r.signatures.map (·.params.length)).foldl max 0

/-- A declaration that is longer than all before it has a name there that one of these gives to an
earlier position. -/
def Repeats (r : Run) : Prop :=
  ∃ before m after, r.declared = before ++ m :: after ∧ ∃ (i j : Nat) (p q : Param),
    i < j ∧ j < r.arity ∧ (∀ d ∈ before, d.params.length ≤ j) ∧
      before.findSome? (·.params[i]?) = some p ∧ m.params[j]? = some q ∧ p.name = q.name

variable {r : Run} {m : Member} {i j : Nat}

theorem length_member (h : r.member? = some m) (hsignatures : r.signatures ≠ []) :
    m.params.length = r.arity := by
  obtain ⟨- | ⟨first, rest⟩, implementation⟩ := r
  · exact absurd rfl hsignatures
  · obtain rfl := Option.some.inj h
    simp [Member.foldOverloads, arity]

theorem name_member (h : r.member? = some m) (hsignatures : r.signatures ≠ [])
    (hi : i < r.arity) : (m.params[i]?).map (·.name)
      = (r.declared.findSome? (·.params[i]?)).map (·.name) := by
  have hlength := length_member h hsignatures
  obtain ⟨- | ⟨first, rest⟩, implementation⟩ := r
  · exact absurd rfl hsignatures
  · obtain rfl := Option.some.inj h
    rw [← hlength] at hi
    obtain ⟨s, hs, hreach⟩ := Member.lt_length_params_foldOverloads.1 hi
    have hname := @Member.name_foldedParam _ implementation i s hs hreach
    have hdeclared : (declared ⟨first :: rest, implementation⟩).findSome? (·.params[i]?)
        = (implementation.bind (·.params[i]?)).or ((first :: rest).findSome? (·.params[i]?)) := by
      rw [declared, List.findSome?_append]
      cases implementation with
      | none => rfl
      | some n => cases hn : n.params[i]? <;> simp [hn]
    rw [Member.exists_param_foldOverloads hs hreach, hdeclared]
    exact hname

theorem lt_arity_iff : i < r.arity ↔ ∃ s ∈ r.signatures, i < s.params.length := by
  simp [arity, Member.lt_foldl_max]

theorem nodup_member_iff (h : r.member? = some m)
    (hapart : ∀ d ∈ r.declared, (d.params.map (·.name)).Nodup) :
    (m.params.map (·.name)).Nodup ↔ ¬ r.Repeats := by
  by_cases hsignatures : r.signatures = []
  · obtain ⟨signatures, implementation⟩ := r
    obtain rfl : signatures = [] := hsignatures
    obtain rfl : implementation = some m := h
    refine iff_of_true (hapart m (by simp [declared])) ?_
    rintro ⟨before, d, after, -, i, j, p, q, -, hj, -⟩
    exact Nat.not_lt_zero j hj
  have hlength := length_member h hsignatures
  have hname {i : Nat} (hi : i < r.arity) := name_member h hsignatures hi
  constructor
  · rintro hnodup ⟨before, d, after, hdeclared, i, j, p, q, hij, hj, hbefore, hp, hq, hsame⟩
    have hnone : before.findSome? (·.params[j]?) = none := by
      refine List.findSome?_eq_none_iff.2 fun b hb => ?_
      exact List.getElem?_eq_none (hbefore b hb)
    have hfirst := hname (Nat.lt_trans hij hj)
    have hsecond := hname hj
    rw [hdeclared, List.findSome?_append, hp] at hfirst
    rw [hdeclared, List.findSome?_append, hnone, List.findSome?_cons, hq] at hsecond
    rw [List.nodup_iff_getElem?_ne_getElem?] at hnodup
    refine hnodup i j hij (by rwa [List.length_map, hlength]) ?_
    rw [List.getElem?_map, List.getElem?_map, hfirst, hsecond]
    exact congrArg some hsame
  · intro hrepeats
    rw [List.nodup_iff_getElem?_ne_getElem?]
    intro i j hij hj hsame
    rw [List.length_map, hlength] at hj
    obtain ⟨s, hs, hreach⟩ := lt_arity_iff.1 hj
    -- The first declaration that reaches the later position gives it its name.
    have hsome : (r.declared.findSome? (·.params[j]?)).isSome = true :=
      List.findSome?_isSome_iff.2 ⟨s, List.mem_append_right _ hs, by simpa using hreach⟩
    obtain ⟨q, hq⟩ := Option.isSome_iff_exists.1 hsome
    obtain ⟨before, d, after, hdeclared, hd, hbefore⟩ := List.findSome?_eq_some_iff.1 hq
    have hsecond := hname hj
    have hfirst := hname (Nat.lt_trans hij hj)
    rw [List.getElem?_map, List.getElem?_map, hfirst, hsecond, hq, hdeclared,
      List.findSome?_append] at hsame
    cases hp : before.findSome? (·.params[i]?) with
    | some p =>
        rw [hp] at hsame
        refine hrepeats ⟨before, d, after, hdeclared, i, j, p, q, hij, hj, ?_, hp, hd,
          Option.some.inj hsame⟩
        exact fun b hb => List.getElem?_eq_none_iff.1 (hbefore b hb)
    | none =>
        -- Both names are of one declaration.
        have hlong := (List.getElem?_eq_some_iff.1 hd).1
        have hinside : i < d.params.length := Nat.lt_trans hij hlong
        have hown := hapart d (by simp [hdeclared])
        rw [List.nodup_iff_getElem?_ne_getElem?] at hown
        refine hown i j hij (by rwa [List.length_map]) ?_
        rw [hp, List.findSome?_cons, List.getElem?_eq_getElem hinside] at hsame
        rw [List.getElem?_map, List.getElem?_map, List.getElem?_eq_getElem hinside, hd]
        exact hsame

theorem not_repeats_of_none (h : r.member? = none) : ¬ r.Repeats := by
  obtain ⟨- | ⟨first, rest⟩, implementation⟩ := r
  · rintro ⟨before, d, after, -, i, j, p, q, -, hj, -⟩
    exact Nat.not_lt_zero j hj
  · cases h

end Run

namespace Tree

def ClassNode.NamesApart (node : ClassNode) : Prop := ∀ ps ∈ node.parameters, ps.names.Nodup

theorem ClassNode.NamesApart.of_written {node : ClassNode} (h : node.NamesApart) {m : Method}
    (hm : .method m ∈ node.elements) {params : List Param}
    (hparams : params.map Param.written = m.params.written) : (params.map (·.name)).Nodup := by
  rw [names_of_written hparams]
  exact h _ (ClassNode.mem_parameters hm)

end Tree

namespace Candidate

variable {config : Config} {kind : Export} {node : ClassNode} {candidate : Candidate}

theorem nodup_constructor (h : ofNode? config kind node = .ok (some candidate))
    (hapart : node.NamesApart) : (candidate.component.params.map (·.name)).Nodup := by
  have hwritten := written_of_constructor h
  cases hconstructor : node.constructor? with
  | none =>
      rw [hconstructor] at hwritten
      rw [List.map_eq_nil_iff.1 hwritten]
      exact List.nodup_nil
  | some m =>
      rw [hconstructor] at hwritten
      exact hapart.of_written (mem_elements_of_constructor hconstructor) hwritten

theorem nodup_methods_iff (h : ofNode? config kind node = .ok (some candidate))
    (hapart : node.NamesApart) :
    (∀ m ∈ candidate.members, m.kind = .method → (m.params.map (·.name)).Nodup)
      ↔ ∀ r ∈ runs node.publicMethods, r.IsMethod → ¬ r.Repeats := by
  have hdeclared {r : Run} (hr : r ∈ runs node.publicMethods) :
      ∀ d ∈ r.declared, (d.params.map (·.name)).Nodup := by
    intro d hd
    obtain ⟨hasBody, hpublic⟩ := of_mem_declared hr hd
    obtain ⟨m, hm, -, hwritten⟩ := written_of_publicMethods hpublic
    exact hapart.of_written hm hwritten
  constructor
  · intro hnodup r hr hmethod
    cases hm : r.member? with
    | none => exact Run.not_repeats_of_none hm
    | some m =>
        obtain ⟨hmem, hkind⟩ := (mem_methods_iff h).2 ⟨r, hr, hmethod, hm⟩
        exact (Run.nodup_member_iff hm (hdeclared hr)).1 (hnodup m hmem hkind)
  · intro hruns m hmem hkind
    obtain ⟨r, hr, hmethod, hm⟩ := (mem_methods_iff h).1 ⟨hmem, hkind⟩
    exact (Run.nodup_member_iff hm (hdeclared hr)).2 (hruns r hr hmethod)

end Candidate

theorem Member.nodup_parameterLists_iff (m : Member) : (∀ names ∈ m.parameterLists, names.Nodup)
    ↔ (m.kind = .method → (m.params.map (·.name)).Nodup) := by
  unfold Member.parameterLists
  cases m.kind with
  | method => simp
  | property => cases m.readonly <;> simp
  | getter => simp
  | setter => simp

namespace Surface

open Bridge

variable {config : Config} {disk : Disk} {file : SourceFile} {m : Module} {s : Surface}

/-- Where no method, signature or constructor repeats a name of its own, neither does the creator,
and the stubs repeat none if and only if no signatures repeat one of each other. -/
theorem nodup_parameters (hm : file.parse = .ok m) (hs : file.surface config disk = .ok s) :
    ∃ kind node, m.hosts config = [(kind, node)] ∧ (node.NamesApart →
      (∀ names ∈ parameterLists (ofSurface config s).creator, names.Nodup) ∧
      ((∀ names ∈ parameterLists (ofSurface config s).facade, names.Nodup)
        ↔ ∀ r ∈ runs node.publicMethods, r.IsMethod → ¬ r.Repeats)) := by
  obtain ⟨hconstructor, hmembers⟩ := areNamed_of_surface hs
  obtain ⟨o⟩ := origin_of_parse hm hs
  obtain ⟨kind, node, hhost, hlowered, hsame⟩ := o.host
  refine ⟨kind, node, hhost, fun hapart => ⟨?_, ?_⟩⟩
  · change ∀ names ∈ parameterLists (creatorFunction s config.globalTypes), names.Nodup
    rw [parameterLists_creatorFunction s _ hconstructor]
    have hparams : s.component.params = o.candidate.component.params := by
      rw [o.progress.same.component]
      rfl
    rw [hparams]
    exact List.forall_mem_singleton.2 (Candidate.nodup_constructor hlowered hapart)
  · change (∀ names ∈ parameterLists (facadeClass s config.globalTypes), names.Nodup) ↔ _
    rw [parameterLists_facadeClass s _ hmembers, ← Candidate.nodup_methods_iff hlowered hapart,
      hsame]
    simp only [List.mem_flatMap, forall_exists_index, and_imp]
    rw [forall_comm]
    refine forall_congr' fun n => ?_
    rw [forall_comm]
    refine forall_congr' fun hn => ?_
    exact n.nodup_parameterLists_iff

def apartSource : SourceFile where
  path := ⟨"a.ts"⟩
  text := "export class A extends HTMLElement\x7bconstructor(a:string,b:number)\x7bsuper()\x7d"
    ++ "m(a:string):void;m(b:string,c:number):void;m(d)\x7b\x7dset g(a:string)\x7b\x7d\x7d"

theorem nodup_parameters_apartSource : ∃ s kind node,
    apartSource.surface .standard ⟨[], []⟩ = .ok s ∧
    (apartSource.parse.toOption.map fun m => m.hosts .standard) = some [(kind, node)] ∧
    node.NamesApart ∧
    parameterLists (ofSurface .standard s).facade = [["d", "c"], ["a"]] ∧
    (∀ names ∈ parameterLists (ofSurface .standard s).creator, names.Nodup) ∧
    ∀ r ∈ runs node.publicMethods, r.IsMethod → ¬ r.Repeats := by
  have hread : (apartSource.surface .standard ⟨[], []⟩).toOption.map (fun s =>
      parameterLists (ofSurface .standard s).facade) = some [["d", "c"], ["a"]] := by
    rw [SourceFile.surface, apartSource.parse_eq_elim (ofList_append rfl rfl)]
    decide +kernel
  have hnames : apartSource.parse.toOption.map (fun m =>
      (m.hosts .standard).map fun c => c.2.parameters.map (·.names))
      = some [[["a", "b"], ["a"], ["b", "c"], ["d"], ["a"]]] := by
    rw [apartSource.parse_eq_elim (ofList_append rfl rfl)]
    decide +kernel
  obtain ⟨s, hs, hfacade⟩ := map_toOption_eq_some.1 hread
  obtain ⟨m, hm, hlists⟩ := map_toOption_eq_some.1 hnames
  obtain ⟨kind, node, hhost, hall⟩ := nodup_parameters hm hs
  rw [hhost] at hlists
  have hapart : node.NamesApart := by
    obtain ⟨hnode, -⟩ := List.cons.inj hlists
    rw [ClassNode.NamesApart, ← List.forall_mem_map, show node.parameters.map (·.names) = _ from hnode]
    decide
  obtain ⟨hcreator, hiff⟩ := hall hapart
  refine ⟨s, kind, node, hs, map_toOption_eq_some.2 ⟨m, hm, hhost⟩, hapart, hfacade, hcreator, ?_⟩
  exact hiff.1 (by rw [hfacade]; decide)

def meetingSource : SourceFile where
  path := ⟨"a.ts"⟩
  text := "export class A extends HTMLElement\x7bm(a:string):void;m(b:string,a:number):void\x7d"

/-- No signature repeats a name, but the stub does. -/
theorem not_nodup_meetingSource :
    meetingSource.parse.toOption.map (fun m => (m.hosts .standard).map fun c => c.2.parameters.map (·.names))
      = some [[["a"], ["b", "a"]]] ∧
    (meetingSource.surface .standard ⟨[], []⟩).toOption.map (fun s =>
      parameterLists (ofSurface .standard s).facade) = some [["a", "a"]] ∧
    ¬ ["a", "a"].Nodup := by
  rw [SourceFile.surface, meetingSource.parse_eq_elim rfl]
  decide +kernel

end Surface

end ElementBridge
