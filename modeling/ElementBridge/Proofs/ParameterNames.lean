import ElementBridge.Proofs.OfferedMembers
import ElementBridge.Proofs.OverloadedMethods

namespace ElementBridge

open ElementBridge.Tree

def AreNamed (params : List Param) : Prop := ∀ p ∈ params, Text.isIdentifier p.name = true

theorem areNamed_nil : AreNamed [] := fun _ h => absurd h List.not_mem_nil

namespace TypeExpr

theorem areNamed_ofParameters {node : Parameters TypeNode} {params : List Param}
    (h : ofParameters node = .ok params) : AreNamed params := by
  replace h := forall₂_ofParameters h
  generalize node.items = items at h
  induction h with
  | nil => exact areNamed_nil
  | cons hq _ ih =>
      obtain ⟨id, _, -, -, rfl⟩ := ofParameter_eq_ok.1 hq
      exact List.forall_mem_cons.2 ⟨id.word.isIdentifier, ih⟩

end TypeExpr

namespace Member

variable {first : Member} {rest : List Member} {implementation : Option Member}

theorem areNamed_foldOverloads (h : ∀ m ∈ first :: rest, AreNamed m.params)
    (himplementation : ∀ m ∈ implementation, AreNamed m.params) :
    AreNamed (foldOverloads first rest implementation).params := by
  intro q hq
  obtain ⟨i, hi⟩ := List.mem_iff_getElem?.1 hq
  obtain ⟨s, hs, hlength⟩ := lt_length_params_foldOverloads.1 (List.getElem?_eq_some_iff.1 hi).1
  have hname := @name_foldedParam _ implementation i s hs hlength
  rw [← param_foldOverloads hi] at hname
  obtain ⟨p, hp, hpname⟩ := Option.map_eq_some_iff.1 hname.symm
  rw [← hpname]
  rcases Option.or_eq_some_iff.1 hp with hp | ⟨-, hp⟩
  · obtain ⟨m, hm, hp⟩ := Option.bind_eq_some_iff.1 hp
    exact himplementation m hm p (List.mem_of_getElem? hp)
  · obtain ⟨m, hm, hp⟩ := List.exists_of_findSome?_eq_some hp
    exact h m hm p (List.mem_of_getElem? hp)

end Member

namespace Candidate

namespace Part

def params : Part → List Param
  | .construct params properties => params ++ properties.flatMap (·.params)
  | .method m _ | .field m => m.params

theorem areNamed_ofElement? {e : ClassElement} {part : Part}
    (h : ofElement? e = .ok (some part)) : AreNamed part.params := by
  cases e with
  | method m =>
      by_cases hkind : m.kind = .construct
      · simp only [ofElement?, hkind, if_true, ofConstructor?] at h
        split at h
        · cases h
        · simp only [bind_eq_ok, mapError_eq_ok, pure_eq_ok, Option.some.injEq] at h
          obtain ⟨params, hparams, rfl⟩ := h
          refine List.forall_mem_append.2 ⟨TypeExpr.areNamed_ofParameters hparams, ?_⟩
          intro p hp
          obtain ⟨property, hproperty, hp⟩ := List.mem_flatMap.1 hp
          obtain ⟨⟨item, q⟩, -, hproperty⟩ := List.mem_filterMap.1 hproperty
          obtain ⟨visibility, -, rfl⟩ := Option.map_eq_some_iff.1 hproperty
          exact absurd hp List.not_mem_nil
      · simp only [ofElement?, hkind, if_false, bind_eq_ok, pure_eq_ok] at h
        obtain ⟨found, hfound, hpart⟩ := h
        obtain ⟨member, rfl, rfl⟩ := Option.map_eq_some_iff.1 hpart
        unfold lowerMethod at hfound
        split at hfound
        · cases hfound
        · simp only [bind_eq_ok, mapError_eq_ok, pure_eq_ok, Option.some.injEq] at hfound
          obtain ⟨params, hparams, result, -, rfl⟩ := hfound
          exact TypeExpr.areNamed_ofParameters hparams
  | property p =>
      simp only [ofElement?, bind_eq_ok, pure_eq_ok] at h
      obtain ⟨found, hfound, hpart⟩ := h
      obtain ⟨member, rfl, rfl⟩ := Option.map_eq_some_iff.1 hpart
      unfold lowerProperty at hfound
      split at hfound
      · cases hfound
      · simp only [bind_eq_ok, mapError_eq_ok, pure_eq_ok, Option.some.injEq] at hfound
        obtain ⟨type, -, rfl⟩ := hfound
        exact areNamed_nil
  | _ => cases h

end Part

namespace Draft

structure IsNamed (d : Draft) : Prop where
  params : AreNamed (d.constructorParams.getD [])
  members : ∀ m ∈ d.members, AreNamed m.params
  signatures : ∀ m ∈ d.signatures, AreNamed m.params

variable {d : Draft} {m : Member} {hasBody : Bool}

theorem isNamed_empty : empty.IsNamed :=
  ⟨areNamed_nil, fun _ h => absurd h List.not_mem_nil, fun _ h => absurd h List.not_mem_nil⟩

theorem IsNamed.close (h : d.IsNamed) (implementation : Option Member)
    (himplementation : ∀ m ∈ implementation, AreNamed m.params) :
    (d.close implementation).IsNamed := by
  cases hs : d.signatures with
  | nil => simpa [Draft.close, hs] using h
  | cons first rest =>
      rw [close_of_cons hs]
      have hfolded := Member.areNamed_foldOverloads (hs ▸ h.signatures) himplementation
      exact ⟨h.params, List.forall_mem_append.2 ⟨h.members, List.forall_mem_singleton.2 hfolded⟩,
        fun _ h => absurd h List.not_mem_nil⟩

theorem IsNamed.addMethod (h : d.IsNamed) (hm : AreNamed m.params) :
    (d.addMethod m hasBody).IsNamed := by
  have snoc {members : List Member} (h : ∀ n ∈ members, AreNamed n.params) :
      ∀ n ∈ members ++ [m], AreNamed n.params :=
    List.forall_mem_append.2 ⟨h, List.forall_mem_singleton.2 hm⟩
  have hnone : ∀ n ∈ (none : Option Member), AreNamed n.params := fun _ h => by cases h
  unfold Draft.addMethod
  extract_lets closed
  have hclosed : closed.IsNamed := by
    unfold closed
    split
    · exact h.close none hnone
    · exact h
  split
  · exact ⟨hclosed.params, hclosed.members, snoc hclosed.signatures⟩
  · split
    · exact ⟨hclosed.params, snoc hclosed.members, hclosed.signatures⟩
    · exact hclosed.close (some m) (by simpa using hm)

theorem IsNamed.add (h : d.IsNamed) {part : Part} (hpart : AreNamed part.params) :
    (d.add part).IsNamed := by
  cases part with
  | construct params properties =>
      obtain ⟨hparams, hproperties⟩ := List.forall_mem_append.1 hpart
      refine ⟨hparams, List.forall_mem_append.2 ⟨h.members, fun m hm p hp => ?_⟩, h.signatures⟩
      exact hproperties p (List.mem_flatMap.2 ⟨m, hm, hp⟩)
  | field m =>
      exact ⟨h.params, List.forall_mem_append.2 ⟨h.members, List.forall_mem_singleton.2 hpart⟩,
        h.signatures⟩
  | method m hasBody => exact h.addMethod hpart

theorem IsNamed.foldl_add (h : d.IsNamed) {parts : List Part}
    (hparts : ∀ part ∈ parts, AreNamed part.params) : (parts.foldl Draft.add d).IsNamed :=
  List.foldlRecOn parts Draft.add h fun _ hd part hpart => hd.add (hparts part hpart)

end Draft

theorem areNamed_of_node {config : Config} {kind : Export} {node : ClassNode}
    {candidate : Candidate} (h : ofNode? config kind node = .ok (some candidate)) :
    AreNamed candidate.component.params ∧ ∀ m ∈ candidate.members, AreNamed m.params := by
  obtain ⟨found, hfound, hconstructor, hmembers⟩ := parts_of_node h
  have hparts : ∀ part ∈ found.reduceOption, AreNamed part.params := by
    intro part hpart
    have hok : Except.ok (some part) ∈ node.elements.map Part.ofElement? := by
      rw [mapM_eq_ok.1 hfound]
      exact List.mem_map_of_mem (List.reduceOption_mem_iff.1 hpart)
    obtain ⟨e, -, he⟩ := List.mem_map.1 hok
    exact Part.areNamed_ofElement? he
  have hnamed : (Draft.ofParts found).IsNamed :=
    (Draft.isNamed_empty.foldl_add hparts).close none (by simp)
  rw [Component.params, hconstructor, hmembers]
  exact ⟨hnamed.params, Member.forall_pairAccessors (fun m _ => areNamed_nil) hnamed.members⟩

end Candidate

namespace Surface

variable {config : Config} {disk : Disk} {file : SourceFile} {s : Surface}

theorem areNamed_of_surface (hs : file.surface config disk = .ok s) :
    AreNamed s.component.params ∧ ∀ m ∈ s.members, AreNamed m.params := by
  obtain ⟨m, ⟨o⟩⟩ := origin_of_ok hs
  obtain ⟨kind, node, -, hlowered, hmembers⟩ := o.host
  obtain ⟨hparams, hnamed⟩ := Candidate.areNamed_of_node hlowered
  refine ⟨?_, hmembers ▸ hnamed⟩
  rw [o.progress.same.component]
  exact hparams

end Surface

end ElementBridge
