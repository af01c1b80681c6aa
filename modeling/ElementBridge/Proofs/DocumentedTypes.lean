import ElementBridge.Proofs.BlockNames
import ElementBridge.Proofs.ShownNames

namespace ElementBridge.Bridge

open ClosureType Text

variable {s : Surface} {globals : List String} {block more : Lines} {tag text name : String}

def Documents (block : Lines) (text : String) : Prop :=
  ∃ line ∈ block, docType line = text.toList

theorem Documents.mono (h : Documents block text) (hsub : block ⊆ more) : Documents more text := by
  obtain ⟨line, hline, htype⟩ := h
  exact ⟨line, hsub hline, htype⟩

theorem Documents.mem_docNames (h : Documents block text)
    (hname : name.toList ∈ typeNames text.toList) : name ∈ docNames block := by
  obtain ⟨line, hline, htype⟩ := h
  rw [← htype] at hname
  exact List.mem_flatMap.2 ⟨line, hline, List.mem_map.2 ⟨_, hname, String.ofList_toList⟩⟩

theorem documents_docBlock {tags : List String} (htag : tag ∈ tags) (h : Carries tag text)
    (hn : Nested text.toList) : Documents (docBlock tags) text := by
  have hsome : tags.isEmpty = false := List.isEmpty_eq_false_iff.2 (List.ne_nil_of_mem htag)
  refine ⟨"  * " ++ tag, ?_, h.docType hn 2 rfl⟩
  unfold docBlock
  rw [hsome]
  exact List.mem_append_left _ (List.mem_cons_of_mem _ (List.mem_map_of_mem htag))

section Stubs

variable {m : Member} {p : Param} {t : TypeExpr}

theorem documents_param (hp : p ∈ m.params) (hn : Nested (s.paramType globals p).toList) :
    Documents (methodStub s globals m) (s.paramType globals p) := by
  have htag : paramTag (s.paramType globals p) p.name
      ∈ paramTags s globals m.params ++ resultTags s globals m.result :=
    List.mem_append_left _ (List.mem_map_of_mem hp)
  exact (documents_docBlock htag (carries_paramTag _ _) hn).mono (List.subset_append_left _ _)

theorem documents_result (ht : m.result = some t) (hvoid : t.isVoid = false)
    (hn : Nested (s.closureType globals t).toList) :
    Documents (methodStub s globals m) (s.closureType globals t) := by
  have htag : returnTag (s.closureType globals t)
      ∈ paramTags s globals m.params ++ resultTags s globals m.result := by
    refine List.mem_append_right _ ?_
    simp [resultTags, ht, hvoid]
  exact (documents_docBlock htag (carries_returnTag _) hn).mono (List.subset_append_left _ _)

theorem documents_accessor (hkind : m.kind ≠ .method)
    (hn : Nested (accessorType s globals m).toList) :
    Documents (stubs s globals m) (accessorType s globals m) := by
  have hset : Documents (setterStub s globals m) (accessorType s globals m) :=
    (documents_docBlock (List.mem_singleton_self _) (carries_paramTag _ _) hn).mono
      (List.subset_append_left _ _)
  have hget : Documents (getterStub s globals m) (accessorType s globals m) :=
    (documents_docBlock (List.mem_singleton_self _) (carries_returnTag _) hn).mono
      (List.subset_append_left _ _)
  unfold stubs
  cases hm : m.kind with
  | method => exact absurd hm hkind
  | property => exact hget.mono (List.subset_append_right _ _)
  | getter => exact hget
  | setter => exact hset

theorem stubs_subset (globals : List String) (hm : m ∈ s.members) :
    stubs s globals m ⊆ facadeClass s globals := by
  intro line hline
  have hmem : line ∈ s.members.flatMap (stubs s globals) := List.mem_flatMap.2 ⟨m, hm, hline⟩
  exact List.mem_append_left _ (List.mem_append_right _ hmem)

theorem documents_creatorParam (hp : p ∈ s.component.params)
    (hn : Nested (s.paramType globals p).toList) :
    Documents (creatorFunction s globals) (s.paramType globals p) := by
  refine ⟨"* " ++ paramTag (s.paramType globals p) p.name, ?_,
    (carries_paramTag _ _).docType hn 0 rfl⟩
  have htag : paramTag (s.paramType globals p) p.name ∈ paramTags s globals s.component.params :=
    List.mem_map_of_mem hp
  exact List.mem_append_left _ (List.mem_cons_of_mem _ (List.mem_map_of_mem htag))

theorem mem_docNames_of_signs (htyped : SignsOver (fun _ => True) s globals)
    (h : s.Signs globals t text) (hvoid : t.isVoid = false)
    (hname : name.toList ∈ typeNames text.toList) :
    name ∈ docNames (facadeClass s globals) ∨ name ∈ docNames (creatorFunction s globals) := by
  have nestedParam {p : Param} (hp : ∀ text, s.paramType globals p
      = text ++ (if p.optional then "=" else "") → s.Signs globals p.type text) :
      Nested (s.paramType globals p).toList :=
    (tagged_paramType fun text htext => htyped _ _ (hp text htext)).nested
  have marked {p : Param} {text : String} (hname : name.toList ∈ typeNames text.toList)
      (htext : s.paramType globals p = text ++ (if p.optional then "=" else "")) :
      name.toList ∈ typeNames (s.paramType globals p).toList := by
    rw [htext]
    split
    · rw [String.toList_append, show "=".toList = ['='] by simp, typeNames_snoc (by decide)]
      exact hname
    · rwa [String.append_empty]
  have stub {m : Member} (hm : m ∈ s.members) (hkind : m.kind = .method) :
      methodStub s globals m ⊆ facadeClass s globals := by
    have hsub := stubs_subset (s := s) globals hm
    rwa [stubs, hkind] at hsub
  cases h with
  | param hm hkind hp htext =>
      have hdoc := documents_param hp (nestedParam fun _ htext => .param hm hkind hp htext)
      exact .inl ((hdoc.mono (stub hm hkind)).mem_docNames (marked hname htext))
  | result hm hkind ht =>
      have hdoc := documents_result ht hvoid (htyped _ _ (.result hm hkind ht)).nested
      exact .inl ((hdoc.mono (stub hm hkind)).mem_docNames hname)
  | accessor hm hkind ht =>
      have hdoc := documents_accessor hkind (htyped _ _ (.accessor hm hkind ht)).nested
      exact .inl ((hdoc.mono (stubs_subset globals hm)).mem_docNames hname)
  | creatorParam hp htext =>
      have hdoc := documents_creatorParam hp (nestedParam fun _ htext => .creatorParam hp htext)
      exact .inr (hdoc.mem_docNames (marked hname htext))

end Stubs

variable {d : Interface} {t : TypeExpr}

theorem mem_docNames_of_defines (htyped : DefinesOver (fun _ => True) s globals d)
    (hnames : ∀ f ∈ s.flatten d, isBareKey f.name = true)
    (halias : ∀ t, d.shape = .alias t → s.flatten d = []) (h : s.Defines globals d t text)
    (hname : name.toList ∈ typeNames text.toList) : name ∈ docNames (typedef s globals d) := by
  have hbody : typedefBody s globals d ⊆ typedef s globals d := fun line hline =>
    List.mem_append_left _ (List.mem_cons_of_mem _ hline)
  have hnested := (htyped t text h).nested
  refine Documents.mem_docNames (Documents.mono ?_ hbody) hname
  cases h with
  | «alias» hshape =>
      refine ⟨"* " ++ ("@typedef " ++ braces (s.closureType globals t)), ?_,
        (carries_typedef _).docType hnested 0 rfl⟩
      simp [typedefBody, hshape, ← String.append_assoc]
  | @field f hf =>
      refine ⟨"* " ++ f.name ++ ":" ++ s.fieldType globals f, ?_,
        docType_field (by simp) (all_isNameLetter_of_isBareKey (hnames f hf))⟩
      unfold typedefBody
      split
      · exact List.mem_append_left _ (List.mem_cons_of_mem _ (List.mem_map.2 ⟨f, hf, rfl⟩))
      · next u hshape =>
          rw [halias u hshape] at hf
          exact absurd hf List.not_mem_nil

end ElementBridge.Bridge
