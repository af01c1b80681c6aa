import ElementBridge.Proofs.LoweredTypes

namespace ElementBridge

open ElementBridge.Tree

variable {N : TypeNode → Prop} {Q : TypeExpr → Prop}

namespace Member

def Has (Q : TypeExpr → Prop) (m : Member) : Prop := ∀ t ∈ m.types, Q t

variable {m n : Member} {members : List Member}

theorem Has.param (h : m.Has Q) {p : Param} (hp : p ∈ m.params) : Q p.type :=
  h _ (List.mem_append_left _ (List.mem_map_of_mem hp))

theorem Has.result (h : m.Has Q) {t : TypeExpr} (ht : m.result = some t) : Q t :=
  h _ (List.mem_append_right _ (by simp [ht]))

theorem has_of {name : String} {kind : MemberKind} {params : List Param}
    {result : Option TypeExpr} {visibility : Visibility} {optional readonly : Bool}
    (hparams : ∀ p ∈ params, Q p.type) (hresult : ∀ t, result = some t → Q t) :
    Has Q ⟨name, kind, params, result, visibility, optional, readonly⟩ := by
  intro t ht
  rcases List.mem_append.1 ht with ht | ht
  · obtain ⟨p, hp, rfl⟩ := List.mem_map.1 ht
    exact hparams p hp
  · exact hresult t (by simpa using ht)

theorem Has.valueType (h : m.Has Q) {t : TypeExpr} (ht : m.valueType = some t) : Q t := by
  unfold Member.valueType at ht
  split at ht
  · obtain ⟨p, hp, rfl⟩ := Option.map_eq_some_iff.1 ht
    exact h.param (List.mem_of_mem_head? hp)
  · exact h.result ht

theorem Has.asProperty (h : m.Has Q) : m.asProperty.Has Q :=
  has_of (fun _ hp => absurd hp List.not_mem_nil) fun _ ht => h.valueType ht

theorem forall_joinPartner? {P : Member → Prop} (hP : ∀ m, P m → P m.asProperty) {m : Member}
    {joined : List Member} (h : ∀ n ∈ members, P n) (hjoined : joinPartner? m members = some joined) :
    ∀ n ∈ joined, P n := by
  induction members generalizing joined with
  | nil => cases hjoined
  | cons n rest ih =>
      obtain ⟨hn, hrest⟩ := List.forall_mem_cons.1 h
      rw [joinPartner?] at hjoined
      split at hjoined
      · split at hjoined
        · obtain rfl := Option.some.inj hjoined
          exact List.forall_mem_cons.2 ⟨hP n hn, hrest⟩
        · cases hjoined
      · obtain ⟨more, hmore, rfl⟩ := Option.map_eq_some_iff.1 hjoined
        exact List.forall_mem_cons.2 ⟨hn, ih hrest hmore⟩

theorem forall_pairAccessors {P : Member → Prop} (hP : ∀ m, P m → P m.asProperty)
    (h : ∀ m ∈ members, P m) : ∀ m ∈ pairAccessors members, P m := by
  have hfold (found : List Member) (hfound : ∀ m ∈ found, P m) :
      ∀ m ∈ members.foldl addAccessor found, P m := by
    induction members generalizing found with
    | nil => exact hfound
    | cons m rest ih =>
        obtain ⟨hm, hrest⟩ := List.forall_mem_cons.1 h
        refine ih hrest _ ?_
        unfold addAccessor
        cases hjoined : joinPartner? m found with
        | some joined => exact forall_joinPartner? hP hfound hjoined
        | none => exact List.forall_mem_append.2 ⟨hfound, List.forall_mem_singleton.2 hm⟩
  exact hfold [] fun m hm => absurd hm List.not_mem_nil

theorem lt_foldl_max {lengths : List Nat} {start i : Nat} :
    i < lengths.foldl max start ↔ i < start ∨ ∃ n ∈ lengths, i < n := by
  induction lengths generalizing start with
  | nil => simp
  | cons n rest ih =>
      have hmax : i < max start n ↔ i < start ∨ i < n := by omega
      rw [List.foldl_cons, ih, List.exists_mem_cons_iff, ← or_assoc, hmax]

theorem has_foldOverloads (h : TypeExpr.KeptFrom N Q) {first : Member} {rest : List Member}
    (hall : ∀ n ∈ first :: rest, n.Has Q) (implementation : Option Member) :
    (foldOverloads first rest implementation).Has Q := by
  refine has_of (fun p hp => ?_) fun t ht => ?_
  · obtain ⟨index, hindex, rfl⟩ := List.mem_map.1 hp
    -- A place is only looked at if some signature reaches so far.
    have hthere : (first :: rest).filterMap (·.params[index]?) ≠ [] := by
      simp only [List.mem_range, lt_foldl_max, List.mem_map, Nat.not_lt_zero, false_or] at hindex
      obtain ⟨_, ⟨n, hn, rfl⟩, hlt⟩ := hindex
      exact List.ne_nil_of_mem (List.mem_filterMap.2 ⟨n, hn, List.getElem?_eq_getElem hlt⟩)
    refine h.unionOf (by simpa using hthere) fun t ht => ?_
    obtain ⟨p, hp, rfl⟩ := List.mem_map.1 ht
    obtain ⟨n, hn, hp⟩ := List.mem_filterMap.1 hp
    exact (hall n hn).param (List.mem_of_getElem? hp)
  · unfold foldedResult at ht
    split at ht
    · exact absurd ht (by simp)
    · obtain rfl := Option.some.inj ht
      refine h.unionOf (by simp) fun t ht => ?_
      obtain ⟨n, hn, rfl⟩ := List.mem_map.1 ht
      cases hr : n.result with
      | none => exact h.primitive .any
      | some t => exact (hall n hn).result hr

end Member

namespace Candidate

structure Has (Q : TypeExpr → Prop) (c : Candidate) : Prop where
  named : ∃ name : Name, c.component.name = name.text
  params : ∀ p ∈ c.component.params, Q p.type
  members : ∀ m ∈ c.members, m.Has Q

namespace Draft

structure Has (Q : TypeExpr → Prop) (d : Draft) : Prop where
  params : ∀ p ∈ d.constructorParams.getD [], Q p.type
  members : ∀ m ∈ d.members, m.Has Q
  signatures : ∀ m ∈ d.signatures, m.Has Q

variable {d d' : Draft} {m : Member}

theorem Has.snoc {members : List Member} (h : ∀ n ∈ members, n.Has Q) (hm : m.Has Q) :
    ∀ n ∈ members ++ [m], n.Has Q := by
  intro n hn
  rcases List.mem_append.1 hn with hn | hn
  · exact h n hn
  · exact List.mem_singleton.1 hn ▸ hm

theorem has_empty : Draft.empty.Has Q := by
  constructor <;> exact fun _ hp => absurd hp List.not_mem_nil

theorem Has.close (h : d.Has Q) (hQ : TypeExpr.KeptFrom N Q) (implementation : Option Member) :
    (d.close implementation).Has Q := by
  unfold Draft.close
  split
  · exact h
  · next first rest hs =>
      have hfold := Member.has_foldOverloads hQ (hs ▸ h.signatures) implementation
      exact ⟨h.params, Has.snoc h.members hfold, fun _ hm => absurd hm List.not_mem_nil⟩

theorem Has.addMember (h : d.Has Q) (hm : m.Has Q) : (d.addMember m).Has Q :=
  ⟨h.params, Has.snoc h.members hm, h.signatures⟩

theorem Has.addMethod (h : d.Has Q) (hQ : TypeExpr.KeptFrom N Q) (hm : m.Has Q) (hasBody : Bool) :
    (d.addMethod m hasBody).Has Q := by
  unfold Draft.addMethod
  extract_lets closed
  have hclosed : closed.Has Q := by
    unfold closed
    split
    · exact h.close hQ none
    · exact h
  split
  · exact ⟨hclosed.params, hclosed.members, Has.snoc hclosed.signatures hm⟩
  · split
    · exact hclosed.addMember hm
    · exact hclosed.close hQ (some m)

theorem has_parameterProperty {p : Parameter TypeNode} {q : Param} (hq : Q q.type)
    (hm : parameterProperty p q = some m) : m.Has Q := by
  unfold parameterProperty at hm
  obtain ⟨visibility, -, rfl⟩ := Option.map_eq_some_iff.1 hm
  exact Member.has_of (fun p hp => absurd hp List.not_mem_nil) fun t ht => Option.some.inj ht ▸ hq

theorem Has.addConstructor (h : d.Has Q) (hQ : TypeExpr.KeptFrom N Q) {node : Method}
    (hN : ∀ t ∈ node.params.types, t.Throughout N)
    (hd : d.addConstructor node = .ok d') : d'.Has Q := by
  unfold Draft.addConstructor at hd
  split at hd
  · exact Except.ok.inj hd ▸ h
  · simp only [bind_eq_ok, mapError_eq_ok, pure_eq_ok] at hd
    obtain ⟨params, hp, rfl⟩ := hd
    have hparams := hQ.ofParameters node.params hN hp
    refine ⟨hparams, fun m hm => ?_, h.signatures⟩
    rcases List.mem_append.1 hm with hm | hm
    · exact h.members m hm
    · obtain ⟨⟨p, q⟩, hpq, hm⟩ := List.mem_filterMap.1 hm
      exact has_parameterProperty (hparams q (List.of_mem_zip hpq).2) hm

theorem has_lowerMethod (hQ : TypeExpr.KeptFrom N Q) {node : Method}
    (hN : ∀ t ∈ (ClassElement.method node).types, t.Throughout N)
    (hm : lowerMethod node = .ok (some m)) : m.Has Q := by
  obtain ⟨hparams, hresult⟩ := List.forall_mem_append.1 hN
  unfold lowerMethod at hm
  split at hm
  · exact absurd hm (by simp)
  · next name visibility _ =>
      simp only [bind_eq_ok, mapError_eq_ok, pure_eq_ok, Option.some.injEq] at hm
      obtain ⟨params, hps, result, hr, rfl⟩ := hm
      refine Member.has_of (hQ.ofParameters node.params hparams hps) fun t ht => ?_
      subst ht
      cases hnode : node.result with
      | none => exact absurd hr (by simp [hnode, pure, Except.pure])
      | some r =>
          have ht : TypeExpr.ofNode r = .ok t := by
            simpa [hnode] using hr
          exact hQ.ofNode r (hresult r (by simp [hnode])) ht

theorem has_lowerProperty (hQ : TypeExpr.KeptFrom N Q) {node : Property}
    (hN : ∀ t ∈ node.type.toList, t.Throughout N)
    (hm : lowerProperty node = .ok (some m)) : m.Has Q := by
  unfold lowerProperty at hm
  split at hm
  · exact absurd hm (by simp)
  · simp only [bind_eq_ok, mapError_eq_ok, pure_eq_ok, Option.some.injEq] at hm
    obtain ⟨type, htype, rfl⟩ := hm
    refine Member.has_of (fun p hp => absurd hp List.not_mem_nil) fun t ht => ?_
    exact Option.some.inj ht ▸ hQ.ofOption node.type (hQ.primitive .any) hN htype

theorem Has.addElement (h : d.Has Q) (hQ : TypeExpr.KeptFrom N Q) {element : ClassElement}
    (hN : ∀ t ∈ element.types, t.Throughout N)
    (hd : d.addElement element = .ok d') : d'.Has Q := by
  cases element with
  | method node =>
      simp only [Draft.addElement] at hd
      split at hd
      · exact h.addConstructor hQ (List.forall_mem_append.1 hN).1 hd
      · simp only [bind_eq_ok, pure_eq_ok] at hd
        obtain ⟨lowered, hlowered, rfl⟩ := hd
        cases lowered with
        | none => exact h
        | some m => exact h.addMethod hQ (has_lowerMethod hQ hN hlowered) node.hasBody
  | property node =>
      simp only [Draft.addElement, bind_eq_ok, pure_eq_ok] at hd
      obtain ⟨lowered, hlowered, rfl⟩ := hd
      cases lowered with
      | none => exact h
      | some m => exact h.addMember (has_lowerProperty hQ hN hlowered)
  | accessor _ => exact Except.ok.inj hd ▸ h
  | indexSignature => exact Except.ok.inj hd ▸ h
  | staticBlock => exact Except.ok.inj hd ▸ h

end Draft

theorem has_ofNode (hQ : TypeExpr.KeptFrom N Q) {config : Config} {kind : Export} {node : ClassNode}
    {c : Candidate} (hN : ∀ t ∈ node.types, t.Throughout N)
    (h : ofNode? config kind node = .ok (some c)) : c.Has Q := by
  obtain ⟨-, name, draft, -, -, -, hdraft, rfl⟩ := ofNode?_ok h
  have hdraft : draft.Has Q := foldlM_keeps
    (fun element he _ _ h hd => Draft.Has.addElement h hQ
      (fun t ht => hN t (List.mem_flatMap.2 ⟨element, he, ht⟩)) hd) Draft.has_empty hdraft
  have hclosed := hdraft.close hQ none
  exact ⟨⟨name, rfl⟩, hclosed.params,
    Member.forall_pairAccessors (fun _ h => h.asProperty) hclosed.members⟩

end Candidate

def Shape.Has (Q : TypeExpr → Prop) : Shape → Prop
  | .record fields => ∀ f ∈ fields, TypeExpr.Kept.Good Q f
  | .alias t => Q t

namespace Interface

structure Has (Q : TypeExpr → Prop) (d : Interface) : Prop where
  named : ∃ name : Name, d.name = name.text
  shape : d.shape.Has Q

theorem has_ofNode (hQ : TypeExpr.KeptFrom N Q) {node : InterfaceNode} {d : Interface}
    (hN : ∀ t ∈ node.members.flatMap Signature.types, t.Throughout N)
    (h : ofNode node = .ok d) : d.Has Q := by
  unfold ofNode at h
  split at h
  · exact absurd h (by simp)
  · simp only [bind_eq_ok, pure_eq_ok] at h
    obtain ⟨bases, -, fields, hfields, rfl⟩ := h
    exact ⟨⟨node.name, rfl⟩,
      hQ.ofSignatures node.members hN (fun f hf => absurd hf List.not_mem_nil) hfields⟩

theorem has_ofAlias (hQ : TypeExpr.KeptFrom N Q) {node : AliasNode} {d : Interface}
    (hN : node.type.Throughout N) (h : ofAlias node = .ok d) : d.Has Q := by
  unfold ofAlias at h
  split at h
  · exact absurd h (by simp)
  · simp only [bind_eq_ok, pure_eq_ok] at h
    obtain ⟨shape, hshape, rfl⟩ := h
    refine ⟨⟨node.name, rfl⟩, ?_⟩
    unfold Shape.ofNode at hshape
    split at hshape
    · next members hmembers =>
        simp only [bind_eq_ok, pure_eq_ok] at hshape
        obtain ⟨fields, hfields, rfl⟩ := hshape
        rw [hmembers] at hN
        exact hQ.ofSignatures members hN.parts (fun f hf => absurd hf List.not_mem_nil) hfields
    · simp only [bind_eq_ok, pure_eq_ok] at hshape
      obtain ⟨t, ht, rfl⟩ := hshape
      exact hQ.ofNode _ hN ht

end Interface

theorem Enumeration.named_ofNode {node : EnumNode} {d : Enumeration} (h : ofNode node = .ok d) :
    ∃ name : Name, d.name = name.text := by
  unfold ofNode at h
  simp only [bind_eq_ok] at h
  obtain ⟨ms, -, h⟩ := h
  split at h
  · exact absurd h (by simp)
  · rw [pure_eq_ok] at h
    exact ⟨node.name, by rw [← h]⟩

structure Collected.Has (Q : TypeExpr → Prop) (c : Collected) : Prop where
  interfaces : ∀ d ∈ c.interfaces, d.Has Q
  enums : ∀ d ∈ c.enums, ∃ name : Name, d.name = name.text
  candidates : ∀ d ∈ c.candidates, d.Has Q

theorem Tree.Statement.Declares.types_eq {st : Statement} {node : Tree.Declaration}
    (h : st.Declares node) : st.types = node.types := by
  cases h <;> rfl

theorem Tree.Statement.DeclaresClass.types_eq {st : Statement} {kind : Export} {node : ClassNode}
    (h : st.DeclaresClass kind node) : st.types = node.types := by
  cases h with
  | unexported | named => rfl
  | default => simp [Statement.types]

namespace Collected

variable {config : Config} {c c' : Collected}

theorem Has.adds (h : c.Has Q) (hQ : TypeExpr.KeptFrom N Q) {st : Statement}
    (hN : ∀ t ∈ st.types, t.Throughout N) (hc : Adds config c st c') : c'.Has Q := by
  have snoc {d : Interface} (hd : d.Has Q) : ∀ e ∈ c.interfaces ++ [d], e.Has Q := by
    intro e he
    rcases List.mem_append.1 he with he | he
    · exact h.interfaces e he
    · exact List.mem_singleton.1 he ▸ hd
  cases hc with
  | importFrom _ => exact ⟨h.interfaces, h.enums, h.candidates⟩
  | interface _ hnode hd =>
      rw [hnode.types_eq] at hN
      exact ⟨snoc (Interface.has_ofNode hQ hN hd), h.enums, h.candidates⟩
  | «alias» _ hnode hd =>
      rw [hnode.types_eq] at hN
      have htype := hN _ (List.mem_singleton.2 rfl)
      exact ⟨snoc (Interface.has_ofAlias hQ htype hd), h.enums, h.candidates⟩
  | enum _ hd =>
      refine ⟨h.interfaces, fun e he => ?_, h.candidates⟩
      rcases List.mem_append.1 he with he | he
      · exact h.enums e he
      · exact List.mem_singleton.1 he ▸ Enumeration.named_ofNode hd
  | obstacle _ => exact ⟨h.interfaces, h.enums, h.candidates⟩
  | @classDef _ node found _ hclass hfound =>
      rw [hclass.types_eq] at hN
      refine ⟨h.interfaces, h.enums, fun e he => ?_⟩
      rcases List.mem_append.1 he with he | he
      · exact h.candidates e he
      · obtain rfl : found = some e := by simpa using he
        exact Candidate.has_ofNode hQ hN hfound
  | registrations _ => exact ⟨h.interfaces, h.enums, h.candidates⟩
  | nothing _ => exact h

theorem has_ofModule (hQ : TypeExpr.KeptFrom N Q) {m : Module}
    (hN : ∀ t ∈ m.types, t.Throughout N) (hc : ofModule config m = .ok c) : c.Has Q := by
  refine foldlM_keeps (fun st hst _ _ h hc => Has.adds h hQ
    (fun t ht => hN t (List.mem_flatMap.2 ⟨st, hst, ht⟩)) (addStatement_ok hc)) ?_ hc
  constructor <;> exact fun d hd => absurd hd List.not_mem_nil

end Collected

structure Surface.Has (Q : TypeExpr → Prop) (s : Surface) : Prop where
  component : ∃ name : Name, s.component.name = name.text
  params : ∀ p ∈ s.component.params, Q p.type
  members : ∀ m ∈ s.members, m.Has Q
  interfaces : ∀ d ∈ s.interfaces, d.Has Q
  enums : ∀ d ∈ s.enums, ∃ name : Name, d.name = name.text

namespace Surface

variable {config : Config} {disk : Disk} {file : SourceFile} {m : Module} {s : Surface}

theorem SameDeclarations.has {t : Surface} (h : SameDeclarations s t) (hs : s.Has Q) :
    t.Has Q := by
  rw [h]
  exact ⟨hs.component, hs.params, hs.members, hs.interfaces, hs.enums⟩

theorem has_of_parse (hQ : TypeExpr.KeptFrom N Q) (hm : file.parse = .ok m)
    (hN : ∀ t ∈ m.types, t.Throughout N) (hs : file.surface config disk = .ok s) : s.Has Q := by
  obtain ⟨o⟩ := origin_of_parse hm hs
  have hcollected := Collected.has_ofModule hQ hN o.collects
  have hcandidate := hcollected.candidates o.candidate (by simp [o.single])
  refine o.progress.same.has ?_
  exact ⟨hcandidate.named, hcandidate.params, hcandidate.members, hcollected.interfaces,
    hcollected.enums⟩

theorem has_of_surface (hQ : TypeExpr.Kept Q) (hs : file.surface config disk = .ok s) :
    s.Has Q := by
  obtain ⟨m, ⟨o⟩⟩ := origin_of_ok hs
  exact has_of_parse hQ.within o.parsed (fun _ _ _ _ => trivial) hs

end Surface

end ElementBridge
