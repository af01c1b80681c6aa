import ElementBridge.Proofs.OfSource

namespace ElementBridge

open ElementBridge.Tree

namespace Tree

variable {τ : Type}

def Parameters.types (params : Parameters τ) : List τ := params.items.filterMap (·.type)

def Signature.types : Signature τ → List τ
  | .property _ _ type => type.toList
  | .method _ _ _ params result => params.types ++ result.toList
  | .other _ => []

def TypeNode.parts : TypeNode → List TypeNode
  | .array t | .readonly t | .parenthesized t => [t]
  | .union ts | .reference _ ts => ts
  | .function params result => params.types ++ [result]
  | .object members => members.flatMap Signature.types
  | .keyword _ | .operator _ | .literal _ _ | .tuple _ | .other _ => []

inductive TypeNode.HasBody (body : List (Signature TypeNode)) : TypeNode → Prop where
  | self : HasBody body (.object body)
  | part {t u : TypeNode} : u ∈ t.parts → HasBody body u → HasBody body t

inductive TypeNode.IsPart (u : TypeNode) : TypeNode → Prop where
  | self : IsPart u u
  | inside {t v : TypeNode} : v ∈ t.parts → IsPart u v → IsPart u t

theorem TypeNode.IsPart.hasBody {body : List (Signature TypeNode)} {t : TypeNode}
    (h : (TypeNode.object body).IsPart t) : t.HasBody body := by
  induction h with
  | self => exact .self
  | inside hv _ ih => exact .part hv ih

def TypeNode.Throughout (N : TypeNode → Prop) (t : TypeNode) : Prop :=
  ∀ u : TypeNode, u.IsPart t → N u

variable {N : TypeNode → Prop}

theorem TypeNode.Throughout.parts {t : TypeNode} (h : t.Throughout N) :
    ∀ u ∈ t.parts, u.Throughout N :=
  fun _ hu v hv => h v (.inside hu hv)

/-! ### The types that stand in larger constructs -/

def ClassElement.types : ClassElement → List TypeNode
  | .method node => node.params.types ++ node.result.toList
  | .property node | .accessor node => node.type.toList
  | .indexSignature | .staticBlock => []

def ClassNode.types (node : ClassNode) : List TypeNode := node.elements.flatMap ClassElement.types

def Declaration.types : Declaration → List TypeNode
  | .interface node => node.members.flatMap Signature.types
  | .alias node => [node.type]
  | .classDef node => node.types
  | .enum _ | .other => []

def Statement.types : Statement → List TypeNode
  | .declare node | .exportDeclaration node => node.types
  | .exportDefault node => node.toList.flatMap ClassNode.types
  | .importFrom _ | .exportNames _ _ | .exportAll _ _ | .other _ => []

def Module.types (m : Module) : List TypeNode := m.flatMap Statement.types

end Tree

namespace TypeExpr

/-- A property of types that holds of whatever is lowered and folded from types that have it. -/
structure Kept (Q : TypeExpr → Prop) : Prop where
  primitive (p : Primitive) : Q (.primitive p)
  named {n : DottedName} {args : List TypeExpr} : (∀ t ∈ args, Q t) → Q (named n.text args)
  array {t : TypeExpr} : Q t → Q (.array t)
  union {ts : List TypeExpr} : (∀ t ∈ ts, Q t) → Q (.union (ts.flatMap alternatives))
  function {params : List TypeExpr} {result : TypeExpr} :
    (∀ t ∈ params, Q t) → Q result → Q (.function params result)
  record {fields : List Field} : (∀ f ∈ fields, Text.isBareKey f.name = true ∧ Q f.type) →
    Q (.record fields)
  unionOf {ts : List TypeExpr} : (∀ t ∈ ts, Q t) → Q (unionOf ts)

def Kept.Good (Q : TypeExpr → Prop) (f : Field) : Prop := Text.isBareKey f.name = true ∧ Q f.type

theorem Kept.fieldName_ok {k : Key} {name : String} (h : k.fieldName = .ok name) :
    Text.isBareKey name = true := by
  unfold Key.fieldName at h
  split at h
  · exact absurd h (by simp)
  · split at h
    · next hbare => exact Except.ok.inj h ▸ hbare
    · exact absurd h (by simp)
  · exact absurd h (by simp)

/-- A property that holds of whatever is lowered from types that have it, where unions and object
types are such that `N`. -/
structure KeptWithin (N : TypeNode → Prop) (Q : TypeExpr → Prop) : Prop where
  primitive (p : Primitive) : Q (.primitive p)
  named {n : DottedName} {args : List TypeExpr} : (∀ t ∈ args, Q t) → Q (named n.text args)
  array {t : TypeExpr} : Q t → Q (.array t)
  union {members : List TypeNode} {ts : List TypeExpr} : N (.union members) →
    members.map TypeExpr.ofNode = ts.map .ok → (∀ t ∈ ts, Q t) →
    Q (.union (ts.flatMap alternatives))
  function {params : List TypeExpr} {result : TypeExpr} :
    (∀ t ∈ params, Q t) → Q result → Q (.function params result)
  record {body : List (Signature TypeNode)} {fields : List Field} : N (.object body) →
    TypeExpr.ofSignatures [] body = .ok fields → (∀ f ∈ fields, Kept.Good Q f) → Q (.record fields)

structure KeptFrom (N : TypeNode → Prop) (Q : TypeExpr → Prop) : Prop extends KeptWithin N Q where
  unionOf {ts : List TypeExpr} : ts ≠ [] → (∀ t ∈ ts, Q t) → Q (unionOf ts)

namespace KeptWithin

open Kept

variable {N : TypeNode → Prop} {Q : TypeExpr → Prop}

theorem ofLiteral (h : KeptWithin N Q) {kind : LiteralKind} {source : String} {e : TypeExpr}
    (he : TypeExpr.ofLiteral kind source = .ok e) : Q e := by
  cases kind <;> simp only [TypeExpr.ofLiteral, Except.ok.injEq, reduceCtorEq] at he <;>
    exact he ▸ h.primitive _

theorem addMethod (h : KeptWithin N Q) {fields : List Field} {kind : SignatureKind} {name : String}
    {optional : Bool} {params : List Param} {result : TypeExpr} (hfields : ∀ f ∈ fields, Good Q f)
    (hname : Text.isBareKey name = true) (hparams : ∀ p ∈ params, Q p.type) (hresult : Q result) :
    ∀ f ∈ TypeExpr.addMethod fields kind name optional params result, Good Q f := by
  have behind {t : TypeExpr} (ht : Q t) : ∀ f ∈ fields ++ [⟨name, t, optional⟩], Good Q f := by
    intro f hf
    rcases List.mem_append.1 hf with hf | hf
    · exact hfields f hf
    · rw [List.mem_singleton.1 hf]
      exact ⟨hname, ht⟩
  cases kind with
  | method =>
      refine behind (h.function (fun t ht => ?_) hresult)
      obtain ⟨p, hp, rfl⟩ := List.mem_map.1 ht
      exact hparams p hp
  | getter => exact behind hresult
  | setter =>
      simp only [TypeExpr.addMethod]
      split
      · exact hfields
      · cases params with
        | nil => exact behind (h.primitive .any)
        | cons p rest => exact behind (hparams p List.mem_cons_self)

mutual

theorem ofNode (h : KeptWithin N Q) : ∀ (t : TypeNode) {e : TypeExpr}, t.Throughout N →
    TypeExpr.ofNode t = .ok e → Q e
  | .keyword p, e, _, he => by
      rw [TypeExpr.ofNode, Except.ok.injEq] at he
      exact he ▸ h.primitive p
  | .array element, e, hN, he => by
      obtain ⟨t, ht, rfl⟩ : ∃ t, TypeExpr.ofNode element = .ok t ∧ .array t = e := by
        simpa [TypeExpr.ofNode] using he
      exact h.array (ofNode h element (hN.parts _ (List.mem_singleton.2 rfl)) ht)
  | .readonly operand, e, hN, he => by
      rw [TypeExpr.ofNode] at he
      exact ofNode h operand (hN.parts _ (List.mem_singleton.2 rfl)) he
  | .operator _, e, _, he => by simp [TypeExpr.ofNode] at he
  | .parenthesized inner, e, hN, he => by
      rw [TypeExpr.ofNode] at he
      exact ofNode h inner (hN.parts _ (List.mem_singleton.2 rfl)) he
  | .union members, e, hN, he => by
      obtain ⟨ts, hts, rfl⟩ : ∃ ts, TypeExpr.ofMembers members = .ok ts ∧ .union ts = e := by
        simpa [TypeExpr.ofNode] using he
      obtain ⟨us, rfl, hmap, hus⟩ := ofMembers h members hN.parts hts
      exact h.union (hN _ .self) hmap hus
  | .reference name args, e, hN, he => by
      obtain ⟨ts, hts, rfl⟩ : ∃ ts, TypeExpr.ofNodes args = .ok ts ∧
          TypeExpr.named name.text ts = e := by
        simpa [TypeExpr.ofNode] using he
      exact h.named (ofNodes h args hN.parts hts)
  | .function params result, e, hN, he => by
      obtain ⟨ps, hps, t, ht, rfl⟩ : ∃ ps, TypeExpr.ofParameters params = .ok ps ∧
          ∃ t, TypeExpr.ofNode result = .ok t ∧ .function (ps.map (·.type)) t = e := by
        simpa [TypeExpr.ofNode] using he
      obtain ⟨hparams, hresult⟩ := List.forall_mem_append.1 hN.parts
      refine h.function (fun u hu => ?_) (ofNode h result (hresult _ (List.mem_singleton.2 rfl)) ht)
      obtain ⟨p, hp, rfl⟩ := List.mem_map.1 hu
      exact ofParameters h params hparams hps p hp
  | .literal kind source, e, _, he => by
      rw [TypeExpr.ofNode] at he
      exact h.ofLiteral he
  | .object members, e, hN, he => by
      obtain ⟨fs, hfs, rfl⟩ : ∃ fs, TypeExpr.ofSignatures [] members = .ok fs ∧
          .record fs = e := by
        simpa [TypeExpr.ofNode] using he
      exact h.record (hN _ .self) hfs
        (ofSignatures h members hN.parts (fun f hf => absurd hf List.not_mem_nil) hfs)
  | .tuple _, e, _, he => by simp [TypeExpr.ofNode] at he
  | .other _, e, _, he => by simp [TypeExpr.ofNode] at he

theorem ofNodes (h : KeptWithin N Q) : ∀ (ts : List TypeNode) {es : List TypeExpr},
    (∀ t ∈ ts, t.Throughout N) → TypeExpr.ofNodes ts = .ok es → ∀ e ∈ es, Q e
  | [], es, _, hes => by
      rw [TypeExpr.ofNodes, Except.ok.injEq] at hes
      simp [← hes]
  | t :: ts, es, hN, hes => by
      obtain ⟨e, he, rest, hrest, rfl⟩ : ∃ e, TypeExpr.ofNode t = .ok e ∧
          ∃ rest, TypeExpr.ofNodes ts = .ok rest ∧ e :: rest = es := by
        simpa [TypeExpr.ofNodes] using hes
      obtain ⟨ht, hts⟩ := List.forall_mem_cons.1 hN
      exact List.forall_mem_cons.2 ⟨ofNode h t ht he, ofNodes h ts hts hrest⟩

theorem ofMembers (h : KeptWithin N Q) : ∀ (ts : List TypeNode) {es : List TypeExpr},
    (∀ t ∈ ts, t.Throughout N) → TypeExpr.ofMembers ts = .ok es →
    ∃ us : List TypeExpr, us.flatMap alternatives = es ∧
      ts.map TypeExpr.ofNode = us.map .ok ∧ ∀ u ∈ us, Q u
  | [], es, _, hes => by
      rw [TypeExpr.ofMembers, Except.ok.injEq] at hes
      exact ⟨[], by simp [← hes], rfl, fun u hu => absurd hu List.not_mem_nil⟩
  | t :: ts, es, hN, hes => by
      obtain ⟨e, he, rest, hrest, rfl⟩ : ∃ e, TypeExpr.ofNode t = .ok e ∧
          ∃ rest, TypeExpr.ofMembers ts = .ok rest ∧ e.alternatives ++ rest = es := by
        simpa [TypeExpr.ofMembers] using hes
      obtain ⟨ht, hts⟩ := List.forall_mem_cons.1 hN
      obtain ⟨us, rfl, hmap, hus⟩ := ofMembers h ts hts hrest
      exact ⟨e :: us, by simp, by simp [he, hmap], List.forall_mem_cons.2 ⟨ofNode h t ht he, hus⟩⟩

theorem ofOption (h : KeptWithin N Q) : ∀ (o : Option TypeNode) {absent e : TypeExpr}, Q absent →
    (∀ t ∈ o.toList, t.Throughout N) → TypeExpr.ofOption absent o = .ok e → Q e
  | none, absent, e, habsent, _, he => by
      rw [TypeExpr.ofOption, Except.ok.injEq] at he
      exact he ▸ habsent
  | some t, absent, e, _, hN, he => by
      rw [TypeExpr.ofOption] at he
      exact ofNode h t (hN t (List.mem_singleton.2 rfl)) he

theorem ofParameter (h : KeptWithin N Q) : ∀ (p : Parameter TypeNode) {q : Param},
    (∀ t ∈ p.type.toList, t.Throughout N) → TypeExpr.ofParameter p = .ok q → Q q.type
  | ⟨.name id, type, optional, _, _, _, _⟩, q, hN, hq => by
      obtain ⟨t, ht, rfl⟩ : ∃ t, TypeExpr.ofOption any type = .ok t ∧
          ⟨id.text, t, optional⟩ = q := by
        simpa [TypeExpr.ofParameter] using hq
      exact ofOption h type (h.primitive .any) hN ht
  | ⟨.destructured, _, _, _, _, _, _⟩, q, _, hq => by simp [TypeExpr.ofParameter] at hq

theorem ofParameterList (h : KeptWithin N Q) : ∀ (ps : List (Parameter TypeNode))
    {qs : List Param}, (∀ p ∈ ps, ∀ t ∈ p.type.toList, t.Throughout N) →
    TypeExpr.ofParameterList ps = .ok qs → ∀ q ∈ qs, Q q.type
  | [], qs, _, hqs => by
      rw [TypeExpr.ofParameterList, Except.ok.injEq] at hqs
      simp [← hqs]
  | p :: ps, qs, hN, hqs => by
      obtain ⟨q, hq, rest, hrest, rfl⟩ : ∃ q, TypeExpr.ofParameter p = .ok q ∧
          ∃ rest, TypeExpr.ofParameterList ps = .ok rest ∧ q :: rest = qs := by
        simpa [TypeExpr.ofParameterList] using hqs
      obtain ⟨hp, hps⟩ := List.forall_mem_cons.1 hN
      exact List.forall_mem_cons.2 ⟨ofParameter h p hp hq, ofParameterList h ps hps hrest⟩

theorem ofParameters (h : KeptWithin N Q) : ∀ (ps : Parameters TypeNode) {qs : List Param},
    (∀ t ∈ ps.types, t.Throughout N) → TypeExpr.ofParameters ps = .ok qs → ∀ q ∈ qs, Q q.type
  | ⟨_, true⟩, qs, _, hqs => by simp [TypeExpr.ofParameters] at hqs
  | ⟨items, false⟩, qs, hN, hqs => by
      rw [TypeExpr.ofParameters] at hqs
      refine ofParameterList h items (fun p hp t ht => hN t ?_) hqs
      exact List.mem_filterMap.2 ⟨p, hp, Option.mem_toList.1 ht⟩

theorem ofSignatures (h : KeptWithin N Q) : ∀ (members : List (Signature TypeNode))
    {fields found : List Field}, (∀ t ∈ members.flatMap Signature.types, t.Throughout N) →
    (∀ f ∈ fields, Good Q f) → TypeExpr.ofSignatures fields members = .ok found →
    ∀ f ∈ found, Good Q f
  | [], fields, found, _, hfields, hfound => by
      rw [TypeExpr.ofSignatures, Except.ok.injEq] at hfound
      exact hfound ▸ hfields
  | .property key optional type :: rest, fields, found, hN, hfields, hfound => by
      obtain ⟨name, hname, t, ht, hrest⟩ : ∃ name, key.fieldName = .ok name ∧
          ∃ t, TypeExpr.ofOption any type = .ok t ∧
            TypeExpr.ofSignatures (fields ++ [⟨name, t, optional⟩]) rest = .ok found := by
        simpa [TypeExpr.ofSignatures] using hfound
      obtain ⟨htype, hN⟩ := List.forall_mem_append.1 hN
      refine ofSignatures h rest hN (fun f hf => ?_) hrest
      rcases List.mem_append.1 hf with hf | hf
      · exact hfields f hf
      · rw [List.mem_singleton.1 hf]
        exact ⟨fieldName_ok hname, ofOption h type (h.primitive .any) htype ht⟩
  | .method kind key optional params result :: rest, fields, found, hN, hfields, hfound => by
      obtain ⟨name, hname, ps, hps, t, ht, hrest⟩ : ∃ name, key.fieldName = .ok name ∧
          ∃ ps, TypeExpr.ofParameters params = .ok ps ∧
          ∃ t, TypeExpr.ofOption (.primitive .void) result = .ok t ∧
            TypeExpr.ofSignatures (TypeExpr.addMethod fields kind name optional ps t) rest
              = .ok found := by
        simpa [TypeExpr.ofSignatures] using hfound
      obtain ⟨htypes, hN⟩ := List.forall_mem_append.1 hN
      obtain ⟨hparams, hresult⟩ := List.forall_mem_append.1 htypes
      refine ofSignatures h rest hN ?_ hrest
      exact h.addMethod hfields (fieldName_ok hname) (ofParameters h params hparams hps)
        (ofOption h result (h.primitive .void) hresult ht)
  | .other _ :: _, fields, found, _, hfields, hfound => by simp [TypeExpr.ofSignatures] at hfound

end

end KeptWithin

namespace Kept

variable {Q : TypeExpr → Prop}

theorem within (h : Kept Q) : KeptFrom (fun _ => True) Q where
  primitive := h.primitive
  named := h.named
  array := h.array
  union _ _ := h.union
  function := h.function
  record _ _ := h.record
  unionOf _ := h.unionOf

theorem ofNode (h : Kept Q) (t : TypeNode) {e : TypeExpr} (he : TypeExpr.ofNode t = .ok e) : Q e :=
  h.within.ofNode t (fun _ _ => trivial) he

end Kept

end TypeExpr

end ElementBridge
