import ElementBridge.Component.OfNode
import ElementBridge.Proofs.AccessorPairs
import ElementBridge.Proofs.Results
import Mathlib.Data.List.Forall2

namespace ElementBridge

open ElementBridge.Tree

namespace TypeExpr

variable {items : List (Parameter TypeNode)} {params : List Param}

theorem ofParameter_eq_ok {p : Parameter TypeNode} {q : Param} : ofParameter p = .ok q ↔
    ∃ id type, p.pattern = .name id ∧ ofOption any p.type = .ok type ∧
      q = ⟨id.text, type, p.optional⟩ := by
  obtain ⟨pattern, type, optional, hasDefault, access, readonly, source⟩ := p
  cases pattern with
  | destructured => simp [ofParameter]
  | name id => simp [ofParameter, eq_comm (a := q)]

theorem ofParameterList_eq_ok : ofParameterList items = .ok params ↔
    List.Forall₂ (fun p q => ofParameter p = .ok q) items params := by
  induction items generalizing params with
  | nil => rw [ofParameterList, List.forall₂_nil_left_iff, Except.ok.injEq, eq_comm]
  | cons p items ih =>
      simp [ofParameterList, ih, List.forall₂_cons_left_iff, eq_comm (a := params)]

theorem forall₂_ofParameters {node : Parameters TypeNode} (h : ofParameters node = .ok params) :
    List.Forall₂ (fun p q => ofParameter p = .ok q) node.items params := by
  unfold ofParameters at h
  split at h
  · cases h
  · exact ofParameterList_eq_ok.1 h

end TypeExpr

def Capability.ofKind : MemberKind → Capability
  | .getter => .get
  | .setter => .set
  | _ => .call

structure Declared where
  name : String
  capability : Capability
  isSignature : Bool
deriving DecidableEq, Repr

namespace Declared

def offer (d : Declared) : String × Capability := (d.name, d.capability)

/-- The declarations that count. A signature gives way to what comes next, if that has its name. -/
def counting : List Declared → List Declared
  | [] => []
  | d :: rest =>
      if d.isSignature && rest.head?.any (·.name == d.name) then counting rest
      else d :: counting rest

end Declared

namespace Candidate

inductive Part where
  | construct (params : List Param) (properties : List Member)
  | method (m : Member) (hasBody : Bool)
  | field (m : Member)
deriving DecidableEq, Repr

namespace Part

def ofConstructor? (m : Method) : Except Refusal (Option Part) :=
  if !m.hasBody then .ok none
  else do
    let params ← (TypeExpr.ofParameters m.params).mapError (Obstacle.at "constructor")
    return some (.construct params
      ((m.params.items.zip params).filterMap fun (p, q) => parameterProperty p q))

def ofElement? : ClassElement → Except Refusal (Option Part)
  | .method m =>
      if m.kind = .construct then ofConstructor? m
      else do return (← lowerMethod m).map fun member => .method member m.hasBody
  | .property p => do return (← lowerProperty p).map .field
  | .accessor _ | .indexSignature | .staticBlock => .ok none

def members : Part → List Member
  | .construct _ properties => properties
  | .method _ _ => []
  | .field m => [m]

def declared? : Part → Option Declared
  | .method m hasBody =>
      some ⟨m.name, Capability.ofKind m.kind, !hasBody && m.kind == .method⟩
  | _ => none

def WellFormed : Part → Prop
  | .construct _ properties => ∀ m ∈ properties, m.kind = .property
  | .method m _ => m.kind ≠ .property ∧ m.readonly = false
  | .field m => m.kind = .property

end Part

namespace Draft

def add (d : Draft) : Part → Draft
  | .construct params properties =>
      { d with members := d.members ++ properties, constructorParams := some params }
  | .method m hasBody => d.addMethod m hasBody
  | .field m => d.addMember m

theorem addElement_eq (d : Draft) (e : ClassElement) :
    d.addElement e = Part.ofElement? e >>= fun part => .ok (part.elim d d.add) := by
  cases e with
  | method m =>
      by_cases hkind : m.kind = .construct
      · simp only [addElement, Part.ofElement?, hkind, if_true]
        unfold addConstructor Part.ofConstructor?
        cases m.hasBody with
        | false => rfl
        | true => cases TypeExpr.ofParameters m.params <;> rfl
      · simp only [addElement, Part.ofElement?, hkind, if_false]
        rw [bind_assoc]
        refine congrArg (_ >>= ·) (funext fun found => ?_)
        cases found <;> rfl
  | property p =>
      simp only [addElement, Part.ofElement?]
      rw [bind_assoc]
      refine congrArg (_ >>= ·) (funext fun found => ?_)
      cases found <;> rfl
  | accessor p => rfl
  | indexSignature => rfl
  | staticBlock => rfl

/-- A body that can be lowered is worth the parts of its elements, one after the other. -/
theorem foldlM_addElement (elements : List ClassElement) (d : Draft) :
    elements.foldlM addElement d = elements.mapM Part.ofElement? >>= fun found =>
      .ok (found.reduceOption.foldl add d) := by
  induction elements generalizing d with
  | nil => rfl
  | cons e rest ih =>
      rw [List.foldlM_cons, List.mapM_cons, addElement_eq, bind_assoc, bind_assoc]
      refine congrArg (_ >>= ·) (funext fun part => ?_)
      change rest.foldlM addElement _ = _
      rw [ih, bind_assoc]
      refine congrArg (_ >>= ·) (funext fun found => ?_)
      cases part <;> rfl

def pending (d : Draft) : List Declared :=
  (d.signatures.head?.map fun m => ⟨m.name, .call, true⟩).toList

structure Proper (d : Draft) : Prop where
  signatures : ∀ m ∈ d.signatures, m.kind = .method ∧ m.readonly = false
  accessors : Member.PlainAccessors d.members

variable {d : Draft} {m first : Member} {more : List Member} {hasBody : Bool}

theorem addMethod_of_nil (h : d.signatures = []) : d.addMethod m hasBody =
    if !hasBody && m.kind == .method then { d with signatures := [m] } else d.addMember m := by
  simp [addMethod, h]

theorem addMethod_of_name_ne (h : d.signatures = first :: more) (hname : first.name ≠ m.name) :
    d.addMethod m hasBody = (d.close none).addMethod m hasBody := by
  simp [addMethod, close, h, hname]

theorem addMethod_of_name_eq (h : d.signatures = first :: more) (hname : first.name = m.name) :
    d.addMethod m hasBody = if !hasBody && m.kind == .method
      then { d with signatures := first :: (more ++ [m]) } else d.close (some m) := by
  simp [addMethod, h, hname]

theorem close_of_cons (h : d.signatures = first :: more) (implementation : Option Member) :
    d.close implementation =
      { d with
        members := d.members ++ [Member.foldOverloads first more implementation]
        signatures := [] } := by
  simp [close, h]

theorem offers_of_method (hkind : m.kind ≠ .property) :
    m.offers = [(m.name, Capability.ofKind m.kind)] := by
  unfold Member.offers Member.capabilities
  cases hm : m.kind with
  | property => exact absurd hm hkind
  | _ => rfl

theorem proper_empty : empty.Proper :=
  ⟨fun _ hm => absurd hm List.not_mem_nil, fun _ hm => absurd hm List.not_mem_nil⟩

theorem Proper.close (h : d.Proper) {implementation : Option Member}
    (hm : ∀ m ∈ implementation, m.readonly = false) : (d.close implementation).Proper := by
  unfold Draft.close
  split
  · exact h
  · next first more hsignatures =>
      refine ⟨fun m hm => absurd hm List.not_mem_nil, ?_⟩
      refine List.forall_mem_append.2 ⟨h.accessors, List.forall_mem_singleton.2 fun _ => ?_⟩
      cases implementation with
      | none => exact (h.signatures first (by simp [hsignatures])).2
      | some m => exact hm m rfl

theorem Proper.addMethod_of_nil (h : d.Proper) (hnil : d.signatures = [])
    (hreadonly : m.readonly = false) : (d.addMethod m hasBody).Proper := by
  rw [Draft.addMethod_of_nil hnil]
  split
  · next hsignature =>
      rw [Bool.and_eq_true, beq_iff_eq] at hsignature
      exact ⟨List.forall_mem_singleton.2 ⟨hsignature.2, hreadonly⟩, h.accessors⟩
  · exact ⟨h.signatures,
      List.forall_mem_append.2 ⟨h.accessors, List.forall_mem_singleton.2 fun _ => hreadonly⟩⟩

theorem Proper.add (h : d.Proper) {part : Part} (hpart : part.WellFormed) :
    (d.add part).Proper := by
  have fields {ms : List Member} (hms : ∀ m ∈ ms, m.kind = .property) :
      Member.PlainAccessors (d.members ++ ms) := by
    refine List.forall_mem_append.2 ⟨h.accessors, fun m hm haccessor => ?_⟩
    simp [Member.isAccessor, hms m hm] at haccessor
  cases part with
  | construct params properties => exact ⟨h.signatures, fields hpart⟩
  | field m => exact ⟨h.signatures, fields (List.forall_mem_singleton.2 hpart)⟩
  | method m hasBody =>
      change (d.addMethod m hasBody).Proper
      cases hsignatures : d.signatures with
      | nil => exact h.addMethod_of_nil hsignatures hpart.2
      | cons first more =>
          by_cases hname : first.name = m.name
          · rw [Draft.addMethod_of_name_eq hsignatures hname]
            split
            · next hsignature =>
                rw [Bool.and_eq_true, beq_iff_eq] at hsignature
                refine ⟨?_, h.accessors⟩
                rw [← List.cons_append, ← hsignatures]
                exact List.forall_mem_append.2
                  ⟨h.signatures, List.forall_mem_singleton.2 ⟨hsignature.2, hpart.2⟩⟩
            · exact h.close (by simp [hpart.2])
          · rw [Draft.addMethod_of_name_ne hsignatures hname]
            refine (h.close (by simp)).addMethod_of_nil ?_ hpart.2
            simp [Draft.close_of_cons hsignatures]

/-- What the members of a draft offer, and the overloaded method with what is still to come. -/
def promises (d : Draft) (rest : List Declared) : List (String × Capability) :=
  d.members.flatMap Member.offers ++ (Declared.counting (d.pending ++ rest)).map Declared.offer

theorem promises_addMethod_of_nil (hnil : d.signatures = []) (hkind : m.kind ≠ .property)
    (rest : List Declared) : (d.addMethod m hasBody).promises rest
      = d.promises ((Part.method m hasBody).declared?.toList ++ rest) := by
  rw [addMethod_of_nil hnil]
  cases hsignature : !hasBody && m.kind == .method with
  | true =>
      rw [Bool.and_eq_true, beq_iff_eq] at hsignature
      simp [promises, pending, hnil, Part.declared?, hsignature.1, hsignature.2, Capability.ofKind]
  | false =>
      simp [promises, pending, hnil, Part.declared?, hsignature, addMember, Declared.counting,
        offers_of_method hkind, Declared.offer]

theorem promises_close_none (hsignatures : d.signatures = first :: more)
    (hfirst : first.kind = .method) (rest : List Declared)
    (hrest : ∀ next ∈ rest.head?, next.name ≠ first.name) :
    (d.close none).promises rest = d.promises rest := by
  have hoffers : (Member.foldOverloads first more none).offers = [(first.name, .call)] := by
    rw [offers_of_method (by simp [Member.foldOverloads, hfirst])]
    simp [Member.foldOverloads, hfirst, Capability.ofKind]
  have hlast : (rest.head?.any fun next => next.name == first.name) = false := by
    simpa [Option.any_eq_false] using hrest
  rw [close_of_cons hsignatures]
  simp [promises, pending, hsignatures, hoffers, Declared.counting, hlast, Declared.offer]

theorem promises_addMethod (h : d.Proper) (hkind : m.kind ≠ .property) (rest : List Declared) :
    (d.addMethod m hasBody).promises rest
      = d.promises ((Part.method m hasBody).declared?.toList ++ rest) := by
  cases hsignatures : d.signatures with
  | nil => exact promises_addMethod_of_nil hsignatures hkind rest
  | cons first more =>
      have hfirst := (h.signatures first (by simp [hsignatures])).1
      by_cases hname : first.name = m.name
      · rw [addMethod_of_name_eq hsignatures hname]
        cases hsignature : !hasBody && m.kind == .method with
        | true =>
            rw [Bool.and_eq_true, beq_iff_eq] at hsignature
            simp [promises, pending, hsignatures, Part.declared?, hsignature.1, hsignature.2,
              Capability.ofKind, Declared.counting, hname]
        | false =>
            have hoffers : (Member.foldOverloads first more (some m)).offers
                = [(m.name, Capability.ofKind m.kind)] :=
              offers_of_method (m := Member.foldOverloads first more (some m)) hkind
            rw [if_neg (by simp), close_of_cons hsignatures]
            simp [promises, pending, hsignatures, Part.declared?, hsignature, Declared.counting,
              hname, hoffers, Declared.offer]
      · rw [addMethod_of_name_ne hsignatures hname, promises_addMethod_of_nil
          (by simp [close_of_cons hsignatures]) hkind]
        refine promises_close_none hsignatures hfirst _ fun next hnext => ?_
        obtain rfl : _ = next := Option.some.inj hnext
        exact fun heq => hname heq.symm

theorem promises_add (h : d.Proper) {part : Part} (hpart : part.WellFormed)
    (rest : List Declared) : ((d.add part).promises rest).Perm
      (part.members.flatMap Member.offers ++ d.promises (part.declared?.toList ++ rest)) := by
  have fields (ms : List Member) : ({ d with members := d.members ++ ms }.promises rest).Perm
      (ms.flatMap Member.offers ++ d.promises rest) := by
    simp only [promises, pending, List.flatMap_append, ← List.append_assoc]
    exact List.perm_append_comm.append_right _
  cases part with
  | construct params properties => exact fields properties
  | field m => exact fields [m]
  | method m hasBody => exact .of_eq (promises_addMethod h hpart.1 rest)

theorem offers_of_parts {parts : List Part} (h : d.Proper)
    (hparts : ∀ part ∈ parts, part.WellFormed) :
    (((parts.foldl add d).close none).members.flatMap Member.offers).Perm
        (parts.flatMap (fun part => part.members.flatMap Member.offers)
          ++ d.promises (parts.filterMap Part.declared?)) ∧
      Member.PlainAccessors ((parts.foldl add d).close none).members := by
  induction parts generalizing d with
  | nil =>
      refine ⟨.of_eq ?_, (h.close (by simp)).accessors⟩
      cases hsignatures : d.signatures with
      | nil => simp [close, promises, pending, hsignatures, Declared.counting]
      | cons first more =>
          have hfirst := (h.signatures first (by simp [hsignatures])).1
          have hclosed := promises_close_none hsignatures hfirst [] (by simp)
          rw [List.filterMap_nil, ← hclosed]
          simp [close_of_cons hsignatures, promises, pending, Declared.counting]
  | cons part parts ih =>
      obtain ⟨hpart, hparts⟩ := List.forall_mem_cons.1 hparts
      obtain ⟨hperm, hplain⟩ := ih (h.add hpart) hparts
      refine ⟨hperm.trans ?_, hplain⟩
      have hfirst := promises_add h hpart (parts.filterMap Part.declared?)
      have hrest : (part :: parts).filterMap Part.declared?
          = part.declared?.toList ++ parts.filterMap Part.declared? := by
        cases hdeclared : part.declared? <;> simp [hdeclared]
      rw [hrest, List.flatMap_cons]
      refine (hfirst.append_left _).trans ?_
      rw [← List.append_assoc]
      exact List.perm_append_comm.append_right _

end Draft

end Candidate

end ElementBridge
