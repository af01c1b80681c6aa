import ElementBridge.Proofs.Results
import ElementBridge.TypeExpr.OfNode

namespace ElementBridge

open ElementBridge.Tree

namespace Tree

namespace TypeNode

def alternatives : TypeNode → List TypeNode
  | .union members => members
  | t => [t]

def named (name : DottedName) (args : List TypeNode) : TypeNode :=
  match TypeExpr.isArrayName name.text, args with
  | true, [element] => .array element
  | _, _ => .reference name args

mutual

/-- A type in its plainest spelling, without the texts that are quoted in messages. -/
def plain : TypeNode → TypeNode
  | .keyword p => .keyword p
  | .array element => .array (plain element)
  | .readonly operand => plain operand
  | .operator _ => .operator ""
  | .parenthesized inner => plain inner
  | .union members => .union (plainMembers members)
  | .reference name args => named name (plainAll args)
  | .function params result => .function (plainParameters params) (plain result)
  | .literal kind _ => .literal kind ""
  | .object members => .object (plainSignatures members)
  | .tuple _ => .tuple ""
  | .other _ => .other ""

def plainAll : List TypeNode → List TypeNode
  | [] => []
  | t :: ts => plain t :: plainAll ts

def plainMembers : List TypeNode → List TypeNode
  | [] => []
  | t :: ts => (plain t).alternatives ++ plainMembers ts

def plainOption : Option TypeNode → Option TypeNode
  | none => none
  | some t => some (plain t)

def plainParameter : Parameter TypeNode → Parameter TypeNode
  | ⟨pattern, type, optional, hasDefault, accessibility, isReadonly, _⟩ =>
      ⟨pattern, plainOption type, optional, hasDefault, accessibility, isReadonly, ""⟩

def plainParameterList : List (Parameter TypeNode) → List (Parameter TypeNode)
  | [] => []
  | p :: ps => plainParameter p :: plainParameterList ps

def plainParameters : Parameters TypeNode → Parameters TypeNode
  | ⟨items, hasRest⟩ => ⟨plainParameterList items, hasRest⟩

def plainSignatures : List (Signature TypeNode) → List (Signature TypeNode)
  | [] => []
  | .property key optional type :: rest =>
      .property key optional (plainOption type) :: plainSignatures rest
  | .method kind key optional params result :: rest =>
      .method kind key optional (plainParameters params) (plainOption result)
        :: plainSignatures rest
  | .other _ :: rest => .other "" :: plainSignatures rest

end

variable {t : TypeNode} {name : DottedName}

theorem plain_readonly : (readonly t).plain = t.plain := rfl

theorem plain_parenthesized : (parenthesized t).plain = t.plain := rfl

theorem plain_array_reference (h : TypeExpr.isArrayName name.text = true) :
    (reference name [t]).plain = (array t).plain := by
  simp [plain, plainAll, named, h]

end TypeNode

end Tree

namespace TypeExpr

open TypeNode (alternatives plain plainAll plainMembers plainOption plainParameter
  plainParameterList plainParameters plainSignatures)

theorem ofMembers_append {ts us : List TypeNode} {es : List TypeExpr} :
    ofMembers (ts ++ us) = .ok es
      ↔ ∃ as, ofMembers ts = .ok as ∧ ∃ bs, ofMembers us = .ok bs ∧ as ++ bs = es := by
  induction ts generalizing es with
  | nil => simp [ofMembers]
  | cons t ts ih =>
      simp only [List.cons_append, ofMembers, bind_eq_ok, pure_eq_ok, ih]
      constructor
      · rintro ⟨e, he, _, ⟨as, has, bs, hbs, rfl⟩, rfl⟩
        exact ⟨_, ⟨e, he, as, has, rfl⟩, bs, hbs, List.append_assoc ..⟩
      · rintro ⟨_, ⟨e, he, as, has, rfl⟩, bs, hbs, rfl⟩
        exact ⟨e, he, _, ⟨as, has, bs, hbs, rfl⟩, (List.append_assoc ..).symm⟩

theorem ofMembers_alternatives (t : TypeNode) {es : List TypeExpr} :
    ofMembers t.alternatives = .ok es ↔ ∃ e, ofNode t = .ok e ∧ e.alternatives = es := by
  cases t with
  | union members =>
      simp only [TypeNode.alternatives, ofNode, bind_eq_ok, pure_eq_ok]
      constructor
      · exact fun h => ⟨_, ⟨es, h, rfl⟩, rfl⟩
      · rintro ⟨_, ⟨us, h, rfl⟩, rfl⟩
        exact h
  | _ => simp [TypeNode.alternatives, ofMembers]

theorem ofNode_named (name : DottedName) (args : List TypeNode) {e : TypeExpr} :
    ofNode (TypeNode.named name args) = .ok e ↔ ofNode (.reference name args) = .ok e := by
  unfold TypeNode.named
  split
  · next element harray => simp [ofNode, ofNodes, TypeExpr.named, harray]
  · rfl

mutual

theorem ofNode_plain : ∀ (t : TypeNode) {e : TypeExpr}, ofNode t.plain = .ok e ↔ ofNode t = .ok e
  | .keyword p, e => by rw [plain]
  | .array element, e => by simp [plain, ofNode, ofNode_plain element]
  | .readonly operand, e => by rw [plain, ofNode, ofNode_plain operand]
  | .operator _, e => by simp [plain, ofNode]
  | .parenthesized inner, e => by rw [plain, ofNode, ofNode_plain inner]
  | .union members, e => by simp [plain, ofNode, ofMembers_plain members]
  | .reference name args, e => by
      rw [plain, ofNode_named]
      simp [ofNode, ofNodes_plain args]
  | .function params result, e => by
      simp [plain, ofNode, ofParameters_plain params, ofNode_plain result]
  | .literal kind _, e => by cases kind <;> simp [plain, ofNode, ofLiteral]
  | .object members, e => by simp [plain, ofNode, ofSignatures_plain members]
  | .tuple _, e => by simp [plain, ofNode]
  | .other _, e => by simp [plain, ofNode]

theorem ofNodes_plain : ∀ (ts : List TypeNode) {es : List TypeExpr},
    ofNodes (plainAll ts) = .ok es ↔ ofNodes ts = .ok es
  | [], es => by rw [plainAll]
  | t :: ts, es => by simp [plainAll, ofNodes, ofNode_plain t, ofNodes_plain ts]

theorem ofMembers_plain : ∀ (ts : List TypeNode) {es : List TypeExpr},
    ofMembers (plainMembers ts) = .ok es ↔ ofMembers ts = .ok es
  | [], es => by rw [plainMembers]
  | t :: ts, es => by
      simp only [plainMembers, ofMembers_append, ofMembers_alternatives, ofNode_plain t,
        ofMembers_plain ts, ofMembers, bind_eq_ok, pure_eq_ok]
      constructor
      · rintro ⟨_, ⟨e, he, rfl⟩, rest⟩
        exact ⟨e, he, rest⟩
      · rintro ⟨e, he, rest⟩
        exact ⟨_, ⟨e, he, rfl⟩, rest⟩

theorem ofOption_plain (absent : TypeExpr) : ∀ (o : Option TypeNode) {e : TypeExpr},
    ofOption absent (plainOption o) = .ok e ↔ ofOption absent o = .ok e
  | none, e => by rw [plainOption]
  | some t, e => by rw [plainOption, ofOption, ofOption, ofNode_plain t]

theorem ofParameter_plain : ∀ (p : Parameter TypeNode) {q : Param},
    ofParameter (plainParameter p) = .ok q ↔ ofParameter p = .ok q
  | ⟨.name id, type, _, _, _, _, _⟩, q => by
      simp [plainParameter, ofParameter, ofOption_plain any type]
  | ⟨.destructured, _, _, _, _, _, _⟩, q => by simp [plainParameter, ofParameter]

theorem ofParameterList_plain : ∀ (ps : List (Parameter TypeNode)) {qs : List Param},
    ofParameterList (plainParameterList ps) = .ok qs ↔ ofParameterList ps = .ok qs
  | [], qs => by rw [plainParameterList]
  | p :: ps, qs => by
      simp [plainParameterList, ofParameterList, ofParameter_plain p,
        ofParameterList_plain ps]

theorem ofParameters_plain : ∀ (ps : Parameters TypeNode) {qs : List Param},
    ofParameters (plainParameters ps) = .ok qs ↔ ofParameters ps = .ok qs
  | ⟨_, true⟩, qs => by simp [plainParameters, ofParameters]
  | ⟨items, false⟩, qs => by
      rw [plainParameters, ofParameters, ofParameters, ofParameterList_plain items]

theorem ofSignatures_plain : ∀ (ms : List (Signature TypeNode)) {fields found : List Field},
    ofSignatures fields (plainSignatures ms) = .ok found ↔ ofSignatures fields ms = .ok found
  | [], fields, found => by rw [plainSignatures]
  | .property key optional type :: rest, fields, found => by
      simp [plainSignatures, ofSignatures, ofOption_plain any type,
        ofSignatures_plain rest]
  | .method kind key optional params result :: rest, fields, found => by
      simp [plainSignatures, ofSignatures, ofParameters_plain params,
        ofOption_plain (.primitive .void) result, ofSignatures_plain rest]
  | .other _ :: _, fields, found => by simp [plainSignatures, ofSignatures]

end

/-- Types that have one plainest spelling are one type, or none of them is any. -/
theorem ofNode_iff_of_plain_eq {t u : TypeNode} (h : t.plain = u.plain) {e : TypeExpr} :
    ofNode t = .ok e ↔ ofNode u = .ok e := by
  rw [← ofNode_plain t, h, ofNode_plain u]

end TypeExpr

end ElementBridge
