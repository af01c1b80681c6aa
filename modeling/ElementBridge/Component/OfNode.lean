import ElementBridge.Config
import ElementBridge.Component.Members

namespace ElementBridge

open ElementBridge.Tree

structure Refusal where
  context : String
  obstacle : Obstacle
deriving DecidableEq, Repr

def Obstacle.at (context : String) (o : Obstacle) : Refusal := ⟨context, o⟩

structure Candidate where
  component : Component
  members : List Member
deriving DecidableEq, Repr

namespace Candidate

/-- Private and protected elements have no visibility. -/
def visibilityOf : Option Accessibility → Option Visibility
  | none => some .implied
  | some .publicly => some .stated
  | some _ => none

def publicName (isStatic : Bool) (key : Key) (access : Option Accessibility) :
    Option (String × Visibility) :=
  if isStatic || key.form == .computed then none
  else (visibilityOf access).bind fun v => key.name?.map fun name => (name, v)

def memberKind : MethodKind → MemberKind
  | .getter => .getter
  | .setter => .setter
  | _ => .method

def lowerMethod (m : Method) : Except Refusal (Option Member) :=
  match publicName m.isStatic m.key m.accessibility with
  | none => .ok none
  | some (name, visibility) => do
      let params ← (TypeExpr.ofParameters m.params).mapError (Obstacle.at name)
      let result ← (m.result.mapM TypeExpr.ofNode).mapError (Obstacle.at name)
      return some
        { name, params, result, visibility
          kind := memberKind m.kind
          optional := m.optional
          readonly := false }

def lowerProperty (p : Property) : Except Refusal (Option Member) :=
  match publicName p.isStatic p.key p.accessibility with
  | none => .ok none
  | some (name, visibility) => do
      let type ← (TypeExpr.ofOption TypeExpr.any p.type).mapError (Obstacle.at name)
      return some
        { name, visibility
          kind := .property
          params := []
          result := some type
          optional := p.optional
          readonly := p.readonly }

/-- A parameter that is a property too: one called public, or `readonly` and nothing else. -/
def parameterProperty (p : Parameter TypeNode) (param : Param) : Option Member :=
  let visibility := match p.accessibility, p.readonly with
    | some .publicly, _ => some Visibility.stated
    | none, true => some .implied
    | _, _ => none
  visibility.map fun visibility =>
    { visibility
      name := param.name
      kind := .property
      params := []
      result := some param.type
      optional := param.optional
      readonly := p.readonly }

/-- What is known of a class after some of its elements. `signatures` are those of the method that
is being overloaded. -/
structure Draft where
  constructorParams : Option (List Param)
  members : List Member
  signatures : List Member
deriving DecidableEq, Repr

namespace Draft

def empty : Draft := ⟨none, [], []⟩

def close (d : Draft) (implementation : Option Member) : Draft :=
  match d.signatures with
  | [] => d
  | first :: rest =>
      { d with
        members := d.members ++ [Member.foldOverloads first rest implementation]
        signatures := [] }

def addMember (d : Draft) (m : Member) : Draft := { d with members := d.members ++ [m] }

/-- Adds a method or accessor. A method without a body is a signature of what follows under its
name. -/
def addMethod (d : Draft) (m : Member) (hasBody : Bool) : Draft :=
  let d := if d.signatures.head?.any (·.name != m.name) then d.close none else d
  if !hasBody && m.kind == .method then { d with signatures := d.signatures ++ [m] }
  else if d.signatures.isEmpty then d.addMember m
  else d.close (some m)

def addConstructor (d : Draft) (m : Method) : Except Refusal Draft :=
  if !m.hasBody then .ok d
  else do
    let params ← (TypeExpr.ofParameters m.params).mapError (Obstacle.at "constructor")
    let properties := (m.params.items.zip params).filterMap fun (p, q) => parameterProperty p q
    return { d with members := d.members ++ properties, constructorParams := some params }

def addElement (d : Draft) : ClassElement → Except Refusal Draft
  | .method m =>
      if m.kind = .construct then d.addConstructor m
      else do return (← lowerMethod m).elim d fun member => d.addMethod member m.hasBody
  | .property p => do return (← lowerProperty p).elim d d.addMember
  | .accessor _ | .indexSignature | .staticBlock => .ok d

end Draft

def ofNode? (config : Config) (kind : Export) (node : ClassNode) :
    Except Refusal (Option Candidate) :=
  match node.base with
  | some (.name base) =>
      if !config.isHostBase base then .ok none
      else match node.name with
        | none => .error ⟨"export default", .anonymousClass⟩
        | some name => do
            let draft ← node.elements.foldlM Draft.addElement .empty
            let draft := draft.close none
            return some ⟨⟨name.text, base, kind, draft.constructorParams, none⟩,
              Member.pairAccessors draft.members⟩
  | _ => .ok none

end Candidate

end ElementBridge
