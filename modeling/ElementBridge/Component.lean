import ElementBridge.TypeExpr

namespace ElementBridge

/-- How a class leaves its module; an unexported one is reachable through its tag only. -/
inductive Export where
  | named | default | unexported
deriving DecidableEq, Repr

structure Component where
  name : String
  hostBase : String
  «export» : Export
  constructorParams : Option (List Param)
  tag : Option String
deriving DecidableEq, Repr

namespace Component

def facadeName (c : Component) : String := c.name ++ "ClosureInterface"

def params (c : Component) : List Param := c.constructorParams.getD []

/-- Whether an instance is made by calling the constructor, and not from the tag. -/
def isConstructed (c : Component) : Bool := !c.params.isEmpty || c.tag.isNone

end Component

inductive MemberKind where
  | method | property | getter | setter
deriving DecidableEq, Repr

inductive Visibility where
  | stated | implied
deriving DecidableEq, Repr

/-- A public member. `result` is what a method or getter returns and what a property holds. -/
structure Member where
  name : String
  kind : MemberKind
  params : List Param
  result : Option TypeExpr
  visibility : Visibility
  optional : Bool
  readonly : Bool
deriving DecidableEq, Repr

namespace Member

def valueType (m : Member) : Option TypeExpr :=
  match m.kind with
  | .setter => m.params.head?.map (·.type)
  | _ => m.result

def types (m : Member) : List TypeExpr := m.params.map (·.type) ++ m.result.toList

end Member

end ElementBridge
