import ElementBridge.Component
import ElementBridge.TypeExpr.OfNode

namespace ElementBridge

namespace Member

def isOpposite : MemberKind → MemberKind → Bool
  | .getter, .setter | .setter, .getter => true
  | _, _ => false

def isPartner (m n : Member) : Bool := n.name == m.name && isOpposite n.kind m.kind

def asProperty (m : Member) : Member :=
  { m with kind := .property, result := m.valueType, params := [] }

/-- The members with the first partner of `m` made a property, if the two have one type. -/
def joinPartner? (m : Member) : List Member → Option (List Member)
  | [] => none
  | n :: rest =>
      if m.isPartner n then
        if n.valueType = m.valueType then some (n.asProperty :: rest) else none
      else (joinPartner? m rest).map (n :: ·)

def addAccessor (members : List Member) (m : Member) : List Member :=
  (joinPartner? m members).getD (members ++ [m])

/-- A getter and a setter of one name and type as one property, in the place of the first. -/
def pairAccessors (members : List Member) : List Member := members.foldl addAccessor []

end Member

def TypeExpr.unionOf (types : List TypeExpr) : TypeExpr :=
  match (types.flatMap alternatives).eraseDups with
  | [t] => t
  | ts => .union ts

namespace Member

/-- The parameter that stands for those at one position of the signatures. It has the name that the
implementation gives it, or else the first signature that reaches so far. -/
def foldedParam (signatures : List Member) (implementation : Option Member) (index : Nat) : Param :=
  let there := signatures.filterMap (·.params[index]?)
  let named := (implementation.bind (·.params[index]?)).or there.head?
  { name := (named.map (·.name)).getD ("arg" ++ toString index)
    type := TypeExpr.unionOf (there.map (·.type))
    optional := there.length < signatures.length || there.any (·.optional) }

def foldedResult (signatures : List Member) : Option TypeExpr :=
  if signatures.all (·.result.isNone) then none
  else some (TypeExpr.unionOf (signatures.map (·.result.getD TypeExpr.any)))

/-- One method for all signatures of an overloaded one. The implementation gives no types. -/
def foldOverloads (first : Member) (rest : List Member) (implementation : Option Member) : Member :=
  let signatures := first :: rest
  let arity := (signatures.map (·.params.length)).foldl max 0
  { implementation.getD first with
    params := (List.range arity).map (foldedParam signatures implementation)
    result := foldedResult signatures }

end Member

end ElementBridge
