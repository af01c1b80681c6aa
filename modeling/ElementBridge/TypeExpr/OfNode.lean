import ElementBridge.Text.Letter
import ElementBridge.Tree
import ElementBridge.Obstacle

/-!
Types of a bridge from the types of a source. A type outside the bridgeable part is refused with
the first obstacle from left to right.
-/

namespace ElementBridge

open ElementBridge.Tree

def Tree.Key.fieldName (k : Key) : Except Obstacle String :=
  match k.form, k.name? with
  | .computed, _ => .error (.computedKey k.source)
  | _, some n => if Text.isBareKey n then .ok n else .error (.nonIdentifierKey k.source)
  | _, none => .error (.unnamedKey k.source)

namespace TypeExpr

def isArrayName (name : String) : Bool := name == "Array" || name == "ReadonlyArray"

/-- A named type. With one argument the names of arrays are another spelling of `T[]`. -/
def named (name : String) (args : List TypeExpr) : TypeExpr :=
  match isArrayName name, args with
  | true, [element] => .array element
  | _, _ => .reference name args

def alternatives : TypeExpr → List TypeExpr
  | .union members => members
  | t => [t]

def ofLiteral (kind : LiteralKind) (source : String) : Except Obstacle TypeExpr :=
  match kind with
  | .string => .ok (.primitive .string)
  | .number => .ok (.primitive .number)
  | .boolean => .ok (.primitive .boolean)
  | .bigint => .error (.literalType source)

def hasField (fields : List Field) (name : String) : Bool := fields.any (·.name == name)

/-- The field that an accessor or method stands for. A setter adds nothing to a field
of its name. -/
def addMethod (fields : List Field) (kind : SignatureKind) (name : String) (optional : Bool)
    (params : List Param) (result : TypeExpr) : List Field :=
  match kind with
  | .method => fields ++ [⟨name, .function (params.map (·.type)) result, optional⟩]
  | .getter => fields ++ [⟨name, result, optional⟩]
  | .setter =>
      if hasField fields name then fields
      else fields ++ [⟨name, (params.head?.map (·.type)).getD any, optional⟩]

mutual

def ofNode : TypeNode → Except Obstacle TypeExpr
  | .keyword p => .ok (.primitive p)
  | .array element => do return .array (← ofNode element)
  | .readonly operand => ofNode operand
  | .operator source => .error (.typeOperator source)
  | .parenthesized inner => ofNode inner
  | .union members => do return .union (← ofMembers members)
  | .reference name args => do return named name.text (← ofNodes args)
  | .function params result => do
      let params ← ofParameters params
      return .function (params.map (·.type)) (← ofNode result)
  | .literal kind source => ofLiteral kind source
  | .object members => do return .record (← ofSignatures [] members)
  | .tuple source | .other source => .error (.typeForm source)

def ofNodes : List TypeNode → Except Obstacle (List TypeExpr)
  | [] => .ok []
  | t :: ts => do
      let t ← ofNode t
      return t :: (← ofNodes ts)

def ofMembers : List TypeNode → Except Obstacle (List TypeExpr)
  | [] => .ok []
  | t :: ts => do
      let t ← ofNode t
      return t.alternatives ++ (← ofMembers ts)

def ofOption (absent : TypeExpr) : Option TypeNode → Except Obstacle TypeExpr
  | none => .ok absent
  | some t => ofNode t

def ofParameter : Parameter TypeNode → Except Obstacle Param
  | ⟨.name id, type, optional, _, _, _, _⟩ => do
      return ⟨id.text, ← ofOption any type, optional⟩
  | ⟨.destructured, _, _, _, _, _, source⟩ => .error (.destructured source)

def ofParameterList : List (Parameter TypeNode) → Except Obstacle (List Param)
  | [] => .ok []
  | p :: ps => do
      let p ← ofParameter p
      return p :: (← ofParameterList ps)

def ofParameters : Parameters TypeNode → Except Obstacle (List Param)
  | ⟨_, true⟩ => .error .restParameters
  | ⟨items, false⟩ => ofParameterList items

def ofSignatures (fields : List Field) : List (Signature TypeNode) → Except Obstacle (List Field)
  | [] => .ok fields
  | .property key optional type :: rest => do
      let name ← key.fieldName
      let type ← ofOption any type
      ofSignatures (fields ++ [⟨name, type, optional⟩]) rest
  | .method kind key optional params result :: rest => do
      let name ← key.fieldName
      let params ← ofParameters params
      let result ← ofOption (.primitive .void) result
      ofSignatures (addMethod fields kind name optional params result) rest
  | .other source :: _ => .error (.signature source)

end

end TypeExpr

end ElementBridge
