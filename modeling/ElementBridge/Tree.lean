import ElementBridge.Token
import ElementBridge.TypeExpr

/-!
The part of a TypeScript module that a bridge depends on. A node that may be quoted in a message
carries its source text, so that no function on trees looks at positions.
-/

namespace ElementBridge.Tree

inductive Accessibility where
  | publicly | protectedly | privately
deriving DecidableEq, Repr

inductive KeyForm where
  | identifier (name : String)
  | text (value : String)
  | number
  | hash (name : String)
  | computed
deriving DecidableEq, Repr

/-- The key of a member. The source of a computed one is the expression between the brackets. -/
structure Key where
  form : KeyForm
  source : String
deriving DecidableEq, Repr

def Key.name? (k : Key) : Option String :=
  match k.form with
  | .identifier n => some n
  | .text v => some v
  | _ => none

def Key.isHidden (k : Key) : Bool :=
  match k.form with
  | .hash _ => true
  | _ => false

inductive Pattern where
  | name (id : Name)
  | destructured
deriving DecidableEq, Repr

structure Parameter (τ : Type) where
  pattern : Pattern
  type : Option τ
  optional : Bool
  hasDefault : Bool
  accessibility : Option Accessibility
  readonly : Bool
  source : String
deriving Repr

/-- Parameters in parentheses; a `this` parameter is not among them. -/
structure Parameters (τ : Type) where
  items : List (Parameter τ)
  hasRest : Bool
deriving Repr

inductive SignatureKind where
  | method | getter | setter
deriving DecidableEq, Repr

inductive Signature (τ : Type) where
  | property (key : Key) (optional : Bool) (type : Option τ)
  | method (kind : SignatureKind) (key : Key) (optional : Bool) (params : Parameters τ)
      (result : Option τ)
  | other (source : String)
deriving Repr

inductive LiteralKind where
  | string | number | boolean | bigint
deriving DecidableEq, Repr

inductive TypeNode where
  | keyword (p : Primitive)
  | array (element : TypeNode)
  | readonly (operand : TypeNode)
  | operator (source : String)
  | parenthesized (inner : TypeNode)
  | union (members : List TypeNode)
  | reference (name : DottedName) (args : List TypeNode)
  | function (params : Parameters TypeNode) (result : TypeNode)
  | literal (kind : LiteralKind) (source : String)
  | object (members : List (Signature TypeNode))
  | tuple (source : String)
  | other (source : String)
deriving Repr

def TypeNode.isSequence : TypeNode → Bool
  | .array _ | .tuple _ => true
  | _ => false

/-- An expression, as far as registrations, bases and enum values depend on it. `other` keeps the
expressions inside in source order. -/
inductive Expr where
  | name (id : String)
  | string (value : String)
  | number (literal : String)
  | negated (operand : Expr)
  | member (object : Expr) (property : String)
  | call (callee : Expr) (args : List Expr)
  | other (parts : List Expr)
deriving Repr

structure Quoted where
  expr : Expr
  source : String
deriving Repr

/-- An entry of an `extends` list; `base` is a plain name without type arguments. -/
structure Heritage where
  base : Option String
  source : String
deriving DecidableEq, Repr

structure InterfaceNode where
  name : Name
  generic : Bool
  heritage : List Heritage
  members : List (Signature TypeNode)
deriving Repr

structure AliasNode where
  name : Name
  generic : Bool
  type : TypeNode
deriving Repr

/-- A member of an enum; `name` is `none` for a computed one. -/
structure EnumMemberNode where
  name : Option String
  initializer : Option Quoted
  source : String
deriving Repr

structure EnumNode where
  name : Name
  members : List EnumMemberNode
deriving Repr

inductive MethodKind where
  | construct | method | getter | setter
deriving DecidableEq, Repr

structure Method where
  kind : MethodKind
  key : Key
  isStatic : Bool
  accessibility : Option Accessibility
  optional : Bool
  params : Parameters TypeNode
  result : Option TypeNode
  hasBody : Bool
deriving Repr

structure Property where
  key : Key
  isStatic : Bool
  accessibility : Option Accessibility
  optional : Bool
  readonly : Bool
  type : Option TypeNode
deriving Repr

inductive ClassElement where
  | method (m : Method)
  | property (p : Property)
  | accessor (p : Property)
  | indexSignature
  | staticBlock
deriving Repr

structure ClassNode where
  name : Option Name
  base : Option Expr
  elements : List ClassElement
deriving Repr

inductive Declaration where
  | interface (node : InterfaceNode)
  | alias (node : AliasNode)
  | enum (node : EnumNode)
  | classDef (node : ClassNode)
  | other
deriving Repr

inductive ImportBinding where
  | named (imported : String) (typeOnly : Bool)
  | default
  | whole
deriving DecidableEq, Repr

/-- An import declaration; `specifiers` is `none` for a bare `import '…'`. -/
structure Import where
  module : String
  typeOnly : Bool
  specifiers : Option (List (String × ImportBinding))
deriving DecidableEq, Repr

inductive Statement where
  | importFrom (node : Import)
  | declare (node : Declaration)
  | exportDeclaration (node : Declaration)
  | exportNames (exported : List String) (module : Option String)
  | exportAll (name : Option String) (module : String)
  | exportDefault (node : Option ClassNode)
  | other (parts : List Expr)
deriving Repr

abbrev Module := List Statement

end ElementBridge.Tree
