import ElementBridge.TypeExpr
import ElementBridge.Number.Double

namespace ElementBridge

inductive Shape where
  | record (fields : List Field)
  | alias (type : TypeExpr)
deriving DecidableEq, Repr

/-- A local type: an interface or an alias. Only interfaces have bases. -/
structure Interface where
  name : String
  bases : List String
  shape : Shape
deriving DecidableEq, Repr

/-- The value of an enum member; `numeral` is how a number is written. -/
inductive EnumValue where
  | text (s : String)
  | number (value : Number.Double) (numeral : String)
deriving DecidableEq, Repr

def EnumValue.isText : EnumValue → Bool
  | .text _ => true
  | .number _ _ => false

structure EnumMember where
  name : String
  value : EnumValue
deriving DecidableEq, Repr

structure Enumeration where
  name : String
  members : List EnumMember
deriving DecidableEq, Repr

def Shape.types : Shape → List TypeExpr
  | .record fields => fields.map (·.type)
  | .alias type => [type]

end ElementBridge
