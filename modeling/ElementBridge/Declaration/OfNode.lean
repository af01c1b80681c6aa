import ElementBridge.Declaration
import ElementBridge.TypeExpr.OfNode
import ElementBridge.Number.Literal
import ElementBridge.Number.Positional

namespace ElementBridge

open ElementBridge.Tree

namespace Interface

def baseName (h : Heritage) : Except Obstacle String :=
  match h.base with
  | some name => .ok name
  | none => .error (.heritage h.source)

def ofNode (node : InterfaceNode) : Except Obstacle Interface :=
  if node.generic then .error .genericInterface
  else do
    let bases ← node.heritage.mapM baseName
    let fields ← TypeExpr.ofSignatures [] node.members
    return ⟨node.name.text, bases, .record fields⟩

end Interface

def Shape.ofNode : TypeNode → Except Obstacle Shape
  | .object members => do return .record (← TypeExpr.ofSignatures [] members)
  | t => do return .alias (← TypeExpr.ofNode t)

def Interface.ofAlias (node : AliasNode) : Except Obstacle Interface :=
  if node.generic then .error .genericAlias
  else do return ⟨node.name.text, [], ← Shape.ofNode node.type⟩

namespace EnumValue

open Number

def counted (value : Double) : EnumValue := .number value value.toText

def ofInitializer (init : Quoted) : Except Obstacle EnumValue :=
  match init.expr with
  | .number literal => .ok (.number (literalValue literal) literal)
  | .negated (.number literal) => .ok (.number (literalValue literal).neg ("-" ++ literal))
  | .string s => .ok (.text s)
  | _ => .error (.computedInitializer init.source)

def successor : EnumValue → Option Double
  | .number value _ => some value.addOne
  | .text _ => none

end EnumValue

namespace Enumeration

open Number

def memberValue (next : Option Double) (name : String) (init : Option Quoted) :
    Except Obstacle EnumValue :=
  match init, next with
  | some init, _ => EnumValue.ofInitializer init
  | none, some value => .ok (EnumValue.counted value)
  | none, none => .error (.missingInitializer name)

/-- The members of an enum; `next` is the value of one without initializer. -/
def membersFrom (next : Option Double) : List EnumMemberNode → Except Obstacle (List EnumMember)
  | [] => .ok []
  | ⟨none, _, source⟩ :: _ => .error (.computedMember source)
  | ⟨some name, init, _⟩ :: rest => do
      let value ← memberValue next name init
      return ⟨name, value⟩ :: (← membersFrom value.successor rest)

def isMixed (ms : List EnumMember) : Bool :=
  ms.any (·.value.isText) && ms.any (!·.value.isText)

def ofNode (node : EnumNode) : Except Obstacle Enumeration := do
  let ms ← membersFrom (some .zero) node.members
  if isMixed ms then .error .mixedEnum else return ⟨node.name.text, ms⟩

end Enumeration

end ElementBridge
