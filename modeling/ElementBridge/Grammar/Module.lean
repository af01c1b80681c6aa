import ElementBridge.Grammar.Statements

/-!
Modules. The rules of the grammar refer to each other through `Rules`, which is tied here: each
level of nesting uses the level below.
-/

namespace ElementBridge.Grammar

open ElementBridge.Tree ElementBridge.Parser

def rules : Nat → Rules
  | 0 => ⟨0, failure, failure, fun _ => failure, failure, failure, failure⟩
  | n + 1 =>
      { fuel := n
        type := fun c => typeNode (rules n) c
        expression := fun c => expression (rules n) c
        assignment := fun outside c => assignment (rules n) outside c
        chain := fun c => chain (rules n) c
        statement := fun c => (do return (← statement (rules n)).2 : Parser (List Expr)) c
        pattern := fun c => bindingPattern (rules n) c }

def moduleItem (r : Rules) : Parser (Option Statement) := do
  if (← token) == .endOfText then return none
  let (kept, inside) ← statement r
  return some (kept.getD (.other inside))

def moduleItems (r : Rules) : Parser Module := do
  let items ← many r.fuel (moduleItem r)
  unless (← get).openDefaults == 0 do failure
  return items

def dropHashbang : List Char → List Char
  | '#' :: '!' :: rest => rest.dropWhile (!Scan.isLineBreak ·)
  | text => text

/-- A depth that no text exceeds: each level of nesting takes at least one letter, and each letter
opens a few levels at most. -/
def depth (text : List Char) : Nat := 8 * text.length + 16

def parse (text : List Char) : Option Module :=
  (moduleItems (rules (depth text)) (Cursor.ofText (dropHashbang text))).map (·.1)

end ElementBridge.Grammar

namespace ElementBridge

def Tree.Module.ofText? (text : String) : Option Tree.Module := Grammar.parse text.toList

end ElementBridge
