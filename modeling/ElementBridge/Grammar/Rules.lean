import ElementBridge.Grammar.Cursor

namespace ElementBridge

open ElementBridge.Tree

/-- The constructs that contain each other, one level of nesting further in. `fuel` bounds the
repetitions at this level. -/
structure Rules where
  fuel : Nat
  type : Parser TypeNode
  expression : Parser Operand
  /-- An expression without commas. In the middle of a conditional (`false`), an arrow function with
  a written result type counts only before a colon. -/
  assignment : Bool → Parser Operand
  chain : Parser Operand
  statement : Parser (List Expr)
  pattern : Parser (Pattern × List Expr)

namespace Rules

variable (r : Rules)

/-- An assignment where all of the grammar is open again. -/
def value : Parser Expr :=
  return (← Parser.within (fun c => { c with inOperator := true, decorator := false })
    (r.assignment true)).expr

/-- An expression in parentheses or brackets, where `in` is an operator again. -/
def inner : Parser Expr :=
  return (← Parser.within (fun c => { c with inOperator := true, decorator := false })
    r.expression).expr

def block : Parser (List Expr) := do
  Parser.expect .openBrace
  let parts ← Parser.many r.fuel do
    if ← Parser.is .closeBrace then return none
    some <$> r.statement
  Parser.expect .closeBrace
  return parts.flatten

/-- The body of a function, which starts afresh with respect to `await`, `yield` and `return`. -/
def body (async generator : Bool) : Parser (List Expr) :=
  Parser.within (fun c =>
    { c with inOperator := true, decorator := false, returns := true, await := async,
             yield := generator })
    r.block

end Rules

end ElementBridge
