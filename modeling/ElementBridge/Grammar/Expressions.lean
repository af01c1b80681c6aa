import ElementBridge.Grammar.Classes

/-!
Expressions. The precedence of binary operators has no part in what a bridge depends on, so an
operator expression is the row of its operands.
-/

namespace ElementBridge.Grammar

open ElementBridge.Tree ElementBridge.Parser

variable (r : Rules)

def plain (e : Expr) : Operand := ⟨e, .none⟩

def parts (es : List Expr) : Operand := ⟨.other es, .none⟩

/-- A pattern on the left of an assignment closes the shorthand defaults inside it. -/
def closeDefaults (count : Nat) : Parser Unit := modify fun c => { c with openDefaults := count }

def arguments : Parser (List Expr) := do
  expect .openParen
  let args ← commaList r.fuel .closeParen do
    if ← eat .ellipsis then return .other [← r.value]
    r.value
  expect .closeParen
  return args

def templateParts : Parser (List Expr) := do
  if (← token) == .template then
    advance
    return []
  advance
  iterate (fun es => do
    let e ← r.inner
    if ← templateRest then return .inl (es ++ [e]) else return .inr (es ++ [e])) r.fuel []

def arrayLiteral : Parser (List Expr) := do
  expect .openBracket
  let items ← commaList r.fuel .closeBracket do
    if ← is .comma then return []
    if ← eat .ellipsis then return [Expr.other [← r.value]]
    return [← r.value]
  expect .closeBracket
  return items.flatten

def objectMethod (kind : MethodKind) (async generator : Bool) : Parser (List Expr) := do
  let f ← callable r async generator
  unless f.hasBody && validAccessor kind f.params do failure
  return f.parts

def objectMember : Parser (List Expr) := do
  if ← eat .ellipsis then return [← r.value]
  if ← accessorWord .get then
    advance
    let (_, keyParts) ← memberKey r
    return keyParts ++ (← objectMethod r .getter false false)
  if ← accessorWord .set then
    advance
    let (_, keyParts) ← memberKey r
    return keyParts ++ (← objectMethod r .setter false false)
  let async ← ahead do
    expectWord .async
    advance
    return followsModifier (← token) && !(← afterBreak)
  if async then advance
  let generator ← eat .star
  let c ← get
  let (key, keyParts) ← memberKey r
  if async || generator || (← opensCall) then
    return keyParts ++ (← objectMethod r .method async generator)
  if ← eat .colon then return keyParts ++ [← r.value]
  match key.form with
  | .identifier name =>
      unless isBinding c.context c.token do failure
      if ← eat .equals then
        modify fun c => { c with openDefaults := c.openDefaults + 1 }
        return [.name name, ← r.value]
      return [.name name]
  | _ => failure

def objectLiteral : Parser (List Expr) := do
  expect .openBrace
  let items ← commaList r.fuel .closeBrace (objectMember r)
  expect .closeBrace
  return items.flatten

def atAsyncFunction : Parser Bool :=
  ahead do
    expectWord .async
    return !(← afterBreak) && (← isWord .function)

def functionExpression : Parser Operand := do
  let async ← eatWord .async
  expectWord .function
  let generator ← eat .star
  if ← within (fun c => { c with await := async, yield := generator }) atBinding then advance
  let f ← callable r async generator
  unless f.hasBody do failure
  return parts f.parts

def classExpression : Parser Operand := do
  let decorations ← decorators r
  expectWord .class_
  let (_, inside) ← classRest r
  return parts (decorations ++ inside)

def parenthesized : Parser Operand := do
  expect .openParen
  let e ← within (fun c => { c with inOperator := true, decorator := false }) r.expression
  expect .closeParen
  return ⟨.other [e.expr], if e.target == .pattern then .none else e.target⟩

def literal (e : Expr) : Parser Operand := do
  advance
  return plain e

def primary : Parser Operand := do
  let c ← get
  match c.token with
  | .word w k =>
      if isBinding c.context c.token then
        if ← atAsyncFunction then functionExpression r
        else
          advance
          return ⟨.name w.text, .name⟩
      else match k with
        | some .this | some .null | some .true_ | some .false_ => literal (.other [])
        | some .super => do
            advance
            unless (← is .dot) || (← is .openParen) || (← is .openBracket) do failure
            return plain (.other [])
        | some .function => functionExpression r
        | some .class_ => classExpression r
        | _ => failure
  | .string value => literal (.string value)
  | .number => literal (.number c.spelling)
  | .bigint => literal (.other [])
  | .template | .templateHead => return parts (← templateParts r)
  | .hashName _ => do
      advance
      unless ← isWord .in_ do failure
      return parts []
  | .mark .openBracket => return ⟨.other (← arrayLiteral r), .pattern⟩
  | .mark .openBrace => return ⟨.other (← objectLiteral r), .pattern⟩
  | .mark .openParen => parenthesized r
  | .mark .slash | .mark .slashAssign => do
      regex
      return parts []
  | .mark .at => classExpression r
  | _ => failure

/-- Tokens behind type arguments that leave them type arguments, and not comparisons. -/
def endsTypeArguments : Parser Bool := do
  let c ← get
  match c.token with
  | .mark .openParen | .template | .templateHead => return true
  | .mark .less | .mark .shiftLeft | .mark .greater | .mark .plus | .mark .minus => return false
  | .mark .openBrace | .mark .openBracket | .mark .bang | .mark .tilde | .mark .plusPlus
  | .mark .minusMinus | .mark .at | .mark .slash | .mark .slashAssign => return c.afterBreak
  | .mark _ | .endOfText => return true
  | .word _ (some .in_) | .word _ (some .instanceof) | .word _ (some .as)
  | .word _ (some .satisfies) => return true
  | .word _ (some k) => return c.afterBreak || (k.isReserved && [Keyword.extends_, .case_, .default,
      .else_, .catch_, .finally_, .while_].contains k)
  | _ => return c.afterBreak

def callTypeArguments : Parser Bool := do
  unless (← is .less) || (← is .shiftLeft) do return false
  return (← attempt do
    let _ ← typeArguments r
    unless ← endsTypeArguments do failure).isSome

def templateNext : Parser Bool := return (← token) == .template || (← token) == .templateHead

def memberName : Parser (Option String) := do
  match ← token with
  | .hashName _ => advance; return none
  | _ => return some (← anyName).text

def access (object : Expr) (name : Option String) : Operand :=
  match name with
  | some name => ⟨.member object name, .member⟩
  | none => ⟨.other [object], .member⟩

/-- One access, call or mark behind an expression. `calls` is `false` behind `new`; `chained` tells
that a `?.` came before. -/
def chainStep (calls : Bool) (e : Operand) (chained : Bool) :
    Parser ((Operand × Bool) ⊕ (Operand × Bool)) := do
  let c ← get
  match c.token with
  | .mark .dot => do
      advance
      return .inl (access e.expr (← memberName), chained)
  | .mark .questionDot => do
      unless calls do failure
      advance
      if ← is .openBracket then
        advance
        let index ← r.inner
        expect .closeBracket
        return .inl (plain (.other [e.expr, index]), true)
      else
        let _ ← callTypeArguments r
        if ← is .openParen then return .inl (plain (.call e.expr (← arguments r)), true)
        if ← templateNext then failure
        return .inl (plain (access e.expr (← memberName)).expr, true)
  | .mark .openBracket => do
      if c.context.decorator then return .inr (e, chained)
      advance
      let index ← r.inner
      expect .closeBracket
      return .inl (⟨.other [e.expr, index], .member⟩, chained)
  | .mark .bang => do
      if c.afterBreak then return .inr (e, chained)
      advance
      return .inl (⟨.other [e.expr], e.target⟩, chained)
  | .mark .openParen => do
      unless calls do return .inr (e, chained)
      return .inl (plain (.call e.expr (← arguments r)), chained)
  | .template | .templateHead => do
      if chained then failure
      return .inl (parts (e.expr :: (← templateParts r)), chained)
  | .mark .less | .mark .shiftLeft => do
      if ← callTypeArguments r then
        if calls && (← is .openParen) then
          return .inl (plain (.call e.expr (← arguments r)), chained)
        if ← templateNext then
          return .inl (parts (e.expr :: (← templateParts r)), chained)
        if calls then return .inl (parts [e.expr], chained)
        return .inr (e, chained)
      return .inr (e, chained)
  | _ => return .inr (e, chained)

def chainFrom (calls : Bool) (e : Operand) : Parser Operand := do
  let (e, chained) ← iterate (fun (e, chained) => chainStep r calls e chained) r.fuel (e, false)
  return if chained && e.target == .member then plain e.expr else e

/-- `new`, its constructor and its arguments. The recursion follows repeated `new`. -/
def newExpression : Nat → Parser Operand
  | 0 => failure
  | n + 1 => do
      expectWord .new
      if ← eat .dot then
        expectWord .target
        return parts []
      let callee ←
        if ← isWord .new then newExpression n
        else if ← isWord .import_ then failure
        else chainFrom r false (← primary r)
      let args ← if ← is .openParen then arguments r else pure []
      return parts (callee.expr :: args)

def importExpression : Parser Operand := do
  expectWord .import_
  if ← eat .dot then
    let name := (← anyName).text
    if name == "meta" then return parts []
    unless name == "defer" || name == "source" do failure
  let args ← arguments r
  if args.isEmpty then failure
  return parts args

def chain : Parser Operand := do
  let first ←
    if ← isWord .new then newExpression r r.fuel
    else if ← isWord .import_ then importExpression r
    else primary r
  chainFrom r true first

def isTarget (t : Target) : Bool := t == .name || t == .member

def postfixExpression : Parser Operand := do
  let e ← chain r
  if ((← is .plusPlus) || (← is .minusMinus)) && !(← afterBreak) then
    unless isTarget e.target do failure
    advance
    return parts [e.expr]
  return e

def infixWords : List Keyword := [.in_, .instanceof, .as, .satisfies, .of]

/-- Whether `await` is meant as an operator: always where functions may wait, elsewhere before an
operand on its line. -/
def atAwait : Parser Bool := do
  let c ← get
  unless ← isWord .await do return false
  if c.context.await then return true
  ahead do
    advance
    let c ← get
    return !c.afterBreak && match c.token with
      | .word _ (some k) => !infixWords.contains k
      | .word _ none | .string _ | .number | .bigint | .template | .templateHead => true
      | _ => false

/-- Unary operators and the operand behind them. The power operator takes no operand with a unary
operator on its left. -/
def unary : Nat → Parser (Operand × Bool)
  | 0 => failure
  | n + 1 => do
      let c ← get
      let operand : Parser Expr := do
        advance
        return (← unary n).1.expr
      let isAwait ← atAwait
      match c.token with
      | .mark .minus => return (plain (.negated (← operand)), true)
      | .mark .plus | .mark .tilde | .mark .bang => return (parts [← operand], true)
      | .mark .plusPlus | .mark .minusMinus => do
          advance
          let (e, _) ← unary n
          unless isTarget e.target do failure
          return (parts [e.expr], false)
      | .mark .less => do
          advance
          let _ ← r.type
          expect .greater
          let (e, _) ← unary n
          return (⟨.other [e.expr], e.target⟩, true)
      | .word _ (some .delete) | .word _ (some .void) | .word _ (some .typeof) =>
          return (parts [← operand], true)
      | _ =>
          if isAwait then
            unless c.context.await do failure
            return (parts [← operand], true)
          return (← postfixExpression r, false)

inductive Connective where
  | power | logical | coalesce | cast | other
deriving DecidableEq

def connective? : Parser (Option Connective) := do
  joinGreater
  let c ← get
  match c.token with
  | .mark .starStar => return some .power
  | .mark .logical => return some .logical
  | .mark .coalesce => return some .coalesce
  | .mark .plus | .mark .minus | .mark .star | .mark .slash | .mark .amp | .mark .bar
  | .mark .less | .mark .shiftLeft | .mark .greater | .mark .binary => return some .other
  | .word _ (some .instanceof) => return some .other
  | .word _ (some .in_) => return if c.context.inOperator then some .other else none
  | .word _ (some .as) | .word _ (some .satisfies) =>
      return if c.afterBreak then none else some .cast
  | _ => return none

structure Row where
  operands : List Expr
  last : Operand
  isUnary : Bool
  logical : Bool
  coalesce : Bool

/-- Operands with binary operators between them. `??` does not stand beside `&&` or `||`. -/
def operatorRow : Parser Operand := do
  let (first, isUnary) ← unary r r.fuel
  let row ← iterate (fun (row : Row) => do
    match ← connective? with
    | none => return .inr row
    | some .cast => do
        advance
        let _ ← r.type
        let cast : Operand := ⟨.other [row.last.expr], row.last.target⟩
        return .inl { row with operands := [cast.expr], last := cast, isUnary := false }
    | some op => do
        if op == .power && row.isUnary then failure
        advance
        let (e, isUnary) ← unary r r.fuel
        let row : Row :=
          { operands := row.operands ++ [e.expr]
            last := parts (row.operands ++ [e.expr])
            isUnary := isUnary
            logical := row.logical || op == .logical
            coalesce := row.coalesce || op == .coalesce }
        if row.logical && row.coalesce then failure
        return .inl row)
    r.fuel ⟨[first.expr], first, isUnary, false, false⟩
  return row.last

def arrowBody (async middle : Bool) : Parser (List Expr) := do
  if ← is .openBrace then r.body async false
  else
    let e ←
      within (fun c => { c with await := async || c.await, yield := false }) (r.assignment middle)
    return [e.expr]

def arrowHead (async : Bool) : Parser (List Expr × Bool) := do
  let _ ← typeParameters? r
  if ← opensThis then failure
  let (_, found) ← within (fun c => { c with await := async || c.await }) (parameters r)
  let result ← result? r
  if ← afterBreak then failure
  expect .arrow
  return (found, result.isSome)

/-- An arrow function whose parameters stand in parentheses. In the middle of a conditional a colon
has to follow one with a result type. -/
def arrowFunction (async outside : Bool) : Parser Operand := do
  let (found, typed) ← arrowHead r async
  let body ← arrowBody r async outside
  if typed && !outside then
    unless ← is .colon do failure
  return parts (found ++ body)

def bareArrow (async outside : Bool) : Parser Operand := do
  let _ ← bindingName
  if ← afterBreak then failure
  expect .arrow
  return parts (← arrowBody r async outside)

def atBareArrow : Parser Bool :=
  ahead do
    let _ ← bindingName
    return (← is .arrow) && !(← afterBreak)

def asyncWord : Parser Bool :=
  ahead do
    expectWord .async
    return !(← afterBreak)

def arrow? (outside : Bool) : Parser (Option Operand) := do
  if ← atBareArrow then return some (← bareArrow r false outside)
  if ← asyncWord then
    let bare ← ahead do
      advance
      atBareArrow
    if bare then
      advance
      return some (← bareArrow r true outside)
    attempt do
      advance
      unless ← opensCall do failure
      arrowFunction r true outside
  else if ← opensCall then attempt (arrowFunction r false outside)
  else return none

def atYield : Parser Bool := do
  return (← isWord .yield) && (← context).yield

def yieldExpression : Parser Operand := do
  advance
  if ← afterBreak then return parts []
  if ← eat .star then return parts [(← r.assignment true).expr]
  match ← token with
  | .mark .closeParen | .mark .closeBracket | .mark .closeBrace | .mark .comma | .mark .semicolon
  | .mark .colon | .endOfText | .word _ (some .in_) => return parts []
  | _ => return parts [(← r.assignment true).expr]

def isAssignment : Token → Bool
  | .mark .equals | .mark .compoundAssign | .mark .slashAssign => true
  | _ => false

def assignment (outside : Bool) : Parser Operand := do
  if ← atYield then yieldExpression r
  else match ← arrow? r outside with
    | some f => return f
    | none =>
        let opened := (← get).openDefaults
        let e ← operatorRow r
        joinGreater
        let t ← token
        if isAssignment t then
          unless isTarget e.target || (e.target == .pattern && t == .mark .equals) do failure
          if e.target == .pattern then closeDefaults opened
          advance
          let value ← r.assignment outside
          return parts [e.expr, value.expr]
        else if ← eat .question then
          let middle ← within (fun c => { c with inOperator := true }) (r.assignment false)
          expect .colon
          let last ← r.assignment outside
          return parts [e.expr, middle.expr, last.expr]
        else return e

def expression : Parser Operand := do
  let first ← r.assignment true
  let rest ← many r.fuel do
    unless ← eat .comma do return none
    return some (← r.assignment true).expr
  return if rest.isEmpty then first else parts (first.expr :: rest)

end ElementBridge.Grammar
