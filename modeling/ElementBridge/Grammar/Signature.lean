import ElementBridge.Grammar.Rules

namespace ElementBridge.Grammar

open ElementBridge.Tree ElementBridge.Parser

variable {α : Type} (r : Rules)

def isLiteralKey : Token → Bool
  | .word _ _ | .string _ | .number | .bigint | .hashName _ => true
  | _ => false

def followsModifier : Token → Bool
  | .mark .openBracket | .mark .openBrace | .mark .star | .mark .ellipsis => true
  | t => isLiteralKey t

inductive Modifier where
  | access (a : Accessibility)
  | static | readonly | abstract | override | declare | async | accessor | export | other
deriving DecidableEq

def Modifier.ofKeyword? : Keyword → Option Modifier
  | .public_ => some (.access .publicly)
  | .protected_ => some (.access .protectedly)
  | .private_ => some (.access .privately)
  | .static => some .static
  | .readonly => some .readonly
  | .abstract => some .abstract
  | .override => some .override
  | .declare => some .declare
  | .async => some .async
  | .accessor => some .accessor
  | .export_ => some .export
  | .default | .in_ | .out => some .other
  | _ => none

def Modifier.rank : Modifier → Nat
  | .export => 0
  | .other => 0
  | .declare => 1
  | .access _ => 2
  | .abstract => 3
  | .static => 3
  | .override => 4
  | .readonly => 5
  | .accessor => 6
  | .async => 6

def Modifier.isAccess : Modifier → Bool
  | .access _ => true
  | _ => false

def Modifier.mayFollow (m : Modifier) (seen : List Modifier) : Bool :=
  !seen.contains m && !(m.isAccess && seen.any Modifier.isAccess)
    && (m == .abstract || m == .declare || seen.all (·.rank ≤ m.rank))

/-- A modifier, if the next word is one and not itself the name of what follows. A word `static`
before a brace opens a static block; it is a modifier once. -/
def modifier? (seen : List Modifier) : Parser (Option Modifier) := do
  match (← keyword?).bind Modifier.ofKeyword? with
  | none => return none
  | some m =>
      let applies ← ahead do
        advance
        let c ← get
        return followsModifier c.token && (m == .static || !c.afterBreak)
          && !(m == .static && (c.token == .mark .openBrace || seen.contains .static))
      if applies then
        unless m.mayFollow seen do failure
        advance
        return some m
      return none

def modifiers : Parser (List Modifier) :=
  iterate (fun seen => do
    match ← modifier? seen with
    | some m => return .inl (seen ++ [m])
    | none => return .inr seen) r.fuel []

def accessibility (ms : List Modifier) : Option Accessibility :=
  ms.findSome? fun
    | .access a => some a
    | _ => none

def memberKey : Parser (Key × List Expr) := do
  let c ← get
  match c.token with
  | .word w _ => advance; return (⟨.identifier w.text, c.spelling⟩, [])
  | .string value => advance; return (⟨.text value, c.spelling⟩, [])
  | .number | .bigint => advance; return (⟨.number, c.spelling⟩, [])
  | .mark .openBracket => do
      advance
      let (e, source) ← quoted r.value
      expect .closeBracket
      return (⟨.computed, source⟩, [e])
  | _ => failure

def classKey : Parser (Key × List Expr) := do
  let c ← get
  match c.token with
  | .hashName name =>
      if name == "constructor" then failure
      advance
      return (⟨.hash name, c.spelling⟩, [])
  | _ => memberKey r

def patternProperty : Parser (List Expr) := do
  let c ← get
  if ← eat .ellipsis then
    let (_, parts) ← r.pattern
    return parts
  let shorthand ← atBinding
  let (_, keyParts) ← memberKey r
  if ← eat .colon then
    let (_, parts) ← r.pattern
    let rest ← if ← eat .equals then pure [← r.value] else pure []
    return keyParts ++ parts ++ rest
  unless shorthand && isBinding c.context c.token do failure
  if ← eat .equals then return [← r.value]
  return []

/-- Nothing follows a rest element, not even a comma. -/
def restLast (close : Mark) (item : Parser α) : Parser α := do
  let rest ← is .ellipsis
  let a ← item
  if rest then
    unless ← is close do failure
  return a

def arrayElement : Parser (List Expr) := do
  if ← is .comma then return []
  let _ ← eat .ellipsis
  let (_, parts) ← r.pattern
  if ← eat .equals then return parts ++ [← r.value]
  return parts

def bindingPattern : Parser (Pattern × List Expr) := do
  if ← eat .openBrace then
    let parts ← commaList r.fuel .closeBrace (restLast .closeBrace (patternProperty r))
    expect .closeBrace
    return (.destructured, parts.flatten)
  if ← eat .openBracket then
    let parts ← commaList r.fuel .closeBracket (restLast .closeBracket (arrayElement r))
    expect .closeBracket
    return (.destructured, parts.flatten)
  return (.name (← bindingName), [])

def declaredType? : Parser (Option TypeNode) := do
  if ← eat .colon then some <$> r.type else return none

def resultType : Parser TypeNode := do
  let isCondition ← ahead do
    unless ← isWordToken do failure
    advance
    return (← isWord .is) && !(← afterBreak)
  if isCondition then
    let (_, source) ← quoted do
      advance
      advance
      r.type
    return .other source
  r.type

def result? : Parser (Option TypeNode) := do
  if ← eat .colon then some <$> resultType r else return none

def typeParameter : Parser Unit := do
  let _ ← iterate (fun () => do
    let applies ← ahead do
      let modifies ← match ← keyword? with
        | some .const | some .in_ | some .out => pure true
        | _ => pure false
      advance
      return modifies && (← isWordToken)
    if applies then advance; return .inl ()
    return .inr ()) r.fuel ()
  let _ ← bindingName
  if ← eatWord .extends_ then let _ ← r.type
  if ← eat .equals then let _ ← r.type

/-- Type parameters in angle brackets, if there are any. An empty list is a mistake. -/
def typeParameters? : Parser Bool := do
  unless ← eat .less do return false
  if ← is .greater then failure
  let _ ← commaList r.fuel .greater (typeParameter r)
  expect .greater
  return true

def typeArguments : Parser (List TypeNode) := do
  splitLess
  expect .less
  if ← is .greater then failure
  let args ← commaList r.fuel .greater r.type
  expect .greater
  return args

def typeArguments? : Parser (List TypeNode) := do
  let c ← get
  if !c.afterBreak && (c.token == .mark .less || c.token == .mark .shiftLeft) then typeArguments r
  else return []

def decorators : Parser (List Expr) :=
  many r.fuel do
    unless ← eat .at do return none
    return some (← within (fun c => { c with decorator := true }) r.chain).expr

def parameter : Parser (Parameter TypeNode × List Expr) := do
  let ((p, parts), source) ← quoted do
    let decorations ← decorators r
    let ms ← modifiers r
    unless ms.all (fun m => m.isAccess || m == .readonly || m == .override) do failure
    let (pattern, parts) ← r.pattern
    let optional ← eat .question
    let type ← declaredType? r
    let default ← if ← eat .equals then pure (some (← r.value)) else pure none
    let p : Parameter TypeNode :=
      { pattern, type, optional
        hasDefault := default.isSome
        accessibility := accessibility ms
        readonly := ms.contains .readonly
        source := "" }
    return (p, decorations ++ parts ++ default.toList)
  return ({ p with source }, parts)

def restParameter : Parser (List Expr) := do
  let decorations ← decorators r
  expect .ellipsis
  let (_, parts) ← r.pattern
  let _ ← declaredType? r
  unless ← is .closeParen do failure
  return decorations ++ parts

/-- Parameters in parentheses and the expressions inside. A leading `this` is dropped. -/
def parameters : Parser (Parameters TypeNode × List Expr) := do
  expect .openParen
  if ← eatWord .this then
    let _ ← declaredType? r
    unless ← is .closeParen do expect .comma
  let found ← iterate (fun (ps : List (Parameter TypeNode × List Expr)) => do
    if ← is .closeParen then return .inr (ps, none)
    match ← attempt (restParameter r) with
    | some parts => return .inr (ps, some parts)
    | none =>
        let p ← parameter r
        unless ← eat .comma do
          unless ← is .closeParen do failure
        return .inl (p :: ps)) r.fuel []
  expect .closeParen
  let ps := found.1.reverse
  return (⟨ps.map (·.1), found.2.isSome⟩, ps.flatMap (·.2) ++ found.2.getD [])

end ElementBridge.Grammar
