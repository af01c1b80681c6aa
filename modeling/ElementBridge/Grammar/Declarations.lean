import ElementBridge.Grammar.Expressions

namespace ElementBridge.Grammar

open ElementBridge.Tree ElementBridge.Parser

variable (r : Rules)

def heritage : Parser Heritage := do
  let ((e, args), source) ← quoted do
    let e ← r.chain
    let args ← typeArguments? r
    return (e, args)
  let base := match e.expr, args with
    | .name id, [] => some id
    | _, _ => none
  return ⟨base, source⟩

def interfaceDeclaration : Parser InterfaceNode := do
  expectWord .interface
  let name ← bindingName
  let generic ← typeParameters? r
  let heritage ← if ← eatWord .extends_ then
      iterate (fun found => do
        let h ← heritage r
        if ← eat .comma then return .inl (found ++ [h]) else return .inr (found ++ [h])) r.fuel []
    else pure []
  return ⟨name, generic, heritage, ← typeMembers r⟩

def aliasDeclaration : Parser AliasNode := do
  expectWord .type
  let name ← bindingName
  let generic ← typeParameters? r
  expect .equals
  let type ← r.type
  endStatement
  return ⟨name, generic, type⟩

/-- The name of an enum member; one in brackets has to be a plain string. -/
def enumMemberName : Parser (Option String) := do
  match ← token with
  | .word w _ => advance; return some w.text
  | .string value => advance; return some value
  | .mark .openBracket => do
      advance
      let plain ← isString
      unless plain || (← token) == .template do failure
      advance
      expect .closeBracket
      return none
  | _ => failure

def enumMember : Parser EnumMemberNode := do
  let ((name, initializer), source) ← quoted do
    let name ← enumMemberName
    let initializer ← if ← eat .equals then
        let (expr, source) ← quoted r.value
        pure (some (⟨expr, source⟩ : Quoted))
      else pure none
    return (name, initializer)
  return ⟨name, initializer, source⟩

def enumDeclaration : Parser EnumNode := do
  expectWord .enum
  let name ← bindingName
  expect .openBrace
  let members ← commaList r.fuel .closeBrace (enumMember r)
  expect .closeBrace
  return ⟨name, members⟩

def enumParts (e : EnumNode) : List Expr := e.members.filterMap fun m => m.initializer.map (·.expr)

structure Bindings where
  parts : List Expr
  count : Nat
  initialized : Bool
  complete : Bool

/-- Bindings of a `var`, `let` or `const` behind the keyword. They are complete if each one that
needs a value has it: a constant, and a pattern. -/
def bindings (constant : Bool) : Parser Bindings :=
  iterate (fun (b : Bindings) => do
    let (pattern, patternParts) ← r.pattern
    if pattern != .destructured && !(← afterBreak) then
      let _ ← eat .bang
    let _ ← declaredType? r
    let value ← if ← eat .equals then some <$> r.assignment true else pure none
    let needsValue := constant || pattern == .destructured
    let b : Bindings :=
      { parts := b.parts ++ patternParts ++ (value.map (·.expr)).toList
        count := b.count + 1
        initialized := b.initialized || value.isSome
        complete := b.complete && (value.isSome || !needsValue) }
    if ← eat .comma then return .inl b else return .inr b) r.fuel ⟨[], 0, false, true⟩

def atLet : Parser Bool :=
  ahead do
    expectWord .let_
    return (← atBinding) || (← is .openBracket) || (← is .openBrace)

def atUsing : Parser Bool :=
  ahead do
    expectWord .using
    return !(← afterBreak) && (← atBinding) && !(← isWord .of)

def bindingKeyword? : Parser (Option Bool) := do
  match ← keyword? with
  | some .var => advance; return some false
  | some .const => do
      let isEnum ← ahead do
        advance
        isWord .enum
      if isEnum then return none
      advance
      return some true
  | some .let_ => if ← atLet then advance; return some false else return none
  | some .using => if ← atUsing then advance; return some true else return none
  | _ => return none

def variableStatement (constant : Bool) : Parser (List Expr) := do
  let b ← bindings r constant
  unless b.complete || (← context).ambient do failure
  endStatement
  return b.parts

def functionDeclaration (named : Bool) : Parser Callable := do
  let async ← eatWord .async
  expectWord .function
  functionRest r async named

def namespaceBody : Parser (List Expr) :=
  within (fun c => { c with returns := false }) r.block

def namespaceDeclaration : Parser (List Expr) := do
  let mayQuote ← isWord .module
  advance
  if mayQuote && (← isString) then
    advance
    if ← is .openBrace then namespaceBody r
    else
      endStatement
      return []
  else
    let _ ← bindingName
    let _ ← dottedTail r
    namespaceBody r

def atDeclaration : Parser Bool :=
  ahead (iterate (fun () => do
    match ← keyword? with
    | some .class_ | some .enum | some .function | some .var | some .const => return .inr true
    | some .let_ => return .inr (← atLet)
    | some .interface | some .type => do
        advance
        return .inr ((← atBinding) && !(← afterBreak))
    | some .module | some .namespace_ => do
        advance
        return .inr (!(← afterBreak) && ((← atBinding) || (← isString)))
    | some .global => do
        advance
        return .inr ((← is .openBrace) || (← atBinding) || (← isWord .export_))
    | some .abstract | some .async | some .declare => do
        advance
        if ← afterBreak then return .inr false else return .inl ()
    | _ => return .inr false) r.fuel ())

/-- A declaration with its leading words, and the expressions inside. A function that is said to be
elsewhere has no body. -/
def declaration : Parser (Declaration × List Expr) := do
  if ← eatWord .declare then
    within (fun c => { c with ambient := true }) (bare true)
  else bare false
where
  bare (elsewhere : Bool) : Parser (Declaration × List Expr) := do
    match ← keyword? with
    | some .interface => return (.interface (← interfaceDeclaration r), [])
    | some .type => return (.alias (← aliasDeclaration r), [])
    | some .enum => do
        let e ← enumDeclaration r
        return (.enum e, enumParts e)
    | some .abstract | some .class_ => do
        let _ ← eatWord .abstract
        expectWord .class_
        let (node, inside) ← classRest r
        unless node.name.isSome do failure
        return (.classDef node, inside)
    | some .module | some .namespace_ => return (.other, ← namespaceDeclaration r)
    | some .global => do
        advance
        return (.other, ← namespaceBody r)
    | some .async | some .function => do
        let f ← functionDeclaration r true
        if elsewhere && f.hasBody then failure
        return (.other, f.parts)
    | _ =>
        match ← bindingKeyword? with
        | some constant => return (.other, ← variableStatement r constant)
        | none => do
            expectWord .const
            let e ← enumDeclaration r
            return (.enum e, enumParts e)

end ElementBridge.Grammar
