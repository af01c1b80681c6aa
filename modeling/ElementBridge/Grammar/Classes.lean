import ElementBridge.Grammar.Types

/-!
Functions and classes. Beside its node each construct gives the expressions inside it.
-/

namespace ElementBridge.Grammar

open ElementBridge.Tree ElementBridge.Parser

variable (r : Rules)

def opensThis : Parser Bool :=
  ahead do
    expect .openParen
    isWord .this

structure Callable where
  params : Parameters TypeNode
  result : Option TypeNode
  hasBody : Bool
  parts : List Expr

def callable (async generator : Bool) : Parser Callable := do
  let _ ← typeParameters? r
  let (params, parts) ←
    within (fun c => { c with await := async, yield := generator }) (parameters r)
  let result ← result? r
  if ← is .openBrace then
    let inside ← r.body async generator
    return ⟨params, result, true, parts ++ inside⟩
  endStatement
  return ⟨params, result, false, parts⟩

def functionRest (async named : Bool) : Parser Callable := do
  let generator ← eat .star
  let isNamed ← atBinding
  if isNamed then advance
  unless isNamed || !named do failure
  callable r async generator

structure MemberHead where
  isStatic : Bool
  accessibility : Option Accessibility
  key : Key

def MemberHead.method (h : MemberHead) (kind : MethodKind) (optional : Bool) (f : Callable) :
    ClassElement :=
  .method
    { kind, optional
      key := h.key
      isStatic := h.isStatic
      accessibility := h.accessibility
      params := f.params
      result := f.result
      hasBody := f.hasBody }

def isConstructorKey (key : Key) : Bool := key.name? == some "constructor"

def validAccessor (kind : MethodKind) (params : Parameters TypeNode) : Bool :=
  match kind, params.items with
  | .getter, [] => true
  | .setter, [p] => !params.hasRest && !p.hasDefault
  | .getter, _ | .setter, _ => false
  | _, _ => true

/-- The key of a class member behind its modifiers. A name hidden by `#` takes no visibility. -/
def keyBehind (ms : List Modifier) : Parser (Key × List Expr) := do
  let found ← classKey r
  if found.1.isHidden && ms.any Modifier.isAccess then failure
  return found

def accessorMember (ms : List Modifier) (kind : MethodKind) :
    Parser (ClassElement × List Expr) := do
  advance
  let (key, keyParts) ← keyBehind r ms
  let isStatic := ms.contains .static
  if !isStatic && isConstructorKey key then failure
  let f ← callable r false false
  unless validAccessor kind f.params do failure
  return (MemberHead.method ⟨isStatic, accessibility ms, key⟩ kind false f, keyParts ++ f.parts)

def constructorMember (ms : List Modifier) (key : Key) : Parser (ClassElement × List Expr) := do
  unless ms.all Modifier.isAccess do failure
  if (← is .less) || (← opensThis) then failure
  let f ← callable r false false
  return (MemberHead.method ⟨false, accessibility ms, key⟩ .construct false f, f.parts)

def fieldMember (ms : List Modifier) (key : Key) (optional : Bool) :
    Parser (ClassElement × List Expr) := do
  let isStatic := ms.contains .static
  if isConstructorKey key || (isStatic && key.name? == some "prototype") then failure
  let definite ← eat .bang
  if definite && optional then failure
  if ms.contains .async || (optional && ms.contains .accessor) then failure
  let type ← declaredType? r
  let parts ← if ← eat .equals then
      pure [← within (fun c => { c with await := false, yield := false }) r.value]
    else pure []
  endStatement
  let field : Property :=
    { key, isStatic, optional, type
      accessibility := accessibility ms
      readonly := ms.contains .readonly }
  return (if ms.contains .accessor then .accessor field else .property field, parts)

def namedClassMember (ms : List Modifier) : Parser (ClassElement × List Expr) := do
  let generator ← eat .star
  let (key, keyParts) ← keyBehind r ms
  let isStatic := ms.contains .static
  if isConstructorKey key && !isStatic && (← opensCall) then
    if generator then failure
    constructorMember r ms key
  else
    let optional ← eat .question
    if generator || (← opensCall) then
      if ms.contains .accessor || (isStatic && key.name? == some "prototype") then failure
      let f ← callable r (ms.contains .async) generator
      return (MemberHead.method ⟨isStatic, accessibility ms, key⟩ .method optional f,
        keyParts ++ f.parts)
    let (field, parts) ← fieldMember r ms key optional
    return (field, keyParts ++ parts)

def atStaticBlock : Parser Bool :=
  ahead do
    expectWord .static
    is .openBrace

def classElement : Parser (Option ClassElement × List Expr) := do
  if ← eat .semicolon then return (none, [])
  let decorations ← decorators r
  if ← atStaticBlock then
    advance
    let parts ←
      within (fun c => { c with await := false, yield := false, returns := false }) r.block
    return (some .staticBlock, decorations ++ parts)
  let ms ← modifiers r
  if ms.contains .export || ms.contains .other then failure
  let (element, parts) ←
    if ← accessorWord .get then accessorMember r ms .getter
    else if ← accessorWord .set then accessorMember r ms .setter
    else if ← atIndexSignature then
      unless ms.all (fun m => m == .static || m == .readonly) do failure
      indexSignature r
      endMember
      pure (.indexSignature, [])
    else namedClassMember r ms
  return (some element, decorations ++ parts)

def classBody : Parser (List ClassElement × List Expr) := do
  expect .openBrace
  let found ← many r.fuel do
    if ← is .closeBrace then return none
    some <$> classElement r
  expect .closeBrace
  return (found.filterMap (·.1), found.flatMap (·.2))

def implementsList : Parser Unit := do
  let _ ← iterate (fun () => do
    let _ ← anyName
    let _ ← dottedTail r
    let _ ← typeArguments? r
    if ← eat .comma then return .inl () else return .inr ()) r.fuel ()

def atImplements : Parser Bool :=
  ahead do
    expectWord .implements
    isWordToken

def classRest : Parser (ClassNode × List Expr) := do
  let name ← if (← atBinding) && !(← atImplements) then some <$> bindingName else pure none
  let _ ← typeParameters? r
  let base ← if ← eatWord .extends_ then
      let e ← r.chain
      let _ ← typeArguments? r
      pure (some e.expr)
    else pure none
  if ← eatWord .implements then implementsList r
  let (elements, parts) ← classBody r
  return (⟨name, base, elements⟩, base.toList ++ parts)

end ElementBridge.Grammar
