import ElementBridge.Grammar.Declarations

/-!
Statements. A statement is kept if the surface of a component can depend on it; of every other one
only the expressions inside are.
-/

namespace ElementBridge.Grammar

open ElementBridge.Tree ElementBridge.Parser

variable (r : Rules)

/-- A statement with the expressions inside; `none` if these are all that is kept. -/
abbrev Item := Option Statement × List Expr

def isImportCall : Parser Bool :=
  ahead do
    expectWord .import_
    return (← is .dot) || (← is .openParen)

def isSingle : Parser Bool := do
  match ← keyword? with
  | some .class_ | some .export_ | some .const => return false
  | some .import_ => isImportCall
  | some .let_ => return !(← atLet)
  | some .async => return !(← atAsyncFunction)
  | some .function =>
      let generator ← ahead do
        advance
        is .star
      return !generator
  | _ => return true

/-- A statement as a part of another one, where no declaration of a block can stand. -/
def substatement : Parser (List Expr) := do
  unless ← isSingle do failure
  r.statement

def condition : Parser Expr := do
  expect .openParen
  let e ← r.inner
  expect .closeParen
  return e

def ifStatement : Parser (List Expr) := do
  advance
  let test ← condition r
  let yes ← substatement r
  let no ← if ← eatWord .else_ then substatement r else pure []
  return test :: yes ++ no

def whileStatement : Parser (List Expr) := do
  advance
  let test ← condition r
  return test :: (← substatement r)

def doStatement : Parser (List Expr) := do
  advance
  let body ← substatement r
  expectWord .while_
  let test ← condition r
  let _ ← eat .semicolon
  return body ++ [test]

def forRest (awaits : Bool) (head : List Expr) (single complete : Bool) : Parser (List Expr) := do
  if ← eatWord .of then
    unless single do failure
    return head ++ [← r.value]
  if awaits then failure
  if ← eatWord .in_ then
    unless single do failure
    return head ++ [← r.inner]
  unless complete do failure
  expect .semicolon
  let test ← if ← is .semicolon then pure [] else pure [← r.inner]
  expect .semicolon
  let update ← if ← is .closeParen then pure [] else pure [← r.inner]
  return head ++ test ++ update

def atAsyncOf : Parser Bool :=
  ahead do
    expectWord .async
    isWord .of

def forStatement : Parser (List Expr) := do
  advance
  let awaits ← eatWord .await
  expect .openParen
  let head ←
    if ← is .semicolon then forRest r awaits [] false true
    else match ← bindingKeyword? with
      | some constant => do
          let b ← within (fun c => { c with inOperator := false }) (bindings r constant)
          forRest r awaits b.parts (b.count == 1 && !b.initialized) b.complete
      | none => do
          let opened := (← get).openDefaults
          let asyncOf := (← atAsyncOf) && !awaits
          let e ← within (fun c => { c with inOperator := false }) r.expression
          let single := e.target != .none
          if e.target == .pattern && !(← is .semicolon) then closeDefaults opened
          if asyncOf && (← isWord .of) then failure
          forRest r awaits [e.expr] single true
  expect .closeParen
  return head ++ (← substatement r)

def switchCase : Parser (List Expr) := do
  let test ← if ← eatWord .case_ then pure [← r.inner] else
    expectWord .default
    pure []
  expect .colon
  let body ← many r.fuel do
    if (← is .closeBrace) || (← isWord .case_) || (← isWord .default) then return none
    some <$> r.statement
  return test ++ body.flatten

def switchStatement : Parser (List Expr) := do
  advance
  let subject ← condition r
  expect .openBrace
  let cases ← many r.fuel do
    if ← is .closeBrace then return none
    some <$> switchCase r
  expect .closeBrace
  return subject :: cases.flatten

def catchClause : Parser (List Expr) := do
  let bound ← if ← eat .openParen then
      let (_, found) ← r.pattern
      let _ ← declaredType? r
      expect .closeParen
      pure found
    else pure []
  return bound ++ (← r.block)

def tryStatement : Parser (List Expr) := do
  advance
  let body ← r.block
  let caught ← if ← eatWord .catch_ then some <$> catchClause r else pure none
  let last ← if ← eatWord .finally_ then some <$> r.block else pure none
  unless caught.isSome || last.isSome do failure
  return body ++ caught.getD [] ++ last.getD []

def jumpStatement : Parser (List Expr) := do
  advance
  unless ← atStatementEnd do
    let _ ← bindingName
  endStatement
  return []

def returnStatement : Parser (List Expr) := do
  unless (← context).returns do failure
  advance
  let value ← if ← atStatementEnd then pure [] else pure [← r.inner]
  endStatement
  return value

def throwStatement : Parser (List Expr) := do
  advance
  if ← afterBreak then failure
  let value ← r.inner
  endStatement
  return [value]

def expressionStatement : Parser (List Expr) := do
  let label ← ahead do
    let _ ← bindingName
    is .colon
  if label then
    advance
    advance
    substatement r
  else
    let e ← r.inner
    endStatement
    return [e]

def moduleName : Parser (String × Bool) := do
  match ← token with
  | .word w _ => advance; return (w.text, !w.isReserved)
  | .string value => advance; return (value, false)
  | _ => failure

def atModuleName : Parser Bool := return (← isWordToken) || (← isString)

structure Renaming where
  typeOnly : Bool
  first : String
  firstIsPlain : Bool
  last : String
  lastIsPlain : Bool

def renamed (typeOnly : Bool) (first : String × Bool) : Parser Renaming := do
  let last ← if ← eatWord .as then moduleName else pure first
  return ⟨typeOnly, first.1, first.2, last.1, last.2⟩

/-- An entry in the braces of an import or export. A leading `type` marks it as a type, unless it is
the name itself: `type as x` renames `type`, `type as as x` is the type `as` renamed. -/
def specifier : Parser Renaming := do
  let first ← moduleName
  unless first == ("type", true) do return ← renamed false first
  if ← isWord .as then
    advance
    if ← isWord .as then
      advance
      if ← atModuleName then
        let last ← moduleName
        return ⟨true, "as", true, last.1, last.2⟩
      return ⟨false, "type", true, "as", true⟩
    if ← atModuleName then
      let last ← moduleName
      return ⟨false, "type", true, last.1, last.2⟩
    return ⟨true, "as", true, "as", true⟩
  if ← atModuleName then renamed true (← moduleName)
  else return ⟨false, "type", true, "type", true⟩

/-- Entries in braces. Where all of them are types, none is marked as one by itself. -/
def specifiers (types : Bool) : Parser (List Renaming) := do
  expect .openBrace
  let found ← commaList r.fuel .closeBrace specifier
  expect .closeBrace
  if types && found.any (·.typeOnly) then failure
  return found

def attributes : Parser Unit := do
  let here ← isWord .with_
  let old := (← isWord .assert) && !(← afterBreak)
  if here || old then
    advance
    expect .openBrace
    let _ ← commaList r.fuel .closeBrace do
      let _ ← moduleName
      expect .colon
      stringValue
    expect .closeBrace

def fromModule : Parser String := do
  expectWord .from_
  let module ← stringValue
  attributes r
  return module

def importEquals : Parser (List Expr) := do
  expect .equals
  let requires ← ahead do
    expectWord .require
    is .openParen
  if requires then
    advance
    expect .openParen
    let _ ← stringValue
    expect .closeParen
  else
    let _ ← anyName
    let _ ← dottedTail r
  endStatement
  return []

def importsTypes : Parser Bool :=
  ahead do
    expectWord .type
    if (← is .star) || (← is .openBrace) then return true
    unless ← atBinding do failure
    unless ← isWord .from_ do return true
    advance
    return (← isWord .from_) || (← is .equals)

def importsPhase : Parser Bool :=
  ahead do
    if ← eatWord .defer then is .star
    else
      expectWord .source
      unless ← atBinding do failure
      advance
      isWord .from_

def namedImports (types : Bool) : Parser (List (String × ImportBinding)) := do
  if ← eat .star then
    expectWord .as
    return [((← bindingName).text, .whole)]
  let found ← specifiers r types
  unless found.all (·.lastIsPlain) do failure
  return found.map fun s => (s.last, .named s.first s.typeOnly)

def importDeclaration : Parser Item := do
  expectWord .import_
  if ← isString then
    let module ← stringValue
    attributes r
    endStatement
    return (some (.importFrom ⟨module, false, none⟩), [])
  let typeOnly ← importsTypes
  if typeOnly || (← importsPhase) then advance
  let first ← if ← atBinding then some <$> bindingName else pure none
  if first.isSome && (← is .equals) then return (none, ← importEquals r)
  let whole := first.toList.map fun name => (name.text, ImportBinding.default)
  let named ← if first.isNone || (← eat .comma) then namedImports r typeOnly else pure []
  let module ← fromModule r
  endStatement
  return (some (.importFrom ⟨module, typeOnly, some (whole ++ named)⟩), [])

def exportDeclared (d : Declaration × List Expr) : Item := (some (.exportDeclaration d.1), d.2)

def exportDefault : Parser Item := do
  let decorations ← decorators r
  let abstractClass ← ahead do
    expectWord .abstract
    isWord .class_
  let isInterface ← ahead do
    expectWord .interface
    return (← atBinding) && !(← afterBreak)
  if abstractClass then advance
  if abstractClass || (← isWord .class_) then
    expectWord .class_
    let (node, inside) ← classRest r
    return (some (.exportDefault (some node)), decorations ++ inside)
  unless decorations.isEmpty do failure
  if isInterface then
    let _ ← interfaceDeclaration r
    return (some (.exportDefault none), [])
  if (← isWord .function) || (← atAsyncFunction) then
    return (some (.exportDefault none), (← functionDeclaration r false).parts)
  let e ← r.value
  endStatement
  return (some (.exportDefault none), [e])

def exportNames (types : Bool) : Parser Item := do
  let found ← specifiers r types
  let module ← if ← isWord .from_ then some <$> fromModule r else pure none
  unless module.isSome || found.all (·.firstIsPlain) do failure
  endStatement
  return (some (.exportNames (found.map (·.last)) module), [])

def exportAll : Parser Item := do
  expect .star
  let name ← if ← eatWord .as then some <$> moduleName else pure none
  let module ← fromModule r
  endStatement
  return (some (.exportAll (name.map (·.1)) module), [])

def exportStatement : Parser Item := do
  expectWord .export_
  let typeForm ← ahead do
    expectWord .type
    return (← is .star) || (← is .openBrace)
  if typeForm then advance
  match ← token with
  | .mark .star => exportAll r
  | .mark .openBrace => exportNames r typeForm
  | .mark .equals => do
      advance
      let e ← r.value
      endStatement
      return (none, [e])
  | .mark .at => do
      let decorations ← decorators r
      let (d, inside) ← declaration r
      match d with
      | .classDef _ => return exportDeclared (d, decorations ++ inside)
      | _ => failure
  | .word _ (some .default) => advance; exportDefault r
  | .word _ (some .as) => do
      advance
      expectWord .namespace_
      let _ ← bindingName
      endStatement
      return (none, [])
  | .word _ (some .import_) => do
      advance
      let _ ← eatWord .type
      let _ ← bindingName
      return (some (.exportDeclaration .other), ← importEquals r)
  | _ => return exportDeclared (← declaration r)

def declared (d : Declaration × List Expr) : Item :=
  match d.1 with
  | .other => (none, d.2)
  | node => (some (.declare node), d.2)

def decoratedStatement : Parser Item := do
  let decorations ← decorators r
  let (statement, inside) ←
    if ← isWord .export_ then exportStatement r
    else declared <$> declaration r
  match statement with
  | some (.declare (.classDef _)) | some (.exportDeclaration (.classDef _))
  | some (.exportDefault (some _)) => return (statement, decorations ++ inside)
  | _ => failure

def only (p : Parser (List Expr)) : Parser Item := return (none, ← p)

def statement : Parser Item := do
  match ← token with
  | .mark .openBrace => only r.block
  | .mark .semicolon => advance; return (none, [])
  | .mark .at => decoratedStatement r
  | .word _ (some k) =>
      match k with
      | .if_ => only (ifStatement r)
      | .while_ | .with_ => only (whileStatement r)
      | .do_ => only (doStatement r)
      | .for_ => only (forStatement r)
      | .switch => only (switchStatement r)
      | .try_ => only (tryStatement r)
      | .break | .continue_ => only jumpStatement
      | .return_ => only (returnStatement r)
      | .throw_ => only (throwStatement r)
      | .debugger => only jumpStatement
      | .export_ => exportStatement r
      | .import_ =>
          if ← isImportCall then only (expressionStatement r) else importDeclaration r
      | _ =>
          if (← atDeclaration r) || (← atUsing) then return declared (← declaration r)
          only (expressionStatement r)
  | _ => only (expressionStatement r)

end ElementBridge.Grammar
