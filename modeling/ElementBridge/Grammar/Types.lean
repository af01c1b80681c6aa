import ElementBridge.Grammar.Signature

/-!
Types. Forms that no bridge can express are read to their end and kept as source text.
-/

namespace ElementBridge.Grammar

open ElementBridge.Tree ElementBridge.Parser

variable (r : Rules)

def sourceFrom (c : Cursor) : Parser String := return c.textTo (← get)

def endMember : Parser Unit := do
  unless ← eat .comma do endStatement

def opensCall : Parser Bool := return (← is .openParen) || (← is .less)

def accessorWord (k : Keyword) : Parser Bool := do
  if ← isWord k then
    ahead do
      advance
      return followsModifier (← token)
  else return false

def atIndexSignature : Parser Bool :=
  ahead do
    expect .openBracket
    unless ← isWordToken do failure
    advance
    is .colon

def indexSignature : Parser Unit := do
  expect .openBracket
  let _ ← anyName
  expect .colon
  let _ ← r.type
  expect .closeBracket
  expect .colon
  let _ ← r.type

def callSignature : Parser Unit := do
  let _ ← typeParameters? r
  let _ ← parameters r
  let _ ← result? r

def namedMember (c : Cursor) : Parser (Signature TypeNode) := do
  let ms ← modifiers r
  unless ms.all (· == .readonly) do failure
  if ← accessorWord .get then
    advance
    let (key, _) ← memberKey r
    expect .openParen
    expect .closeParen
    let result ← result? r
    return .method .getter key false ⟨[], false⟩ result
  if ← accessorWord .set then
    advance
    let (key, _) ← memberKey r
    let (params, _) ← parameters r
    return .method .setter key false params none
  if ← atIndexSignature then
    indexSignature r
    return .other (← sourceFrom c)
  let (key, _) ← memberKey r
  let optional ← eat .question
  if ← opensCall then
    let _ ← typeParameters? r
    let (params, _) ← parameters r
    let result ← result? r
    return .method .method key optional params result
  return .property key optional (← declaredType? r)

def typeMember : Parser (Signature TypeNode) := do
  let c ← get
  let isConstructor ← ahead do
    expectWord .new
    opensCall
  let member ←
    if isConstructor then
      advance
      callSignature r
      pure (.other (← sourceFrom c))
    else if ← opensCall then
      callSignature r
      pure (.other (← sourceFrom c))
    else namedMember r c
  endMember
  return member

def typeMembers : Parser (List (Signature TypeNode)) := do
  expect .openBrace
  let members ← many r.fuel do
    if ← is .closeBrace then return none
    some <$> typeMember r
  expect .closeBrace
  return members

def atMappedType : Parser Bool :=
  ahead do
    expect .openBrace
    if (← is .plus) || (← is .minus) then
      advance
      isWord .readonly
    else
      let _ ← eatWord .readonly
      expect .openBracket
      let _ ← anyName
      isWord .in_

def sign : Parser Unit := do
  unless ← eat .plus do
    let _ ← eat .minus

def mappedType : Parser Unit := do
  expect .openBrace
  sign
  let _ ← eatWord .readonly
  expect .openBracket
  let _ ← anyName
  expectWord .in_
  let _ ← r.type
  if ← eatWord .as then let _ ← r.type
  expect .closeBracket
  sign
  let _ ← eat .question
  let _ ← declaredType? r
  endMember
  expect .closeBrace

def tupleElement : Parser Unit := do
  let isNamed ← ahead do
    let _ ← eat .ellipsis
    let _ ← anyName
    let _ ← eat .question
    is .colon
  let _ ← eat .ellipsis
  if isNamed then
    let _ ← anyName
    let _ ← eat .question
    expect .colon
  let _ ← r.type

def tupleType : Parser Unit := do
  expect .openBracket
  let _ ← commaList r.fuel .closeBracket (tupleElement r)
  expect .closeBracket

def dottedTail : Parser (List Word) :=
  many r.fuel do
    unless ← eat .dot do return none
    some <$> anyName

def importType : Parser Unit := do
  expectWord .import_
  expect .openParen
  let _ ← stringValue
  if ← eat .comma then
    unless ← is .closeParen do
      let _ ← r.value
      let _ ← eat .comma
  expect .closeParen
  let _ ← dottedTail r
  let _ ← typeArguments? r

def typeQuery : Parser Unit := do
  expectWord .typeof
  if ← isWord .import_ then importType r
  else
    let _ ← anyName
    let _ ← many r.fuel do
      unless ← eat .dot do return none
      match ← token with
      | .hashName _ => advance; return some ()
      | _ => let _ ← anyName; return some ()
    let _ ← typeArguments? r

def typeReference : Parser TypeNode := do
  let first ← anyName
  let rest ← dottedTail r
  return .reference ⟨first, rest⟩ (← typeArguments? r)

/-- Whether the next word is a keyword of its own and not the root of a dotted name. -/
def standsAlone : Parser Bool :=
  ahead do
    advance
    return !(← is .dot)

def templateType : Parser Unit := do
  advance
  iterate (fun () => do
    let _ ← r.type
    if ← templateRest then return .inl () else return .inr ()) r.fuel ()

def atAssertion : Parser Bool :=
  ahead do
    expectWord .asserts
    return !(← afterBreak) && ((← atBinding) || (← isWord .this))

def assertion : Parser Unit := do
  expectWord .asserts
  let _ ← anyName
  if ← eatWord .is then let _ ← r.type

def typeWords : List Keyword :=
  [.void, .null, .this, .true_, .false_, .typeof, .new, .import_, .function]

def typeMarks : List Mark :=
  [.openBrace, .openBracket, .openParen, .less, .bar, .amp, .star, .question, .bang, .ellipsis]

/-- Whether a type follows, as far as `?` needs to know. -/
def startsType : Parser Bool := do
  match ← token with
  | .word _ k => return k.all fun k => !k.isReserved || typeWords.contains k
  | .string _ | .number | .bigint | .template | .templateHead => return true
  | .mark m => return typeMarks.contains m
  | _ => return false

def primaryKeyword (k : Keyword) : Parser (Option TypeNode) := do
  let c ← get
  let primitive : Option Primitive := match k with
    | .any => some .any
    | .unknown => some .unknown
    | .number => some .number
    | .object => some .object
    | .boolean => some .boolean
    | .string => some .string
    | .never => some .never
    | .undefined => some .undefined
    | .null => some .null
    | .void => some .void
    | _ => none
  match primitive with
  | some p =>
      if ← standsAlone then
        advance
        return some (.keyword p)
      return none
  | none =>
      match k with
      | .symbol | .bigint | .intrinsic =>
          if ← standsAlone then
            advance
            return some (.other (← sourceFrom c))
          return none
      | .true_ | .false_ => advance; return some (.literal .boolean (← sourceFrom c))
      | .this =>
          advance
          if (← isWord .is) && !(← afterBreak) then
            advance
            let _ ← r.type
          return some (.other (← sourceFrom c))
      | .typeof => typeQuery r; return some (.other (← sourceFrom c))
      | .import_ => importType r; return some (.other (← sourceFrom c))
      | .asserts =>
          if ← atAssertion then
            assertion r
            return some (.other (← sourceFrom c))
          return none
      | _ => return none

def primaryType : Parser TypeNode := do
  let c ← get
  match c.token with
  | .word _ (some k) =>
      match ← primaryKeyword r k with
      | some t => return t
      | none => typeReference r
  | .word _ none => typeReference r
  | .string _ | .template => advance; return .literal .string (← sourceFrom c)
  | .number => advance; return .literal .number (← sourceFrom c)
  | .bigint => advance; return .literal .bigint (← sourceFrom c)
  | .templateHead => templateType r; return .other (← sourceFrom c)
  | .mark .minus => do
      advance
      match ← token with
      | .number | .bigint => advance; return .literal .number (← sourceFrom c)
      | _ => failure
  | .mark .openBrace =>
      if ← atMappedType then
        mappedType r
        return .other (← sourceFrom c)
      return .object (← typeMembers r)
  | .mark .openBracket => tupleType r; return .tuple (← sourceFrom c)
  | .mark .openParen => do
      advance
      let t ← within (fun c => { c with conditionalTypes := true }) r.type
      expect .closeParen
      return .parenthesized t
  | .mark .question => do
      advance
      match ← token with
      | .mark .comma | .mark .closeBrace | .mark .closeParen | .mark .greater | .mark .equals
      | .mark .bar => return .other (← sourceFrom c)
      | _ => let _ ← r.type; return .other (← sourceFrom c)
  | .mark .star => advance; return .other (← sourceFrom c)
  | _ => failure

def markedType : Parser TypeNode := do
  let c ← get
  let marks ← many r.fuel do
    if ← eat .bang then return some () else return none
  let t ← primaryType r
  if marks.isEmpty then return t else return .other (← sourceFrom c)

def postfixType : Parser TypeNode := do
  let c ← get
  let t ← markedType r
  iterate (fun (t : TypeNode) => do
    if ← afterBreak then return .inr t
    match ← token with
    | .mark .bang => advance; return .inl (.other (← sourceFrom c))
    | .mark .question =>
        let goesOn ← ahead do
          advance
          startsType
        if goesOn then return .inr t
        advance
        return .inl (.other (← sourceFrom c))
    | .mark .openBracket =>
        advance
        if ← eat .closeBracket then return .inl (.array t)
        let _ ← r.type
        expect .closeBracket
        return .inl (.other (← sourceFrom c))
    | _ => return .inr t) r.fuel t

def operatorType : Parser TypeNode := do
  let c ← get
  let rec go : Nat → Parser TypeNode
    | 0 => failure
    | n + 1 => do
        match ← keyword? with
        | some .keyof | some .unique => do
            advance
            let _ ← go n
            return .operator (← sourceFrom c)
        | some .readonly => do
            advance
            let t ← go n
            unless t.isSequence do failure
            return .readonly t
        | some .infer => do
            advance
            let _ ← bindingName
            let _ ← attempt do
              expectWord .extends_
              let _ ← within (fun c => { c with conditionalTypes := false }) r.type
              if (← context).conditionalTypes && (← is .question) then failure
            return .other (← sourceFrom c)
        | _ => within (fun c => { c with conditionalTypes := true }) (postfixType r)
  go r.fuel

def typeChain (m : Mark) (item : Parser TypeNode) : Parser (Bool × List TypeNode) := do
  let leading ← eat m
  let first ← item
  let rest ← many r.fuel do
    unless ← eat m do return none
    some <$> item
  return (leading, first :: rest)

def intersectionType : Parser TypeNode := do
  let c ← get
  match ← typeChain r .amp (operatorType r) with
  | (false, [t]) => return t
  | _ => return .other (← sourceFrom c)

def unionType : Parser TypeNode := do
  match ← typeChain r .bar (intersectionType r) with
  | (false, [t]) => return t
  | (_, ts) => return .union ts

def opensFunctionType : Parser Bool :=
  ahead do
    expect .openParen
    if (← is .closeParen) || (← is .ellipsis) then return true
    let _ ← modifiers r
    if (← atBinding) || (← isWord .this) then advance
    else
      unless (← is .openBracket) || (← is .openBrace) do failure
      let _ ← r.pattern
    match ← token with
    | .mark .colon | .mark .comma | .mark .question | .mark .equals => return true
    | .mark .closeParen => do
        advance
        is .arrow
    | _ => return false

def functionType : Parser TypeNode := do
  let c ← get
  let _ ← eatWord .abstract
  let constructs ← eatWord .new
  let _ ← typeParameters? r
  let (params, _) ← parameters r
  expect .arrow
  let result ← resultType r
  if constructs then return .other (← sourceFrom c)
  return .function params result

def atFunctionType : Parser Bool := do
  match ← token with
  | .mark .less => return true
  | .mark .openParen => opensFunctionType r
  | .word _ (some .new) => return true
  | .word _ (some .abstract) =>
      ahead do
        advance
        isWord .new
  | _ => return false

/-- A type, conditional ones included where the place allows them. -/
def typeNode : Parser TypeNode := do
  if ← atFunctionType r then functionType r
  else
    let c ← get
    let t ← unionType r
    if c.context.conditionalTypes && !(← afterBreak) && (← isWord .extends_) then
      advance
      let _ ← within (fun c => { c with conditionalTypes := false }) r.type
      expect .question
      let _ ← within (fun c => { c with conditionalTypes := true }) r.type
      expect .colon
      let _ ← within (fun c => { c with conditionalTypes := true }) r.type
      return .other (← sourceFrom c)
    return t

end ElementBridge.Grammar
