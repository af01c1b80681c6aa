import ElementBridge.Tree
import ElementBridge.Token.Scan

/-!
Reading tokens one by one. A parser either reads a construct and moves the cursor past it, or
fails; a module with any mistake has no tree.
-/

namespace ElementBridge

structure Context where
  inOperator : Bool
  conditionalTypes : Bool
  returns : Bool
  await : Bool
  yield : Bool
  ambient : Bool
  decorator : Bool
deriving DecidableEq

def Context.topLevel : Context where
  inOperator := true
  conditionalTypes := true
  returns := false
  await := true
  yield := false
  ambient := false
  decorator := false

/-- A place between two tokens. `start` is the rest of the text from the next token on, `after` the
rest behind it; `previousEnd` is where the last token ended. `openDefaults` counts the shorthand
properties with a default value that no assignment has turned into a pattern. -/
structure Cursor where
  token : Token
  afterBreak : Bool
  start : List Char
  position : Nat
  after : List Char
  afterPosition : Nat
  previousEnd : Nat
  context : Context
  openDefaults : Nat

namespace Cursor

def setToken (c : Cursor) (token : Token) (length : Nat) : Cursor :=
  { c with
    token := token
    after := c.start.drop length
    afterPosition := c.position + length }

def moveTo (c : Cursor) (text : List Char) (position : Nat) : Cursor :=
  match Scan.gap .blank text 0 false with
  | none => { c with token := .invalid, start := text, position := position, after := text }
  | some (n, broken) =>
      let start := text.drop n
      let (token, length) := Scan.token start
      { c with
        token := token
        afterBreak := broken
        start := start
        position := position + n
        after := start.drop length
        afterPosition := position + n + length }

def next (c : Cursor) : Cursor :=
  { c.moveTo c.after c.afterPosition with previousEnd := c.afterPosition }

def ofText (text : List Char) : Cursor :=
  moveTo ⟨.invalid, true, [], 0, [], 0, 0, .topLevel, 0⟩ text 0

/-- The source between the next token at `c` and the last token before `d`. -/
def textTo (c d : Cursor) : String :=
  String.ofList (c.start.take (d.previousEnd - c.position))

def spelling (c : Cursor) : String :=
  String.ofList (c.start.take (c.afterPosition - c.position))

end Cursor

abbrev Parser (α : Type) := StateT Cursor Option α

namespace Parser

variable {α β : Type}

def token : Parser Token := return (← get).token

def afterBreak : Parser Bool := return (← get).afterBreak

def context : Parser Context := return (← get).context

def advance : Parser Unit := modify Cursor.next

def is (m : Mark) : Parser Bool := return (← get).token == .mark m

def eat (m : Mark) : Parser Bool := do
  if ← is m then advance; return true else return false

def expect (m : Mark) : Parser Unit := do
  unless ← eat m do failure

def keyword? : Parser (Option Keyword) := do
  match (← get).token with
  | .word _ k => return k
  | _ => return none

def isWord (k : Keyword) : Parser Bool := return (← keyword?) == some k

def eatWord (k : Keyword) : Parser Bool := do
  if ← isWord k then advance; return true else return false

def expectWord (k : Keyword) : Parser Unit := do
  unless ← eatWord k do failure

/-- The result of a parser without its effect, `false` where it fails. -/
def ahead (p : Parser Bool) : Parser Bool := fun c =>
  match p c with
  | some (b, _) => some (b, c)
  | none => some (false, c)

def attempt (p : Parser α) : Parser (Option α) := fun c =>
  match p c with
  | some (a, d) => some (some a, d)
  | none => some (none, c)

def quoted (p : Parser α) : Parser (α × String) := fun c =>
  match p c with
  | some (a, d) => some ((a, c.textTo d), d)
  | none => none

def within (change : Context → Context) (p : Parser α) : Parser α := fun c =>
  match p { c with context := change c.context } with
  | some (a, d) => some (a, { d with context := c.context })
  | none => none

/-- Repeats a step until it gives a result. The bound counts the steps. -/
def iterate (step : β → Parser (β ⊕ α)) : Nat → β → Parser α
  | 0, _ => failure
  | n + 1, b => do
      match ← step b with
      | .inl b => iterate step n b
      | .inr a => return a

/-- Constructs up to a closing mark, each after the first behind a comma; the last one may have a
comma of its own. -/
def commaList (bound : Nat) (close : Mark) (item : Parser α) : Parser (List α) :=
  iterate (fun found => do
    if ← is close then return .inr found.reverse
    let a ← item
    unless ← eat .comma do
      if ← is close then return .inr (a :: found).reverse
      failure
    return .inl (a :: found)) bound []

def many (bound : Nat) (item : Parser (Option α)) : Parser (List α) :=
  iterate (fun found => do
    match ← item with
    | some a => return .inl (a :: found)
    | none => return .inr found.reverse) bound []

def isWordToken : Parser Bool := do
  match (← get).token with
  | .word _ _ => return true
  | _ => return false

def anyName : Parser Word := do
  match (← get).token with
  | .word w _ => advance; return w
  | _ => failure

def isBinding (c : Context) : Token → Bool
  | .word _ (some .await) => !c.await
  | .word _ (some .yield) => !c.yield
  | .word _ (some k) => !k.isReserved
  | .word w none => !w.isReserved
  | _ => false

def atBinding : Parser Bool := do
  let c ← get
  return isBinding c.context c.token

def bindingName : Parser Name := do
  unless ← atBinding do failure
  match Name.ofWord? (← anyName) with
  | some name => return name
  | none => failure

def isString : Parser Bool := do
  match (← get).token with
  | .string _ => return true
  | _ => return false

def stringValue : Parser String := do
  match (← get).token with
  | .string v => advance; return v
  | _ => failure

/-- The end of a statement: a semicolon, or a place where one may be left out. -/
def atStatementEnd : Parser Bool := do
  let c ← get
  return c.afterBreak || c.token == .mark .semicolon || c.token == .mark .closeBrace
    || c.token == .endOfText

def endStatement : Parser Unit := do
  unless ← eat .semicolon do
    unless ← atStatementEnd do failure

def joinGreater : Parser Unit := do
  let c ← get
  if c.token == .mark .greater then
    let (m, length) := Scan.greaterOperator c.start
    set (c.setToken (.mark m) length)

def splitLess : Parser Unit := do
  let c ← get
  if c.token == .mark .shiftLeft then
    set (c.setToken (.mark .less) 1)

def regex : Parser Unit := do
  let c ← get
  match Scan.regex (c.start.drop 1) with
  | some n => set (c.setToken .number (n + 1)); advance
  | none => failure

/-- Reads on from a closing brace as the rest of a template: whether another substitution opens. -/
def templateRest : Parser Bool := do
  let c ← get
  unless c.token == .mark .closeBrace do failure
  match Scan.templateBody 0 (c.start.drop 1) with
  | some (opens, n) => set (c.setToken .template (n + 1)); advance; return opens
  | none => failure

end Parser

/-- Expressions that can stand left of an assignment, and whether as a pattern. -/
inductive Target where
  | name | member | pattern | none
deriving DecidableEq

structure Operand where
  expr : Tree.Expr
  target : Target

end ElementBridge
