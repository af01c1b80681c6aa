import ElementBridge.Text.Letter

namespace ElementBridge

inductive Keyword where
  | abstract | accessor | any | as | asserts | assert | async | await | bigint | boolean | break
  | case_ | catch_ | class_ | const | continue_ | debugger | declare | default | defer | delete
  | do_ | else_ | enum | export_ | extends_ | false_ | finally_ | for_ | from_ | function | get
  | global | if_ | implements | import_ | in_ | infer | instanceof | interface | intrinsic | is
  | keyof | let_ | module | namespace_ | never | new | null | number | object | of | out | override
  | package | private_ | protected_ | public_ | readonly | require | return_ | satisfies | set
  | source | static | string | super | switch | symbol | target | this | throw_ | true_ | try_
  | type | typeof | undefined | unique | unknown | using | var | void | while_ | with_ | yield
deriving DecidableEq, Repr

namespace Keyword

def spelling : Keyword → String
  | .abstract => "abstract" | .accessor => "accessor" | .any => "any" | .as => "as"
  | .asserts => "asserts" | .assert => "assert" | .async => "async" | .await => "await"
  | .bigint => "bigint" | .boolean => "boolean" | .break => "break" | .case_ => "case"
  | .catch_ => "catch" | .class_ => "class" | .const => "const" | .continue_ => "continue"
  | .debugger => "debugger" | .declare => "declare" | .default => "default" | .defer => "defer"
  | .delete => "delete" | .do_ => "do" | .else_ => "else" | .enum => "enum"
  | .export_ => "export" | .extends_ => "extends" | .false_ => "false" | .finally_ => "finally"
  | .for_ => "for" | .from_ => "from" | .function => "function" | .get => "get"
  | .global => "global" | .if_ => "if" | .implements => "implements" | .import_ => "import"
  | .in_ => "in" | .infer => "infer" | .instanceof => "instanceof" | .interface => "interface"
  | .intrinsic => "intrinsic" | .is => "is" | .keyof => "keyof" | .let_ => "let"
  | .module => "module" | .namespace_ => "namespace" | .never => "never" | .new => "new"
  | .null => "null" | .number => "number" | .object => "object" | .of => "of" | .out => "out"
  | .override => "override" | .package => "package" | .private_ => "private"
  | .protected_ => "protected" | .public_ => "public" | .readonly => "readonly"
  | .require => "require" | .return_ => "return" | .satisfies => "satisfies" | .set => "set"
  | .source => "source" | .static => "static" | .string => "string" | .super => "super"
  | .switch => "switch" | .symbol => "symbol" | .target => "target" | .this => "this"
  | .throw_ => "throw" | .true_ => "true" | .try_ => "try" | .type => "type"
  | .typeof => "typeof" | .undefined => "undefined" | .unique => "unique"
  | .unknown => "unknown" | .using => "using" | .var => "var" | .void => "void"
  | .while_ => "while" | .with_ => "with" | .yield => "yield"

def all : List Keyword := [
  .abstract, .accessor, .any, .as, .asserts, .assert, .async, .await, .bigint, .boolean, .break,
  .case_, .catch_, .class_, .const, .continue_, .debugger, .declare, .default, .defer, .delete,
  .do_, .else_, .enum, .export_, .extends_, .false_, .finally_, .for_, .from_, .function, .get,
  .global, .if_, .implements, .import_, .in_, .infer, .instanceof, .interface, .intrinsic, .is,
  .keyof, .let_, .module, .namespace_, .never, .new, .null, .number, .object, .of, .out, .override,
  .package, .private_, .protected_, .public_, .readonly, .require, .return_, .satisfies, .set,
  .source, .static, .string, .super, .switch, .symbol, .target, .this, .throw_, .true_, .try_,
  .type, .typeof, .undefined, .unique, .unknown, .using, .var, .void, .while_, .with_, .yield]

def ofSpelling? (word : String) : Option Keyword :=
  all.find? (·.spelling == word)

def isReserved : Keyword → Bool
  | .break | .case_ | .catch_ | .class_ | .const | .continue_ | .debugger | .default | .delete
  | .do_ | .else_ | .enum | .export_ | .extends_ | .false_ | .finally_ | .for_ | .function | .if_
  | .import_ | .in_ | .instanceof | .new | .null | .return_ | .super | .switch | .this | .throw_
  | .true_ | .try_ | .typeof | .var | .void | .while_ | .with_ => true
  | _ => false

end Keyword

/-- An identifier as a source spells it, escapes read. -/
structure Word where
  text : String
  isIdentifier : Text.isIdentifier text = true
deriving DecidableEq, Repr

namespace Word

def ofLetters? (letters : List Char) : Option Word :=
  if h : Text.isIdentifier (String.ofList letters) = true then some ⟨_, h⟩ else none

/-- A word that is reserved stays so when it is spelled with escapes. -/
def isReserved (w : Word) : Bool := (Keyword.ofSpelling? w.text).any Keyword.isReserved

end Word

structure Name where
  word : Word
  isFree : word.isReserved = false
deriving DecidableEq, Repr

namespace Name

def text (n : Name) : String := n.word.text

def ofWord? (w : Word) : Option Name := if h : w.isReserved = false then some ⟨w, h⟩ else none

end Name

structure DottedName where
  root : Word
  rest : List Word
deriving DecidableEq, Repr

def DottedName.text (n : DottedName) : String :=
  String.intercalate "." (n.root.text :: n.rest.map Word.text)

/-- Punctuation. `>` is always scanned alone; operators that no rule tells apart share a mark. -/
inductive Mark where
  | openBrace | closeBrace | openParen | closeParen | openBracket | closeBracket
  | dot | ellipsis | semicolon | comma | colon | question | questionDot | arrow | at | bang | tilde
  | less | greater | shiftLeft | plus | minus | plusPlus | minusMinus | star | starStar | slash
  | amp | bar | logical | coalesce | equals | compoundAssign | slashAssign | binary
deriving DecidableEq, Repr

inductive Token where
  | word (w : Word) (keyword : Option Keyword)
  | hashName (name : String)
  | string (value : String)
  | number
  | bigint
  | template
  | templateHead
  | mark (m : Mark)
  | endOfText
  | invalid
deriving DecidableEq, Repr

end ElementBridge
