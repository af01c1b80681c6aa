import ElementBridge.Text.Letter
import ElementBridge.Number.Literal
import ElementBridge.Token

/-!
Tokens of a source text. Every scanner reads from the head of the text and gives the number of
letters that it covers.
-/

namespace ElementBridge.Scan

open ElementBridge.Text

def isLineBreak (c : Char) : Bool :=
  c == '\n' || c == '\r' || c == '\u2028' || c == '\u2029'

def isBlank (c : Char) : Bool :=
  let n := c.toNat
  n == 0x9 || n == 0xB || n == 0xC || n == 0x20 || n == 0x85 || n == 0xA0 || n == 0x1680
    || (0x2000 ≤ n && n ≤ 0x200B) || n == 0x202F || n == 0x205F || n == 0x3000 || n == 0xFEFF

inductive Gap where
  | blank | line | block

/-- Blanks and comments, and whether a line ends in them. An open comment has no length. -/
def gap : Gap → List Char → Nat → Bool → Option (Nat × Bool)
  | .blank, '/' :: '/' :: r, n, broken => gap .line r (n + 2) broken
  | .blank, '/' :: '*' :: r, n, broken => gap .block r (n + 2) broken
  | .blank, c :: r, n, broken =>
      if isLineBreak c then gap .blank r (n + 1) true
      else if isBlank c then gap .blank r (n + 1) broken
      else some (n, broken)
  | .line, c :: r, n, broken =>
      if isLineBreak c then gap .blank r (n + 1) true else gap .line r (n + 1) broken
  | .block, '*' :: '/' :: r, n, broken => gap .blank r (n + 2) broken
  | .block, c :: r, n, broken => gap .block r (n + 1) (broken || isLineBreak c)
  | .block, [], _, _ => none
  | _, [], n, broken => some (n, broken)

def isHexDigit (c : Char) : Bool :=
  isDigit c || ('a' ≤ c && c ≤ 'f') || ('A' ≤ c && c ≤ 'F')

def unicodeEscape : List Char → Option (Nat × Nat)
  | '{' :: r =>
      let digits := r.takeWhile isHexDigit
      let value := Number.ofDigits 16 digits
      match digits, r.drop digits.length with
      | _ :: _, '}' :: _ => if value ≤ 0x10FFFF then some (value, digits.length + 2) else none
      | _, _ => none
  | a :: b :: c :: d :: _ =>
      if [a, b, c, d].all isHexDigit then some (Number.ofDigits 16 [a, b, c, d], 4) else none
  | _ => none

/-- The letters of a word, escapes read, and its length. The first argument counts letters that
belong to an escape already read. -/
def wordLetters : Nat → List Char → Option (List Char × Nat)
  | _, [] => some ([], 0)
  | skip + 1, _ :: r => (wordLetters skip r).map fun (w, n) => (w, n + 1)
  | 0, '\\' :: r =>
      match r with
      | 'u' :: e =>
          match unicodeEscape e with
          | some (value, length) =>
              if isIdentifierPart (Char.ofNat value) then
                (wordLetters (length + 1) r).map fun (w, n) => (Char.ofNat value :: w, n + 1)
              else none
          | none => none
      | _ => none
  | 0, c :: r =>
      if isIdentifierPart c then (wordLetters 0 r).map fun (w, n) => (c :: w, n + 1)
      else some ([], 0)

def word (text : List Char) : Option (Word × Nat) := do
  let (letters, n) ← wordLetters 0 text
  return (← Word.ofLetters? letters, n)

def octalValue (digits : List Char) : Nat := Number.ofDigits 8 digits

/-- What follows a backslash in a string: the code units it stands for, and its length. -/
def stringEscape : List Char → Option (List Nat × Nat)
  | [] => none
  | 'n' :: _ => some ([10], 1)
  | 't' :: _ => some ([9], 1)
  | 'b' :: _ => some ([8], 1)
  | 'v' :: _ => some ([11], 1)
  | 'f' :: _ => some ([12], 1)
  | 'r' :: _ => some ([13], 1)
  | 'x' :: a :: b :: _ =>
      if isHexDigit a && isHexDigit b then some ([Number.ofDigits 16 [a, b]], 3) else none
  | 'x' :: _ => none
  | 'u' :: e => (unicodeEscape e).map fun (value, length) => ([value], length + 1)
  | '\r' :: '\n' :: _ => some ([], 2)
  | c :: r =>
      if isLineBreak c then some ([], 1)
      else if Number.isOctalDigit c then
        let more := (r.take (if c ≤ '3' then 2 else 1)).takeWhile Number.isOctalDigit
        some ([octalValue (c :: more)], more.length + 1)
      else some ([c.toNat], 1)

def stringBody (quote : Char) : Nat → List Char → Option (List Nat × Nat)
  | _, [] => none
  | skip + 1, _ :: r => (stringBody quote skip r).map fun (us, n) => (us, n + 1)
  | 0, c :: r =>
      if c == quote then some ([], 1)
      else if c == '\n' || c == '\r' then none
      else if c == '\\' then
        match stringEscape r with
        | none => none
        | some (vs, length) => (stringBody quote length r).map fun (us, n) => (vs ++ us, n + 1)
      else (stringBody quote 0 r).map fun (us, n) => (c.toNat :: us, n + 1)

def isLead (u : Nat) : Bool := 0xD800 ≤ u && u ≤ 0xDBFF

def isTrail (u : Nat) : Bool := 0xDC00 ≤ u && u ≤ 0xDFFF

def joinSurrogates : List Nat → List Nat
  | u :: v :: r =>
      if isLead u && isTrail v then
        ((u - 0xD800) * 0x400 + (v - 0xDC00) + 0x10000) :: joinSurrogates r
      else u :: joinSurrogates (v :: r)
  | us => us

def hexFour (n : Nat) : List Char :=
  [n / 4096, n / 256 % 16, n / 16 % 16, n % 16].map Nat.digitChar

/-- Code points as letters. If a surrogate stands alone, it is written as U+FFFD and its four hex
digits, and U+FFFD itself likewise. -/
def pointsText (points : List Nat) : String :=
  if points.any fun u => isLead u || isTrail u then
    String.ofList (points.flatMap fun u =>
      if isLead u || isTrail u || u == 0xFFFD then '\uFFFD' :: hexFour u else [Char.ofNat u])
  else String.ofList (points.map Char.ofNat)

def string (quote : Char) (text : List Char) : Token × Nat :=
  match stringBody quote 0 text with
  | some (units, n) => (.string (pointsText (joinSurrogates units)), n + 1)
  | none => (.invalid, 0)

def isEscapedDigit : List Char → Bool
  | '0' :: c :: _ => isDigit c
  | '0' :: [] => false
  | c :: _ => isDigit c
  | [] => false

def templateBody : Nat → List Char → Option (Bool × Nat)
  | _, [] => none
  | skip + 1, _ :: r => (templateBody skip r).map fun (opens, n) => (opens, n + 1)
  | 0, '\x60' :: _ => some (false, 1)
  | 0, '$' :: '{' :: _ => some (true, 2)
  | 0, '\\' :: r =>
      if isEscapedDigit r then none
      else match stringEscape r with
        | none => none
        | some (_, length) => (templateBody length r).map fun (opens, n) => (opens, n + 1)
  | 0, _ :: r => (templateBody 0 r).map fun (opens, n) => (opens, n + 1)

def template (text : List Char) : Token × Nat :=
  match templateBody 0 text with
  | some (false, n) => (.template, n + 1)
  | some (true, n) => (.templateHead, n + 1)
  | none => (.invalid, 0)

def regexBody : Bool → List Char → Option Nat
  | _, [] => none
  | set, '\\' :: c :: r => if isLineBreak c then none else (regexBody set r).map (· + 2)
  | set, c :: r =>
      if isLineBreak c then none
      else if c == '/' && !set then some 1
      else (regexBody (if c == '[' then true else if c == ']' then false else set) r).map (· + 1)

def validFlags (flags : List Char) : Bool :=
  flags.all (['d', 'g', 'i', 'm', 's', 'u', 'v', 'y'].contains ·)
    && flags.eraseDups.length == flags.length
    && !(flags.contains 'u' && flags.contains 'v')

def regex (text : List Char) : Option Nat :=
  match regexBody false text with
  | none => none
  | some n =>
      let flags := (text.drop n).takeWhile isIdentifierPart
      if validFlags flags then some (n + flags.length) else none

def noDoubleSeparator : List Char → Bool
  | '_' :: '_' :: _ => false
  | _ :: r => noDoubleSeparator r
  | [] => true

def validDigits (digits : List Char) : Bool :=
  digits.head? != some '_' && digits.getLast? != some '_' && noDoubleSeparator digits

def digitRun (isOk : Char → Bool) (text : List Char) : Option (List Char × List Char) :=
  let run := text.takeWhile fun c => isOk c || c == '_'
  if validDigits run then some (run, text.drop run.length) else none

def fraction (text : List Char) : Option (Nat × List Char) :=
  match text with
  | '.' :: r => (digitRun isDigit r).map fun (ds, rest) => (ds.length + 1, rest)
  | _ => some (0, text)

def exponent (text : List Char) : Option (Nat × List Char) :=
  match text with
  | e :: r =>
      if Number.isExponentMark e then
        let sign := match r with
          | '+' :: _ | '-' :: _ => 1
          | _ => 0
        match digitRun isDigit (r.drop sign) with
        | some (_ :: ds, rest) => some (ds.length + 2 + sign, rest)
        | _ => none
      else some (0, text)
  | [] => some (0, text)

def endNumber (token : Token) (length : Nat) (rest : List Char) : Token × Nat :=
  match rest with
  | c :: _ => if isIdentifierPart c || c == '\\' then (.invalid, 0) else (token, length)
  | [] => (token, length)

def radixNumber (isOk : Char → Bool) (text : List Char) : Token × Nat :=
  match digitRun isOk text with
  | some (_ :: ds, 'n' :: rest) => endNumber .bigint (ds.length + 4) rest
  | some (_ :: ds, rest) => endNumber .number (ds.length + 3) rest
  | _ => (.invalid, 0)

def decimalNumber (text : List Char) : Token × Nat :=
  match digitRun isDigit text with
  | none => (.invalid, 0)
  | some (whole, rest) =>
      let plain := !(whole.length > 1 && whole.head? == some '0')
      if !plain && whole.contains '_' then (.invalid, 0)
      else match rest with
        | 'n' :: rest' =>
            if plain then endNumber .bigint (whole.length + 1) rest' else (.invalid, 0)
        | _ =>
            if !plain && whole.all Number.isOctalDigit then endNumber .number whole.length rest
            else match fraction rest with
              | none => (.invalid, 0)
              | some (n, rest) =>
                  match exponent rest with
                  | none => (.invalid, 0)
                  | some (m, rest) => endNumber .number (whole.length + n + m) rest

def number (text : List Char) : Token × Nat :=
  match text with
  | '0' :: 'x' :: r | '0' :: 'X' :: r => radixNumber isHexDigit r
  | '0' :: 'o' :: r | '0' :: 'O' :: r => radixNumber Number.isOctalDigit r
  | '0' :: 'b' :: r | '0' :: 'B' :: r => radixNumber (fun c => c == '0' || c == '1') r
  | _ => decimalNumber text

def startsDigit : List Char → Bool
  | c :: _ => isDigit c
  | [] => false

def mark : List Char → Option (Mark × Nat)
  | '{' :: _ => some (.openBrace, 1)
  | '}' :: _ => some (.closeBrace, 1)
  | '(' :: _ => some (.openParen, 1)
  | ')' :: _ => some (.closeParen, 1)
  | '[' :: _ => some (.openBracket, 1)
  | ']' :: _ => some (.closeBracket, 1)
  | '.' :: '.' :: '.' :: _ => some (.ellipsis, 3)
  | '.' :: _ => some (.dot, 1)
  | ';' :: _ => some (.semicolon, 1)
  | ',' :: _ => some (.comma, 1)
  | ':' :: _ => some (.colon, 1)
  | '?' :: '?' :: '=' :: _ => some (.compoundAssign, 3)
  | '?' :: '?' :: _ => some (.coalesce, 2)
  | '?' :: '.' :: r => if startsDigit r then some (.question, 1) else some (.questionDot, 2)
  | '?' :: _ => some (.question, 1)
  | '=' :: '=' :: '=' :: _ => some (.binary, 3)
  | '=' :: '=' :: _ => some (.binary, 2)
  | '=' :: '>' :: _ => some (.arrow, 2)
  | '=' :: _ => some (.equals, 1)
  | '@' :: _ => some (.at, 1)
  | '!' :: '=' :: '=' :: _ => some (.binary, 3)
  | '!' :: '=' :: _ => some (.binary, 2)
  | '!' :: _ => some (.bang, 1)
  | '~' :: _ => some (.tilde, 1)
  | '<' :: '<' :: '=' :: _ => some (.compoundAssign, 3)
  | '<' :: '<' :: _ => some (.shiftLeft, 2)
  | '<' :: '=' :: _ => some (.binary, 2)
  | '<' :: _ => some (.less, 1)
  | '>' :: _ => some (.greater, 1)
  | '+' :: '+' :: _ => some (.plusPlus, 2)
  | '+' :: '=' :: _ => some (.compoundAssign, 2)
  | '+' :: _ => some (.plus, 1)
  | '-' :: '-' :: _ => some (.minusMinus, 2)
  | '-' :: '=' :: _ => some (.compoundAssign, 2)
  | '-' :: _ => some (.minus, 1)
  | '*' :: '*' :: '=' :: _ => some (.compoundAssign, 3)
  | '*' :: '*' :: _ => some (.starStar, 2)
  | '*' :: '=' :: _ => some (.compoundAssign, 2)
  | '*' :: _ => some (.star, 1)
  | '/' :: '=' :: _ => some (.slashAssign, 2)
  | '/' :: _ => some (.slash, 1)
  | '%' :: '=' :: _ => some (.compoundAssign, 2)
  | '%' :: _ => some (.binary, 1)
  | '&' :: '&' :: '=' :: _ => some (.compoundAssign, 3)
  | '&' :: '&' :: _ => some (.logical, 2)
  | '&' :: '=' :: _ => some (.compoundAssign, 2)
  | '&' :: _ => some (.amp, 1)
  | '|' :: '|' :: '=' :: _ => some (.compoundAssign, 3)
  | '|' :: '|' :: _ => some (.logical, 2)
  | '|' :: '=' :: _ => some (.compoundAssign, 2)
  | '|' :: _ => some (.bar, 1)
  | '^' :: '=' :: _ => some (.compoundAssign, 2)
  | '^' :: _ => some (.binary, 1)
  | _ => none

def greaterOperator : List Char → Mark × Nat
  | '>' :: '>' :: '>' :: '=' :: _ => (.compoundAssign, 4)
  | '>' :: '>' :: '>' :: _ => (.binary, 3)
  | '>' :: '>' :: '=' :: _ => (.compoundAssign, 3)
  | '>' :: '>' :: _ => (.binary, 2)
  | '>' :: '=' :: _ => (.binary, 2)
  | _ => (.greater, 1)

def wordToken (text : List Char) : Token × Nat :=
  match word text with
  | none => (.invalid, 0)
  | some (w, n) => (.word w (if n = w.text.length then Keyword.ofSpelling? w.text else none), n)

def token (text : List Char) : Token × Nat :=
  match text with
  | [] => (.endOfText, 0)
  | '\x22' :: r => string '\x22' r
  | '\x27' :: r => string '\x27' r
  | '\x60' :: r => template r
  | '#' :: r =>
      match word r with
      | some (w, n) => (.hashName w.text, n + 1)
      | none => (.invalid, 0)
  | '.' :: c :: _ =>
      if isDigit c then decimalNumber text
      else match mark text with
        | some (m, n) => (.mark m, n)
        | none => (.invalid, 0)
  | c :: _ =>
      if isDigit c then number text
      else match mark text with
        | some (m, n) => (.mark m, n)
        | none => wordToken text

end ElementBridge.Scan
