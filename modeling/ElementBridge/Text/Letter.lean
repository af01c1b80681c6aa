import ElementBridge.Text.CodeRanges
import ElementBridge.Text.IdentifierRanges
import ElementBridge.Text.CapitalRanges

namespace ElementBridge.Text

def isAsciiLetter (c : Char) : Bool :=
  ('a' ≤ c && c ≤ 'z') || ('A' ≤ c && c ≤ 'Z')

def isDigit (c : Char) : Bool := '0' ≤ c && c ≤ '9'

def isAscii (c : Char) : Bool := c.toNat < 128

def isIdentifierStart (c : Char) : Bool :=
  if isAscii c then isAsciiLetter c || c == '$' || c == '_'
  else inRanges identifierStarts c

def isIdentifierPart (c : Char) : Bool :=
  if isAscii c then isAsciiLetter c || isDigit c || c == '$' || c == '_'
  else inRanges identifierStarts c || inRanges identifierExtenders c
    || c == '\u200c' || c == '\u200d'

def isIdentifier (name : String) : Bool :=
  match name.toList with
  | [] => false
  | c :: rest => isIdentifierStart c && rest.all isIdentifierPart

def isWhiteSpace (c : Char) : Bool :=
  let n := c.toNat
  (0x9 ≤ n && n ≤ 0xD) || n == 0x20 || n == 0x85 || n == 0xA0 || n == 0x1680
    || (0x2000 ≤ n && n ≤ 0x200A) || n == 0x2028 || n == 0x2029 || n == 0x202F
    || n == 0x205F || n == 0x3000

/-- Symbols that continue an identifier and are no word letters. -/
def identifierSymbols : Array (Nat × Nat) := #[
  (0xB7, 0xB7), (0x387, 0x387), (0x1369, 0x1371), (0x19DA, 0x19DA), (0x2118, 0x2118),
  (0x212E, 0x212E), (0x309B, 0x309C), (0x30FB, 0x30FB), (0xFF65, 0xFF65)]

/-- Word letters that cannot stand in an identifier: enclosing marks and circled letters. -/
def enclosedLetters : Array (Nat × Nat) := #[
  (0x488, 0x489), (0x1ABE, 0x1ABE), (0x200C, 0x200D), (0x20DD, 0x20E0), (0x20E2, 0x20E4),
  (0x24B6, 0x24E9), (0x2E2F, 0x2E2F), (0xA670, 0xA672), (0x1F130, 0x1F149), (0x1F150, 0x1F169),
  (0x1F170, 0x1F189)]

def isWordLetter (c : Char) : Bool :=
  if isAscii c then isAsciiLetter c || isDigit c || c == '_'
  else if inRanges identifierSymbols c then false
  else inRanges identifierStarts c || inRanges identifierExtenders c || inRanges enclosedLetters c

def runCapital (c : Nat) : Option Nat :=
  capitalRuns.findSome? fun (first, last, step, capital) =>
    if first ≤ c && c ≤ last && (c - first) % step == 0 then some (capital + (c - first)) else none

def capital (c : Char) : List Char :=
  if isAscii c then [if 'a' ≤ c && c ≤ 'z' then Char.ofNat (c.toNat - 32) else c]
  else match capitalSequences.lookup c.toNat with
    | some letters => letters.map Char.ofNat
    | none => [(runCapital c.toNat).elim c Char.ofNat]

def capitalize (name : String) : String :=
  match name.toList with
  | [] => ""
  | c :: rest => String.ofList (capital c ++ rest)

def isNameStart (c : Char) : Bool := isAsciiLetter c || c == '_' || c == '$'

def isNamePart (c : Char) : Bool := isNameStart c || isDigit c

/-- Names that an object key may carry without quotes. Only ASCII counts. -/
def isBareKey (name : String) : Bool :=
  match name.toList with
  | [] => false
  | c :: rest => isNameStart c && rest.all isNamePart

end ElementBridge.Text
