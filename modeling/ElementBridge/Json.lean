import ElementBridge.Token.Scan

/-!
JSON as data. Objects keep repeated keys, and a string that holds half a surrogate pair is
`malformed`, so that a reader decides about both.
-/

namespace ElementBridge

inductive Json where
  | null
  | bool (b : Bool)
  | number (literal : String)
  | string (s : String)
  | malformed
  | array (items : List Json)
  | object (fields : List (String × Json))
deriving Repr, Inhabited

namespace Json

def isSpace (c : Char) : Bool := c == ' ' || c == '\n' || c == '\t' || c == '\r'

def skipSpace (text : List Char) : List Char := text.dropWhile isSpace

def escape : List Char → Option (Nat × Nat)
  | 'u' :: a :: b :: c :: d :: _ =>
      if [a, b, c, d].all Scan.isHexDigit then some (Number.ofDigits 16 [a, b, c, d], 5) else none
  | '\x22' :: _ => some (34, 1)
  | '\\' :: _ => some (92, 1)
  | '/' :: _ => some (47, 1)
  | 'b' :: _ => some (8, 1)
  | 'f' :: _ => some (12, 1)
  | 'n' :: _ => some (10, 1)
  | 'r' :: _ => some (13, 1)
  | 't' :: _ => some (9, 1)
  | _ => none

def stringUnits : Nat → List Char → Option (List Nat × List Char)
  | _, [] => none
  | skip + 1, _ :: r => stringUnits skip r
  | 0, c :: r =>
      if c == '\x22' then some ([], r)
      else if c.toNat < 32 then none
      else if c == '\\' then
        match escape r with
        | none => none
        | some (u, n) => (stringUnits n r).map fun (us, rest) => (u :: us, rest)
      else (stringUnits 0 r).map fun (us, rest) => (c.toNat :: us, rest)

/-- A string behind its opening quote; its text is none if a surrogate stands alone. -/
def readString (text : List Char) : Option (Option String × List Char) :=
  (stringUnits 0 text).map fun (units, rest) =>
    let points := Scan.joinSurrogates units
    if points.any fun u => Scan.isLead u || Scan.isTrail u then (none, rest)
    else (some (String.ofList (points.map Char.ofNat)), rest)

def digits (text : List Char) : Option (List Char × List Char) :=
  match text.takeWhile Text.isDigit with
  | [] => none
  | run => some (run, text.drop run.length)

def wholePart (text : List Char) : Option (List Char) :=
  match text with
  | '0' :: r => some r
  | _ => (digits text).map (·.2)

def fractionPart (text : List Char) : Option (List Char) :=
  match text with
  | '.' :: r => (digits r).map (·.2)
  | _ => some text

def exponentPart (text : List Char) : Option (List Char) :=
  match text with
  | e :: r =>
      if Number.isExponentMark e then
        match r with
        | '+' :: r | '-' :: r => (digits r).map (·.2)
        | _ => (digits r).map (·.2)
      else some text
  | [] => some []

def readNumber (text : List Char) : Option (Json × List Char) := do
  let unsigned := match text with
    | '-' :: r => r
    | _ => text
  let rest ← exponentPart (← fractionPart (← wholePart unsigned))
  return (.number (String.ofList (text.take (text.length - rest.length))), rest)

def word (spelling : String) (value : Json) (text : List Char) : Option (Json × List Char) :=
  if spelling.toList.isPrefixOf text then some (value, text.drop spelling.length) else none

mutual

/-- A value at the head of a text. The first argument bounds the nesting and the length. -/
def value : Nat → List Char → Option (Json × List Char)
  | 0, _ => none
  | n + 1, text =>
      match skipSpace text with
      | '{' :: r =>
          match skipSpace r with
          | '}' :: r => some (.object [], r)
          | r => (fields n r).map fun (fs, rest) => (.object fs, rest)
      | '[' :: r =>
          match skipSpace r with
          | ']' :: r => some (.array [], r)
          | r => (items n r).map fun (vs, rest) => (.array vs, rest)
      | '\x22' :: r => (readString r).map fun (s, rest) => (s.elim .malformed .string, rest)
      | 'n' :: r => word "null" .null ('n' :: r)
      | 't' :: r => word "true" (.bool true) ('t' :: r)
      | 'f' :: r => word "false" (.bool false) ('f' :: r)
      | r => readNumber r

def items : Nat → List Char → Option (List Json × List Char)
  | 0, _ => none
  | n + 1, text =>
      match value n text with
      | none => none
      | some (v, r) =>
          match skipSpace r with
          | ',' :: r => (items n r).map fun (vs, rest) => (v :: vs, rest)
          | ']' :: r => some ([v], r)
          | _ => none

def fields : Nat → List Char → Option (List (String × Json) × List Char)
  | 0, _ => none
  | n + 1, text =>
      match skipSpace text with
      | '\x22' :: r =>
          match readString r with
          | some (some key, r) =>
              match skipSpace r with
              | ':' :: r =>
                  match value n r with
                  | none => none
                  | some (v, r) =>
                      match skipSpace r with
                      | ',' :: r => (fields n r).map fun (fs, rest) => ((key, v) :: fs, rest)
                      | '}' :: r => some ([(key, v)], r)
                      | _ => none
              | _ => none
          | _ => none
      | _ => none

end

def ofText? (text : String) : Option Json :=
  match value (2 * text.length + 2) text.toList with
  | some (v, rest) => if (skipSpace rest).isEmpty then some v else none
  | none => none

def escapeLetter (c : Char) : List Char :=
  if c == '\x22' then ['\\', '\x22']
  else if c == '\\' then ['\\', '\\']
  else if c == '\n' then ['\\', 'n']
  else if c == '\r' then ['\\', 'r']
  else if c == '\t' then ['\\', 't']
  else if c.toNat == 8 then ['\\', 'b']
  else if c.toNat == 12 then ['\\', 'f']
  else if c.toNat < 32 then '\\' :: 'u' :: Scan.hexFour c.toNat
  else [c]

def stringText (s : String) : String :=
  String.ofList ('\x22' :: s.toList.flatMap escapeLetter ++ ['\x22'])

def indent (depth : Nat) : String := String.ofList (List.replicate (2 * depth) ' ')

def bracketed (depth : Nat) (opening closing : String) (entries : List String) : String :=
  if entries.isEmpty then opening ++ closing
  else
    let inside := entries.map (indent (depth + 1) ++ ·)
    opening ++ "\n" ++ String.intercalate ",\n" inside ++ "\n" ++ indent depth ++ closing

mutual

def pretty (depth : Nat) : Json → String
  | .null => "null"
  | .bool b => if b then "true" else "false"
  | .number literal => literal
  | .string s => stringText s
  | .malformed => stringText ""
  | .array vs => bracketed depth "[" "]" (prettyItems (depth + 1) vs)
  | .object fs => bracketed depth "\x7b" "\x7d" (prettyFields (depth + 1) fs)

def prettyItems (depth : Nat) : List Json → List String
  | [] => []
  | v :: vs => pretty depth v :: prettyItems depth vs

def prettyFields (depth : Nat) : List (String × Json) → List String
  | [] => []
  | (key, v) :: fs => (stringText key ++ ": " ++ pretty depth v) :: prettyFields depth fs

end

end Json

end ElementBridge
