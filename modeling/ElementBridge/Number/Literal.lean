import ElementBridge.Text.Letter
import ElementBridge.Number.Double

namespace ElementBridge.Number

def digitValue (c : Char) : Nat :=
  if '0' ≤ c && c ≤ '9' then c.toNat - 48
  else if 'a' ≤ c && c ≤ 'f' then c.toNat - 87
  else if 'A' ≤ c && c ≤ 'F' then c.toNat - 55
  else 0

def ofDigits (base : Nat) (digits : List Char) : Nat :=
  digits.foldl (fun n c => n * base + digitValue c) 0

def roundBits (n : Nat) : Nat :=
  let excess := n.log2 - 52
  Double.roundRatio n (twoTo excess) * twoTo excess

/-- A number in base 2, 8 or 16. One that fits in 64 bits is rounded once, a longer one after every
digit. -/
def radixValue (base bits : Nat) (digits : List Char) : Double :=
  if digits.length * bits ≤ 64 then .ofNat (ofDigits base digits)
  else .ofNat (digits.foldl (fun n c => roundBits (n * base + digitValue c)) 0)

def exponentValue : List Char → Int
  | '-' :: digits => -(ofDigits 10 digits : Int)
  | '+' :: digits => ofDigits 10 digits
  | digits => ofDigits 10 digits

/-- The double nearest to `digits · 10 ^ exponent`. No power is taken beyond the range of
doubles. -/
def decimalValue (digits : Nat) (exponent : Int) : Double :=
  let order := exponent + (digits.log2 : Int) * 3 / 10
  if digits = 0 || order < -400 then .zero
  else if 400 < order then .infinite false
  else match exponent with
    | .ofNat e => .ofRatio false (digits * tenTo e) 1
    | .negSucc e => .ofRatio false digits (tenTo (e + 1))

def isExponentMark (c : Char) : Bool := c == 'e' || c == 'E'

def decimalLiteral (text : List Char) : Double :=
  let mantissa := text.takeWhile (!isExponentMark ·)
  let exponent := exponentValue ((text.dropWhile (!isExponentMark ·)).drop 1)
  let whole := mantissa.takeWhile (· != '.')
  let fraction := (mantissa.dropWhile (· != '.')).drop 1
  decimalValue (ofDigits 10 (whole ++ fraction)) (exponent - fraction.length)

def isOctalDigit (c : Char) : Bool := '0' ≤ c && c ≤ '7'

def literalValue (text : String) : Double :=
  match text.toList.filter (· != '_') with
  | '0' :: 'x' :: digits | '0' :: 'X' :: digits => radixValue 16 4 digits
  | '0' :: 'o' :: digits | '0' :: 'O' :: digits => radixValue 8 3 digits
  | '0' :: 'b' :: digits | '0' :: 'B' :: digits => radixValue 2 1 digits
  | '0' :: d :: digits =>
      if (d :: digits).all isOctalDigit then radixValue 8 3 (d :: digits)
      else decimalLiteral ('0' :: d :: digits)
  | digits => decimalLiteral digits

end ElementBridge.Number
