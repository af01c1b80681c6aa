/-!
Doubles as their bits, rounded from exact quotients: to the nearest one, and to the even one of two
that are equally near.
-/

namespace ElementBridge.Number

def twoTo (n : Nat) : Nat := Nat.pow 2 n

def tenTo (n : Nat) : Nat := Nat.pow 10 n

/-- Binary numbers of double precision. A finite one stands for `± mantissa · 2 ^ exponent`, with
`mantissa < 2 ^ 53`, and the exponent is the least possible one from `-1074` on. -/
inductive Double where
  | finite (negative : Bool) (mantissa : Nat) (exponent : Int)
  | infinite (negative : Bool)
deriving DecidableEq, Repr

namespace Double

def zero : Double := .finite false 0 (-1074)

def roundRatio (numerator denominator : Nat) : Nat :=
  let quotient := numerator / denominator
  let twice := 2 * (numerator % denominator)
  if twice < denominator || (twice == denominator && quotient % 2 == 0) then quotient
  else quotient + 1

def scaleRatio (numerator denominator : Nat) : Int → Nat × Nat
  | .ofNat e => (numerator, denominator * twoTo e)
  | .negSucc e => (numerator * twoTo (e + 1), denominator)

/-- The exponent at which the ratio has a mantissa of 53 bits, `-1074` if that would be below. -/
def exponentOf (numerator denominator : Nat) : Int :=
  let guess : Int := (numerator.log2 : Int) - denominator.log2 - 52
  let (n, d) := scaleRatio numerator denominator guess
  max (-1074) (if n / d < twoTo 52 then guess - 1 else guess)

def pack (negative : Bool) (mantissa : Nat) (exponent : Int) : Double :=
  let (m, e) := if mantissa = twoTo 53 then (twoTo 52, exponent + 1) else (mantissa, exponent)
  if 971 < e then .infinite negative else .finite negative m e

def ofRatio (negative : Bool) (numerator denominator : Nat) : Double :=
  if numerator = 0 then .finite negative 0 (-1074)
  else
    let e := exponentOf numerator denominator
    let (n, d) := scaleRatio numerator denominator e
    pack negative (roundRatio n d) e

def ofNat (n : Nat) : Double := ofRatio false n 1

def neg : Double → Double
  | .finite s m e => .finite (!s) m e
  | .infinite s => .infinite !s

def ofSignedRatio (numerator : Int) (denominator : Nat) : Double :=
  ofRatio (decide (numerator < 0)) numerator.natAbs denominator

def signed (negative : Bool) (n : Nat) : Int := if negative then -(n : Int) else n

def addOne : Double → Double
  | .finite s m (.ofNat e) => ofSignedRatio (signed s (m * twoTo e) + 1) 1
  | .finite s m (.negSucc e) => ofSignedRatio (signed s m + (twoTo (e + 1) : Nat)) (twoTo (e + 1))
  | .infinite s => .infinite s

def toBits : Double → Nat
  | .finite s m e =>
      (if s then twoTo 63 else 0)
        + if m < twoTo 52 then m else (e + 1075).toNat * twoTo 52 + (m - twoTo 52)
  | .infinite s => (if s then twoTo 63 else 0) + 2047 * twoTo 52

def toInt? : Double → Option Int
  | .finite s m (.ofNat e) => some (signed s (m * twoTo e))
  | .finite s m (.negSucc e) =>
      if m % twoTo (e + 1) = 0 then some (signed s (m / twoTo (e + 1))) else none
  | .infinite _ => none

end Double

end ElementBridge.Number
