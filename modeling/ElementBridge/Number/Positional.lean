import ElementBridge.Number.Double

namespace ElementBridge.Number

/-- A positive double between the halfway points to its neighbours, all over one denominator. -/
structure Rounding where
  value : Nat
  lower : Nat
  upper : Nat
  denominator : Nat
  closed : Bool

/-- The numbers that round to `mantissa · 2 ^ exponent`. Below a power of two the neighbour is half
as far; the ends belong to an even mantissa. -/
def Rounding.of (mantissa : Nat) (exponent : Int) : Rounding :=
  let low := if mantissa = twoTo 52 && -1074 < exponent then 1 else 2
  let (up, down) := match exponent - 2 with
    | .ofNat e => (twoTo e, 1)
    | .negSucc e => (1, twoTo (e + 1))
  { value := 4 * mantissa * up
    lower := (4 * mantissa - low) * up
    upper := (4 * mantissa + 2) * up
    denominator := down
    closed := mantissa % 2 = 0 }

def Rounding.admits (r : Rounding) (digits : Nat) (power : Int) : Bool :=
  let (n, d) := match power with
    | .ofNat p => (digits * tenTo p * r.denominator, 1)
    | .negSucc p => (digits * r.denominator, tenTo (p + 1))
  if r.closed then r.lower * d ≤ n && n ≤ r.upper * d else r.lower * d < n && n < r.upper * d

/-- Twice the value over `10 ^ power`, cut to a whole number: the last bit tells the nearer
neighbour. -/
def Rounding.halves (r : Rounding) : Int → Nat
  | .ofNat p => 2 * r.value / (r.denominator * tenTo p)
  | .negSucc p => 2 * r.value * tenTo (p + 1) / r.denominator

/-- The value on the grid of `10 ^ power`, if one of its two neighbours there rounds to it. Of two
the nearer counts, of two equally near ones the upper. -/
def Rounding.onGrid (r : Rounding) (power : Int) : Option Nat :=
  let halves := r.halves power
  let below := halves / 2
  match r.admits below power, r.admits (below + 1) power with
  | true, true => some (if halves % 2 = 0 then below else below + 1)
  | true, false => some below
  | false, true => some (below + 1)
  | false, false => none

/-- The coarsest grid that holds the value, tried from `power` downwards. -/
def Rounding.shortest (r : Rounding) : Nat → Int → Nat × Int
  | 0, power => (r.halves power / 2, power)
  | steps + 1, power =>
      match r.onGrid power with
      | some digits => (digits, power)
      | none => r.shortest steps (power - 1)

def digitsOf (n : Nat) : List Char := Nat.toDigits 10 n

def placePoint (digits : List Char) : Int → List Char
  | .ofNat zeros => digits ++ List.replicate zeros '0'
  | .negSucc p =>
      let places := p + 1
      if places < digits.length then
        digits.take (digits.length - places) ++ '.' :: digits.drop (digits.length - places)
      else '0' :: '.' :: (List.replicate (places - digits.length) '0' ++ digits)

def positional (mantissa : Nat) (exponent : Int) : List Char :=
  let r := Rounding.of mantissa exponent
  let top : Int := (digitsOf (r.value / r.denominator)).length
  let small : Int := (digitsOf (r.denominator / r.value)).length
  let start := if r.denominator ≤ r.value then top else -small + 1
  let (digits, power) := r.shortest 20 start
  placePoint (digitsOf digits) power

def withSign (negative : Bool) (digits : List Char) : String :=
  String.ofList (if negative then '-' :: digits else digits)

/-- A double as text. Whole numbers below `10 ^ 15` are written digit by digit; zero has no sign. -/
def Double.toText (x : Double) : String :=
  match x with
  | .infinite s => withSign s ['i', 'n', 'f']
  | .finite s m e =>
      match x.toInt? with
      | some n =>
          if n.natAbs < tenTo 15 then withSign (n < 0) (digitsOf n.natAbs)
          else withSign s (positional m e)
      | none => withSign s (positional m e)

end ElementBridge.Number
