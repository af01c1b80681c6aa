namespace ElementBridge.Text

def replacement : Char := '\ufffd'

/-- What the bytes read so far leave open: nothing, or a letter with its bits so far, the number of
bytes it still needs and the range of the next one. -/
inductive Pending where
  | nothing
  | letter (bits missing low high : Nat)
deriving DecidableEq, Repr

def openLetter (b : Nat) : List Char × Pending :=
  if b < 0x80 then ([Char.ofNat b], .nothing)
  else if b < 0xC2 then ([replacement], .nothing)
  else if b < 0xE0 then ([], .letter (b - 0xC0) 1 0x80 0xBF)
  else if b = 0xE0 then ([], .letter 0 2 0xA0 0xBF)
  else if b = 0xED then ([], .letter 0xD 2 0x80 0x9F)
  else if b < 0xF0 then ([], .letter (b - 0xE0) 2 0x80 0xBF)
  else if b = 0xF0 then ([], .letter 0 3 0x90 0xBF)
  else if b < 0xF4 then ([], .letter (b - 0xF0) 3 0x80 0xBF)
  else if b = 0xF4 then ([], .letter 4 3 0x80 0x8F)
  else ([replacement], .nothing)

/-- One byte more. One that does not continue the letter ends it and opens the next. -/
def feed : Pending → Nat → List Char × Pending
  | .nothing, b => openLetter b
  | .letter bits missing low high, b =>
      if low ≤ b && b ≤ high then
        let bits := 64 * bits + (b - 0x80)
        if missing ≤ 1 then ([Char.ofNat bits], .nothing)
        else ([], .letter bits (missing - 1) 0x80 0xBF)
      else
        let (letters, pending) := openLetter b
        (replacement :: letters, pending)

def lettersFrom : Pending → List UInt8 → List Char
  | .nothing, [] => []
  | .letter .., [] => [replacement]
  | pending, b :: rest =>
      let (letters, pending) := feed pending b.toNat
      letters ++ lettersFrom pending rest

/-- The text of UTF-8 bytes. Each byte that opens no letter, and each beginning of a letter that is
not completed, stands for one replacement character. -/
def ofBytes (bytes : ByteArray) : String := String.ofList (lettersFrom .nothing bytes.toList)

end ElementBridge.Text
