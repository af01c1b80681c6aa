namespace ElementBridge

abbrev Lines := List String

structure Bridge where
  types : List Lines
  facade : Lines
  creator : Lines
  imports : Lines
deriving DecidableEq, Repr

namespace Bridge

def joinLines (lines : Lines) : String := String.intercalate "\n" lines

def blocks (b : Bridge) (header : Lines) : List Lines :=
  [header, b.imports].filter (!·.isEmpty) ++ b.types ++ [b.facade, b.creator]

def render (b : Bridge) (header : Lines) : String :=
  String.intercalate "\n\n" ((b.blocks header).map joinLines) ++ "\n"

end Bridge

end ElementBridge
