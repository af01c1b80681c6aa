/-!
Paths by their components. Operations keep the spelling of what they do not touch.
-/

namespace ElementBridge

/-- A path as it is written. Two paths that differ in doubled slashes or in `.` behind the first
component have the same components. -/
structure Path where
  text : String
deriving DecidableEq, Repr

namespace Path

inductive Component where
  | root
  | here
  | up
  | name (s : String)
deriving DecidableEq, Repr

def split : List Char → List (List Char)
  | [] => [[]]
  | c :: rest =>
      if c == '/' then [] :: split rest
      else match split rest with
        | [] => [[c]]
        | piece :: pieces => (c :: piece) :: pieces

def joinPieces : List (List Char) → List Char
  | [] => []
  | [piece] => piece
  | piece :: pieces => piece ++ '/' :: joinPieces pieces

theorem split_ne_nil (text : List Char) : split text ≠ [] := by
  cases text with
  | nil => simp [split]
  | cons c rest =>
      simp only [split]
      split
      · simp
      · split <;> simp

def isAbsolute (p : Path) : Bool := p.text.toList.head? == some '/'

def componentOf (piece : List Char) : Option Component :=
  if piece = [] || piece = ['.'] then none
  else if piece = ['.', '.'] then some .up
  else some (.name (String.ofList piece))

/-- The pieces behind the start of a path: behind the slash of an absolute one, and behind a leading
`.` of a relative one. -/
def body (p : Path) : Option Component × List (List Char) :=
  match p.text.toList with
  | '/' :: rest => (some .root, split rest)
  | text =>
      match split text with
      | ['.'] :: pieces => (some .here, pieces)
      | pieces => (none, pieces)

def components (p : Path) : List Component :=
  let (start, pieces) := p.body
  start.toList ++ pieces.filterMap componentOf

def same (p q : Path) : Bool := p.components == q.components

def fileName? (p : Path) : Option String :=
  match p.components.getLast? with
  | some (.name s) => some s
  | _ => none

def dropTrivial (pieces : List (List Char)) : List (List Char) :=
  (pieces.reverse.dropWhile fun piece => (componentOf piece).isNone).reverse

/-- The path without its last component, as it is written; none for a root and an empty path. -/
def parent? (p : Path) : Option Path :=
  let (start, pieces) := p.body
  match start, (dropTrivial pieces).reverse with
  | start, _ :: before =>
      let kept := dropTrivial before.reverse
      match start with
      | some .root => some ⟨String.ofList ('/' :: joinPieces kept)⟩
      | some _ => some ⟨String.ofList (joinPieces (['.'] :: kept))⟩
      | none => some ⟨String.ofList (joinPieces kept)⟩
  | some .here, [] => some ⟨""⟩
  | _, [] => none

def parent (p : Path) : Path := p.parent?.getD ⟨""⟩

def join (dir : Path) (p : Path) : Path :=
  if p.isAbsolute || dir.text == "" then p
  else if dir.text.toList.getLast? == some '/' then ⟨dir.text ++ p.text⟩
  else ⟨dir.text ++ "/" ++ p.text⟩

/-- The path with another last component. One that ends in no name gets a component more. -/
def withFileName (p : Path) (name : String) : Path :=
  (if p.fileName?.isSome then p.parent else p).join ⟨name⟩

/-- A file name without its extension. A leading dot starts no extension. -/
def stemOf (name : String) : String :=
  let reversed := name.toList.reverse
  match (reversed.dropWhile (· != '.')).drop 1 with
  | [] => name
  | before => String.ofList before.reverse

def stem (p : Path) : String := (p.fileName?.map stemOf).getD ""

def hasSuffix (suffix text : String) : Bool := suffix.toList.isSuffixOf text.toList

def stripSuffix? (suffix text : String) : Option String :=
  if hasSuffix suffix text then
    some (String.ofList (text.toList.take (text.length - suffix.length)))
  else none

end Path

end ElementBridge
