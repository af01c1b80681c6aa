import ElementBridge.Declaration
import ElementBridge.Component

namespace ElementBridge

/-- A symbol of another module. `whole` stands for the module itself. -/
structure Imported where
  module : String
  imported : String
  whole : Bool
deriving DecidableEq, Repr

abbrev ImportTable := List (String × Imported)

def ImportTable.insert (t : ImportTable) (name : String) (symbol : Imported) : ImportTable :=
  match t with
  | [] => [(name, symbol)]
  | (n, s) :: rest =>
      if n = name then (n, symbol) :: rest else (n, s) :: ImportTable.insert rest name symbol

structure Surface where
  fileName : String
  interfaces : List Interface
  enums : List Enumeration
  component : Component
  members : List Member
  imports : ImportTable
  referenced : List String
deriving DecidableEq, Repr

inductive Meaning where
  | interface (d : Interface)
  | enum (d : Enumeration)
  | component
  | primitive (p : Primitive)
  | array
  | global
  | external (module symbol : String)
deriving DecidableEq, Repr

namespace Surface

def isReferenced (s : Surface) (name : String) : Bool := s.referenced.contains name

def interface? (s : Surface) (name : String) : Option Interface :=
  s.interfaces.find? (·.name == name)

def enum? (s : Surface) (name : String) : Option Enumeration :=
  s.enums.find? (·.name == name)

/-- Declarations of the module itself; interfaces come before enums and the component last. -/
def localMeaning (s : Surface) (name : String) : Option Meaning :=
  match s.interface? name, s.enum? name with
  | some d, _ => some (.interface d)
  | none, some d => some (.enum d)
  | none, none => if s.component.name == name then some .component else none

def builtinMeaning (globals : List String) (name : String) : Option Meaning :=
  match Primitive.ofKeyword? name with
  | some p => some (.primitive p)
  | none =>
      if name == "Array" || name == "ReadonlyArray" then some .array
      else if globals.contains name then some .global
      else none

def importMeaning (s : Surface) (name : String) : Option Meaning :=
  (s.imports.lookup (rootName name)).map fun symbol => .external symbol.module (rootName name)

/-- The meaning of a name. Local declarations hide what is built in, and that hides imports. -/
def resolve (s : Surface) (globals : List String) (name : String) : Option Meaning :=
  (s.localMeaning name).or ((builtinMeaning globals name).or (s.importMeaning name))

def missing? (s : Surface) (globals : List String) (t : TypeExpr) : Option String :=
  t.references.find? fun name => (s.resolve globals name).isNone

def isEnum (s : Surface) (globals : List String) (name : String) : Bool :=
  match s.resolve globals name with
  | some (.enum _) => true
  | _ => false

end Surface

end ElementBridge
