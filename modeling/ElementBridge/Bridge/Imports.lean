import ElementBridge.Config
import ElementBridge.Sorted
import ElementBridge.Surface

namespace ElementBridge.Bridge

/-- What one module is imported for. `named` pairs local and imported names; both lists ascend. -/
structure ModuleImports where
  wholes : List String
  default : Option String
  named : List (String × String)
  sideEffect : Bool
deriving DecidableEq, Repr

namespace ModuleImports

def empty : ModuleImports := ⟨[], none, [], false⟩

def pairBefore (a b : String × String) : Bool :=
  Sorted.textBefore a.1 b.1 || (a.1 == b.1 && Sorted.textBefore a.2 b.2)

def addNamed (m : ModuleImports) (name imported : String) : ModuleImports :=
  { m with named := Sorted.insert pairBefore (name, imported) m.named }

/-- A second name for the default export goes among the named imports. -/
def addDefault (m : ModuleImports) (name : String) : ModuleImports :=
  match m.default with
  | some first => if first = name then m else m.addNamed name "default"
  | none => { m with default := some name }

def addWhole (m : ModuleImports) (name : String) : ModuleImports :=
  { m with wholes := Sorted.insert Sorted.textBefore name m.wholes }

def add (m : ModuleImports) (name : String) (symbol : Imported) : ModuleImports :=
  if symbol.whole then m.addWhole name
  else if symbol.imported == "default" then m.addDefault name
  else m.addNamed name symbol.imported

def addComponent (m : ModuleImports) (c : Component) : ModuleImports :=
  match c.isConstructed, c.export with
  | true, .default => m.addDefault c.name
  | true, .named => m.addNamed c.name c.name
  | _, _ => { m with sideEffect := true }

def namedText (pair : String × String) : String :=
  if pair.1 = pair.2 then pair.1 else pair.2 ++ " as " ++ pair.1

def clauses (m : ModuleImports) : List String :=
  m.default.toList
    ++ if m.named.isEmpty then []
       else ["\x7b" ++ String.intercalate ", " (m.named.map namedText) ++ "\x7d"]

def fromText (module : String) : String := "'" ++ module ++ "';"

/-- The statements that import a module. A bare import stands only where no other one does. -/
def lines (module : String) (m : ModuleImports) : List String :=
  m.wholes.map (fun name => "import * as " ++ name ++ " from " ++ fromText module)
    ++ match m.clauses with
      | [] =>
          if m.sideEffect && m.wholes.isEmpty then ["import " ++ fromText module] else []
      | clauses =>
          ["import " ++ String.intercalate ", " clauses ++ " from " ++ fromText module]

end ModuleImports

def alterModule (module : String) (change : ModuleImports → ModuleImports) :
    List (String × ModuleImports) → List (String × ModuleImports)
  | [] => [(module, change .empty)]
  | (name, m) :: rest =>
      if module = name then (name, change m) :: rest
      else if Sorted.textBefore module name then (module, change .empty) :: (name, m) :: rest
      else (name, m) :: alterModule module change rest

def moduleImports (s : Surface) (config : Config) : List (String × ModuleImports) :=
  let taken := s.imports.foldl (fun modules (name, symbol) =>
    alterModule symbol.module (·.add name symbol) modules) []
  alterModule (config.componentModule s.fileName) (·.addComponent s.component) taken

def importLines (s : Surface) (config : Config) : List String :=
  (moduleImports s config).flatMap fun (module, m) => m.lines module

end ElementBridge.Bridge
