import ElementBridge.Component.OfNode
import ElementBridge.Declaration.OfNode
import ElementBridge.Surface
import ElementBridge.Surface.Registration

namespace ElementBridge

open ElementBridge.Tree

/-- The latest entry of a name counts in `obstacles` and in `imports`; it stands first. -/
structure Collected where
  interfaces : List Interface
  enums : List Enumeration
  obstacles : List (String × Obstacle)
  candidates : List Candidate
  imports : List (String × Imported)
  registrations : List Registration
deriving DecidableEq, Repr

namespace Collected

def empty : Collected := ⟨[], [], [], [], [], []⟩

def importedSymbol (module name : String) : ImportBinding → Imported
  | .named imported _ => ⟨module, imported, false⟩
  | .default => ⟨module, "default", false⟩
  | .whole => ⟨module, name, true⟩

def addImport (c : Collected) (i : Import) : Collected :=
  { c with
    imports := (i.specifiers.getD []).foldl
      (fun found (name, binding) => (name, importedSymbol i.module name binding) :: found)
      c.imports }

def addInterface (c : Collected) (name : String) (lowered : Except Obstacle Interface) :
    Collected :=
  match lowered with
  | .ok d => { c with interfaces := c.interfaces ++ [d] }
  | .error o => { c with obstacles := (name, o) :: c.obstacles }

def addEnum (c : Collected) (name : String) (lowered : Except Obstacle Enumeration) : Collected :=
  match lowered with
  | .ok d => { c with enums := c.enums ++ [d] }
  | .error o => { c with obstacles := (name, o) :: c.obstacles }

def addClass (c : Collected) (config : Config) (kind : Export) (node : ClassNode) :
    Except Refusal Collected := do
  let candidate ← Candidate.ofNode? config kind node
  return { c with candidates := c.candidates ++ candidate.toList }

/-- Adds a declaration. A type that cannot be lowered is remembered with its obstacle, which counts
only if the surface reaches it. -/
def addDeclaration (c : Collected) (config : Config) (kind : Export) :
    Declaration → Except Refusal Collected
  | .interface node => .ok (c.addInterface node.name.text (Interface.ofNode node))
  | .alias node => .ok (c.addInterface node.name.text (Interface.ofAlias node))
  | .enum node => .ok (c.addEnum node.name.text (Enumeration.ofNode node))
  | .classDef node => c.addClass config kind node
  | .other => .ok c

def addStatement (config : Config) (c : Collected) : Statement → Except Refusal Collected
  | .importFrom i => .ok (c.addImport i)
  | .declare d => c.addDeclaration config .unexported d
  | .exportDeclaration d => c.addDeclaration config .named d
  | .exportDefault (some node) => c.addClass config .default node
  | .exportDefault none | .exportNames _ _ | .exportAll _ _ => .ok c
  | .other parts => .ok { c with registrations := c.registrations ++ Registration.allOf parts }

def ofModule (config : Config) (m : Module) : Except Refusal Collected :=
  m.foldlM (addStatement config) empty

end Collected

end ElementBridge
