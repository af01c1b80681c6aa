import ElementBridge.Surface.Reach

namespace ElementBridge

open ElementBridge.Tree

namespace Surface

def refused (file : String) (r : Refusal) : Failure :=
  .unsupported file r.context r.obstacle.message

def start (file : SourceFile) (c : Collected) (candidate : Candidate) : Surface :=
  { fileName := file.path.stem
    interfaces := c.interfaces
    enums := c.enums
    component :=
      { candidate.component with
        tag := Registration.tagOf candidate.component.name c.registrations }
    members := candidate.members
    imports := []
    referenced := [] }

def setting (config : Config) (file : SourceFile) (graph : ModuleGraph) (c : Collected) : Setting :=
  ⟨file.name, config.globalTypes, c.obstacles, c.imports, graph⟩

/-- A class that stays in its module cannot be built with its constructor from outside. -/
def checkReachable (file : SourceFile) (s : Surface) : Except Failure Surface :=
  if s.component.export = .unexported && s.component.isConstructed then
    .error (.unsupported file.name s.component.name Obstacle.unreachableConstructor.message)
  else .ok s

def ofCollected (config : Config) (file : SourceFile) (graph : ModuleGraph) (c : Collected) :
    Except Failure Surface :=
  match c.candidates with
  | [candidate] => do
      let s := start file c candidate
      let s ← (setting config file graph c).reach s.mentionBound s.mentions s
      checkReachable file s
  | candidates => .error (.ambiguous file.name (candidates.map (·.component.name)))

def ofModule (config : Config) (file : SourceFile) (graph : ModuleGraph) (m : Module) :
    Except Failure Surface := do
  let c ← (Collected.ofModule config m).mapError (refused file.name)
  ofCollected config file graph c

end Surface

namespace SourceFile

def parse (file : SourceFile) : Except Failure Module :=
  match Module.ofText? file.text with
  | some m => .ok m
  | none => .error (.unparsable file.name "the text is not a TypeScript module")

def surface (config : Config) (disk : Disk) (file : SourceFile) : Except Failure Surface := do
  let m ← file.parse
  Surface.ofModule config file (ModuleGraph.load disk file m) m

end SourceFile

end ElementBridge
