import ElementBridge.Failure
import ElementBridge.ModuleGraph
import ElementBridge.Surface.Collected

namespace ElementBridge

structure Mention where
  name : String
  origin : String
deriving DecidableEq, Repr

namespace Mention

def ofType (origin : String) (t : TypeExpr) : List Mention :=
  t.references.map fun name => ⟨name, origin⟩

def ofTypes (origin : String) (ts : List TypeExpr) : List Mention := ts.flatMap (ofType origin)

def ofShape (name : String) : Shape → List Mention
  | .record fields => fields.flatMap fun f => ofType (name ++ "." ++ f.name) f.type
  | .alias t => ofType name t

def ofInterface (d : Interface) : List Mention :=
  d.bases.map (fun base => ⟨base, d.name⟩) ++ ofShape d.name d.shape

end Mention

def Surface.mentions (s : Surface) : List Mention :=
  (s.members.flatMap fun m => Mention.ofTypes m.name m.types)
    ++ s.component.params.flatMap fun p => Mention.ofType "constructor" p.type

structure Setting where
  file : String
  globals : List String
  obstacles : List (String × Obstacle)
  imports : List (String × Imported)
  graph : ModuleGraph

namespace Setting

def unresolved (e : Setting) (m : Mention) : Failure := .unresolved e.file m.name m.origin

def unsupported (e : Setting) (context : String) (o : Obstacle) : Failure :=
  .unsupported e.file context o.message

/-- Whether an import names something that its module exports, as far as the module is known. -/
def isExported (e : Setting) (symbol : Imported) : Bool :=
  symbol.whole || match e.graph.exports? symbol.module with
    | some names => names.contains symbol.imported
    | none => true

/-- The surface with the import that gives a name its meaning, if the name has none yet. -/
def takeImport (e : Setting) (s : Surface) (m : Mention) : Except Failure Surface :=
  match s.resolve e.globals m.name with
  | some _ => .ok s
  | none =>
      match e.imports.lookup (rootName m.name) with
      | none => .ok s
      | some symbol =>
          if e.isExported symbol then
            .ok { s with imports := s.imports.insert (rootName m.name) symbol }
          else .error (e.unresolved m)

def isInterface (e : Setting) (s : Surface) (name : String) : Bool :=
  match s.resolve e.globals name with
  | some (.interface _) => true
  | _ => false

def addReferenced (s : Surface) (name : String) : Surface :=
  if s.isReferenced name then s else { s with referenced := s.referenced ++ [name] }

def visit (e : Setting) (s : Surface) (m : Mention) : Except Failure (Surface × List Mention) := do
  let root := rootName m.name
  if let some o := e.obstacles.lookup root then .error (e.unsupported root o)
  let s ← e.takeImport s m
  match s.resolve e.globals m.name with
  | none => .error (e.unresolved m)
  | some (.interface d) =>
      if s.isReferenced d.name then return (s, [])
      match d.bases.find? fun base => !e.isInterface s base with
      | some base => .error (e.unsupported d.name (.nonLocalBase base))
      | none => return (addReferenced s d.name, Mention.ofInterface d)
  | some (.enum d) => return (addReferenced s d.name, [])
  | some _ => return (s, [])

def reach (e : Setting) : Nat → List Mention → Surface → Except Failure Surface
  | _, [], s => .ok s
  | 0, _ :: _, s => .ok s
  | n + 1, m :: rest, s => do
      let (s, found) ← e.visit s m
      reach e n (rest ++ found) s

end Setting

/-- Each declaration adds its mentions once, so no more than these are ever found. -/
def Surface.mentionBound (s : Surface) : Nat :=
  (s.mentions ++ s.interfaces.flatMap Mention.ofInterface).length

end ElementBridge
