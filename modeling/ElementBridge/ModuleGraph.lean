import ElementBridge.Grammar.Module
import ElementBridge.Disk

namespace ElementBridge

open ElementBridge.Tree

structure SourceFile where
  path : Path
  text : String
deriving DecidableEq, Repr

namespace SourceFile

def name (f : SourceFile) : String := f.path.text

def directory (f : SourceFile) : Path := f.path.parent

def read (d : Disk) (p : Path) : Except Fault SourceFile :=
  return ⟨p, ← d.readText p⟩

end SourceFile

/-- What one module says about its exports: the names it exports itself, the modules whose exports
it passes on, and the modules that it takes types or names from. -/
structure ExportScan where
  exported : List String
  stars : List String
  followed : List String
deriving DecidableEq, Repr

namespace ExportScan

def empty : ExportScan := ⟨[], [], []⟩

def append (a b : ExportScan) : ExportScan :=
  ⟨a.exported ++ b.exported, a.stars ++ b.stars, a.followed ++ b.followed⟩

end ExportScan

def Tree.ImportBinding.isType : ImportBinding → Bool
  | .named _ typeOnly => typeOnly
  | _ => false

def Tree.Import.isTypeOnly (i : Import) : Bool :=
  i.typeOnly || match i.specifiers with
    | some (s :: rest) => (s :: rest).all (·.2.isType)
    | _ => false

def Tree.Declaration.name? : Declaration → Option String
  | .interface d => some d.name.text
  | .alias d => some d.name.text
  | .enum d => some d.name.text
  | .classDef d => d.name.map Name.text
  | .other => none

def Tree.Statement.exportScan : Statement → ExportScan
  | .importFrom i => ⟨[], [], if i.isTypeOnly then [i.module] else []⟩
  | .exportDeclaration d => ⟨d.name?.toList, [], []⟩
  | .exportNames names module => ⟨names, [], module.toList⟩
  | .exportAll (some name) _ => ⟨[name], [], []⟩
  | .exportAll none module => ⟨[], [module], []⟩
  | .exportDefault _ => ⟨["default"], [], []⟩
  | .declare _ | .other _ => .empty

def Tree.Module.exportScan (m : Module) : ExportScan :=
  m.foldr (fun s scan => s.exportScan.append scan) .empty

def isRelative (specifier : String) : Bool :=
  "./".toList.isPrefixOf specifier.toList || "../".toList.isPrefixOf specifier.toList

/-- The files that a relative specifier may have been compiled from, the first choice first. -/
def sourceCandidates (directory : Path) (specifier : String) : List Path :=
  let base := directory.join ⟨specifier⟩
  match Path.stripSuffix? ".js" base.text with
  | some stem => [⟨stem ++ ".ts"⟩, ⟨stem ++ ".d.ts"⟩]
  | none =>
      if Path.hasSuffix ".ts" base.text then [base]
      else [⟨base.text ++ ".ts"⟩, base.join ⟨"index.ts"⟩]

def resolveSpecifier (disk : Disk) (directory : Path) (specifier : String) : Option Path :=
  if isRelative specifier then (sourceCandidates directory specifier).find? disk.isFile else none

structure LoadedModule where
  path : Path
  exported : List String
deriving DecidableEq, Repr

/-- Loaded modules in the order in which they were met. Spellings of one path are one module. -/
abbrev ModuleTable := List LoadedModule

namespace ModuleTable

def find (t : ModuleTable) (p : Path) : Option LoadedModule := t.find? (·.path.same p)

def setExports (t : ModuleTable) (p : Path) (exported : List String) : ModuleTable :=
  t.map fun m => if m.path.same p then { m with exported } else m

def addNew (names more : List String) : List String :=
  more.foldl (fun found name => if found.contains name then found else found ++ [name]) names

def exportsThrough (t : ModuleTable) (disk : Disk) (directory : Path) (scan : ExportScan) :
    List String :=
  scan.stars.foldl (fun names specifier =>
    match (resolveSpecifier disk directory specifier).bind t.find with
    | some m => addNew names m.exported
    | none => names) scan.exported

/-- Loads a module and all that it refers to. It stands in the table without exports while its
references are loaded, and stays so if it cannot be read. The first argument bounds the depth. -/
def load (disk : Disk) : Nat → ModuleTable → Path → ModuleTable
  | 0, t, _ => t
  | depth + 1, t, p =>
      if (t.find p).isSome then t
      else
        let t := t ++ [⟨p, []⟩]
        match SourceFile.read disk p with
        | .error _ => t
        | .ok file =>
            match Module.ofText? file.text with
            | none => t
            | some tree =>
                let scan := tree.exportScan
                let t := (scan.followed ++ scan.stars).foldl (fun t specifier =>
                  match resolveSpecifier disk file.directory specifier with
                  | some next => load disk depth t next
                  | none => t) t
                t.setExports p (t.exportsThrough disk file.directory scan)

end ModuleTable

/-- The modules behind the type imports of a source. `entries` leads from a specifier of the source
to its module. -/
structure ModuleGraph where
  entries : List (String × Path)
  modules : ModuleTable
deriving DecidableEq, Repr

namespace ModuleGraph

/-- A bound on the modules that load one another in a chain. The spellings of a path to one file
differ by detours, for which a path of at most 4095 bytes has little room. -/
def chainBound (disk : Disk) : Nat := 4096 * (disk.entries.length + 1)

def load (disk : Disk) (file : SourceFile) (tree : Module) : ModuleGraph :=
  tree.exportScan.followed.foldl (fun g specifier =>
    match resolveSpecifier disk file.directory specifier with
    | some p => ⟨(specifier, p) :: g.entries, g.modules.load disk (chainBound disk) p⟩
    | none => g) ⟨[], []⟩

/-- The exports of the module behind a specifier of the source; none if it was not loaded. -/
def exports? (g : ModuleGraph) (specifier : String) : Option (List String) :=
  ((g.entries.lookup specifier).bind g.modules.find).map (·.exported)

end ModuleGraph

end ElementBridge
