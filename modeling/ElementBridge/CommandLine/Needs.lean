import ElementBridge.CommandLine.Run

/-!
The paths whose content a request depends on, as far as a partial disk tells. What is found at them
may lead to more paths.
-/

namespace ElementBridge.CommandLine

def dependencies (disk : Disk) (p : Path) : List Path :=
  match SourceFile.read disk p with
  | .error _ => []
  | .ok file =>
      match Tree.Module.ofText? file.text with
      | none => []
      | some m =>
          let scan := m.exportScan
          ((scan.followed ++ scan.stars).filter isRelative).flatMap
            (sourceCandidates file.directory)

def batchNeeds (config : Config) (disk : Disk) (paths known : List Path) : List Path :=
  let sources := collectSources config disk paths
  sources.map config.outputPath ++ (sources ++ known).flatMap (dependencies disk)

def Request.needs (r : Request) (disk : Disk) (known : List Path) : List Path :=
  let needed := r.config?.toList ++ r.paths ++
    match r.loadConfig disk with
    | .ok config => batchNeeds config disk r.paths known
    | .error _ => []
  (needed.filter fun p => !known.contains p).eraseDups

end ElementBridge.CommandLine
