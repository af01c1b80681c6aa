import ElementBridge.Batch.Sources
import ElementBridge.Bridge.OfSurface
import ElementBridge.Json
import ElementBridge.Output
import ElementBridge.Surface.OfSource

namespace ElementBridge

namespace SourceFile

def bridge (config : Config) (disk : Disk) (file : SourceFile) : Except Failure Bridge :=
  (file.surface config disk).map (Bridge.ofSurface config)

end SourceFile

namespace Batch

def bridgeFile (config : Config) (options : WriteOptions) (disk : Disk) (source : Path) :
    Except Failure Outcome × Disk :=
  match SourceFile.read disk source with
  | .error fault => (.error (.unreadable source.text fault.text), disk)
  | .ok file =>
      match file.bridge config disk with
      | .error failure => (.error failure, disk)
      | .ok bridge => Disk.store.write disk (config.outputPath source) bridge config options

structure Entry where
  source : Path
  result : Except Failure Outcome

namespace Entry

def failure? (e : Entry) : Option Failure :=
  match e.result with
  | .ok _ => none
  | .error failure => some failure

def outcome? (e : Entry) : Option Outcome := e.result.toOption

def stale? (e : Entry) : Option Outcome := e.outcome?.filter (·.isStale)

end Entry

structure Report where
  entries : List Entry

namespace Report

def failures (r : Report) : List (Path × Failure) :=
  r.entries.filterMap fun e => e.failure?.map (e.source, ·)

def stale (r : Report) : List (Path × Outcome) :=
  r.entries.filterMap fun e => e.stale?.map (e.source, ·)

def isSuccess (r : Report) (check : Bool) : Bool :=
  r.failures.isEmpty && (!check || r.stale.isEmpty)

end Report

def runSources (config : Config) (options : WriteOptions) :
    Disk → List Path → List Entry × Disk
  | disk, [] => ([], disk)
  | disk, source :: rest =>
      let (result, disk) := bridgeFile config options disk source
      let (entries, disk) := runSources config options disk rest
      (⟨source, result⟩ :: entries, disk)

def run (config : Config) (options : WriteOptions) (disk : Disk) (paths : List Path) :
    Report × Disk :=
  let (entries, disk) := runSources config options disk (collectSources config disk paths)
  (⟨entries⟩, disk)

end Batch

def Status.name : Status → String
  | .written => "written"
  | .unchanged => "unchanged"
  | .stale => "stale"

def Outcome.toJson (o : Outcome) : Json :=
  .object [("status", .string o.status.name), ("output", .string o.output.text),
    ("code", .string o.code)]

def Diagnostic.toJson (d : Diagnostic) : Json :=
  .object [("code", .string d.code), ("message", .string d.message),
    ("guarantee", .string d.guarantee), ("file", .string d.file),
    ("symbol", d.symbol.elim .null .string)]

namespace Batch

def Entry.toJson (e : Entry) : Json :=
  .object [("source", .string e.source.text),
    match e.result with
    | .ok outcome => ("outcome", outcome.toJson)
    | .error failure => ("error", failure.diagnostic.toJson)]

def Report.toJson (r : Report) : Json := .object [("files", .array (r.entries.map Entry.toJson))]

end Batch

end ElementBridge
