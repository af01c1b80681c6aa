import ElementBridge.CommandLine.Needs

/-!
The program `generate-bridge`: it takes a picture of the files that the command line needs, runs on
that picture, and puts the written bridges into the file system.
-/

namespace ElementBridge.Main

open CommandLine

partial def gather (disk : Disk) (p : Path) : IO Disk := do
  let here ← IO.currentDir
  let place := here / p.text
  if ← place.isDir then
    (← place.readDir).foldlM (fun disk entry => gather disk (p.join ⟨entry.fileName⟩))
      (disk.putDirectory p)
  else
    try return disk.put p (← IO.FS.readBinFile place)
    catch _ => return disk

partial def gatherAll (r : Request) (disk : Disk) (known : List Path) : IO Disk := do
  match r.needs disk known with
  | [] => return disk
  | needed => gatherAll r (← needed.foldlM gather disk) (known ++ needed)

def place (o : Outcome) : IO Unit := do
  let here ← IO.currentDir
  let target := here / o.output.text
  let draft := here / (o.output.text ++ ".new")
  IO.FS.writeBinFile draft o.code.toUTF8
  IO.FS.rename draft target

def helpText : String :=
  "Usage: generate-bridge [OPTIONS] <PATHS>...\n\n"
  ++ "      --force-rewriting  Rewrite bridges even when their content is unchanged\n"
  ++ "      --silence-output   Do not report written bridges\n"
  ++ "      --check            Fail when a bridge is missing or out of date\n"
  ++ "      --config <CONFIG>  JSON file with settings\n"
  ++ "  -j, --jobs <JOBS>      Number of sources that are worked on at once\n"
  ++ "      --json             Print a report as JSON\n"
  ++ "  -h, --help             Print help\n"
  ++ "  -V, --version          Print version"

def finish (conclusion : Conclusion) : IO UInt32 := do
  if let .finished _ _ report := conclusion then
    for outcome in report.entries.filterMap Batch.Entry.outcome? do
      if outcome.status = .written then place outcome
  if let some report := conclusion.report? then IO.println (report.toJson.pretty 0)
  conclusion.notices.forM IO.eprintln
  if let .misconfigured f := conclusion then f.cause?.forM IO.eprintln
  return conclusion.exitCode.toUInt32

end ElementBridge.Main

open ElementBridge CommandLine

def main (words : List String) : IO UInt32 := do
  match Invocation.ofWords words with
  | .ok .help =>
      IO.println Main.helpText
      return 0
  | .ok .version =>
      IO.println "generate-bridge 0.1.0"
      return 0
  | .error m => Main.finish (.misused m)
  | .ok (.batch r) => do
      let here := (← IO.currentDir).components.filter (· != "")
      Main.finish (r.run (← Main.gatherAll r ⟨here, []⟩ [])).1
