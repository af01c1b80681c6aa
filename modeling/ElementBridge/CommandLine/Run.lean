import ElementBridge.Batch
import ElementBridge.CommandLine
import ElementBridge.Config.OfJson

namespace ElementBridge.CommandLine

inductive ConfigFailure where
  | unreadable (path : Path) (fault : Fault)
  | invalid (path : Path)
deriving DecidableEq, Repr

namespace ConfigFailure

def message : ConfigFailure → String
  | .unreadable path _ => "failed to read config " ++ path.text
  | .invalid path => "invalid config " ++ path.text

def cause? : ConfigFailure → Option String
  | .unreadable _ fault => some fault.text
  | .invalid _ => none

end ConfigFailure

inductive Conclusion where
  | informed
  | misused (m : Misuse)
  | misconfigured (f : ConfigFailure)
  | finished (check json : Bool) (report : Batch.Report)

def Request.loadConfig (r : Request) (disk : Disk) : Except ConfigFailure Config :=
  match r.config? with
  | none => .ok .standard
  | some path =>
      match disk.readText path with
      | .error fault => .error (.unreadable path fault)
      | .ok text => (Config.ofText? text).elim (.error (.invalid path)) .ok

def Request.run (r : Request) (disk : Disk) : Conclusion × Disk :=
  match r.loadConfig disk with
  | .error f => (.misconfigured f, disk)
  | .ok config =>
      let (report, disk) := Batch.run config r.options disk r.paths
      (.finished r.options.check r.json report, disk)

def run (words : List String) (disk : Disk) : Conclusion × Disk :=
  match Invocation.ofWords words with
  | .error m => (.misused m, disk)
  | .ok .help | .ok .version => (.informed, disk)
  | .ok (.batch r) => r.run disk

namespace Conclusion

def exitCode : Conclusion → Nat
  | .informed => 0
  | .misused _ => 2
  | .misconfigured _ => 1
  | .finished check _ report => if report.isSuccess check then 0 else 1

def report? : Conclusion → Option Batch.Report
  | .finished _ true report => some report
  | _ => none

end Conclusion

def failureNotice (f : Failure) : String := "error[" ++ f.code ++ "]: " ++ f.message

def staleNotice (source : Path) (o : Outcome) : String :=
  "stale: " ++ o.output.text ++ " is out of date with " ++ source.text

/-- Failures in the order of the sources, and behind them under a check what is stale. A report that
is printed makes them superfluous. -/
def Conclusion.notices : Conclusion → List String
  | .informed | .finished _ true _ => []
  | .misused m => ["error: " ++ m.message]
  | .misconfigured f => ["error: " ++ f.message]
  | .finished check false report =>
      report.failures.map (fun (_, f) => failureNotice f)
        ++ if check then report.stale.map (fun (source, o) => staleNotice source o) else []

end ElementBridge.CommandLine
