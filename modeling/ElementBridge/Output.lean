import ElementBridge.Bridge
import ElementBridge.Config
import ElementBridge.Disk
import ElementBridge.Failure

namespace ElementBridge

/-- A place for files with the state `σ`. Reading a path where nothing is gives none. -/
structure Store (σ : Type) where
  read? : σ → Path → Except Fault (Option ByteArray)
  replace : σ → Path → ByteArray → Except Fault σ

inductive Status where
  | written
  | unchanged
  | stale
deriving DecidableEq, Repr

structure Outcome where
  status : Status
  output : Path
  code : String
deriving DecidableEq, Repr

def Outcome.isStale (o : Outcome) : Bool := o.status = .stale

def sameBytes (a b : ByteArray) : Bool := a.data == b.data

theorem sameBytes_iff {a b : ByteArray} : sameBytes a b = true ↔ a = b := by
  cases a; cases b; simp [sameBytes]

theorem any_sameBytes {content : ByteArray} {old : Option ByteArray} :
    old.any (sameBytes content) = true ↔ old = some content := by
  cases old with
  | none => simp
  | some found =>
      rw [Option.any_some, sameBytes_iff, Option.some.injEq]
      exact eq_comm

def WriteOptions.compares (o : WriteOptions) : Bool := !o.forceRewriting || o.check

namespace Store

variable {σ : Type} (store : Store σ)

def update (s : σ) (path : Path) (content : ByteArray) (options : WriteOptions) :
    Except Fault (Status × σ) := do
  if options.compares then
    let old ← store.read? s path
    if old.any (sameBytes content) then return (.unchanged, s)
    if options.check then return (.stale, s)
  return (.written, ← store.replace s path content)

/-- Writes a bridge to a path. After a failure the store is what it was before. -/
def write (s : σ) (path : Path) (bridge : Bridge) (config : Config) (options : WriteOptions) :
    Except Failure Outcome × σ :=
  let code := bridge.render config.headerLines
  match store.update s path code.toUTF8 options with
  | .ok (status, s) => (.ok ⟨status, path, code⟩, s)
  | .error fault => (.error (.unwritable path.text fault.text), s)

end Store

def Disk.read? (d : Disk) (p : Path) : Except Fault (Option ByteArray) :=
  match d.read p with
  | .ok content => .ok (some content)
  | .error .notFound => .ok none
  | .error fault => .error fault

def Disk.store : Store Disk := ⟨Disk.read?, Disk.replace⟩

end ElementBridge
