import ElementBridge.Path
import ElementBridge.Sorted

namespace ElementBridge

inductive Fault where
  | notFound
  | notDirectory
  | isDirectory
  | nameTooLong
  | notText
  | other (text : String)
deriving DecidableEq, Repr

def Fault.text : Fault → String
  | .notFound => "No such file or directory (os error 2)"
  | .notDirectory => "Not a directory (os error 20)"
  | .isDirectory => "Is a directory (os error 21)"
  | .nameTooLong => "File name too long (os error 36)"
  | .notText => "stream did not contain valid UTF-8"
  | .other text => text

/-- A place in the file system: the names from the root down. -/
abbrev Location := List String

inductive Node where
  | directory
  | file (content : ByteArray)

/-- Files and directories by their places. The working directory and all above it exist. -/
structure Disk where
  workingDirectory : Location
  entries : List (Location × Node)

namespace Disk

def node? (d : Disk) (l : Location) : Option Node :=
  if l.isPrefixOf d.workingDirectory then some .directory else d.entries.lookup l

def step (d : Disk) (here : Location) (piece : List Char) : Except Fault Location :=
  match d.node? here with
  | none => .error .notFound
  | some (.file _) => .error .notDirectory
  | some .directory =>
      if piece = [] || piece = ['.'] then .ok here
      else if piece = ['.', '.'] then .ok here.dropLast
      else if 255 < (String.ofList piece).utf8ByteSize then .error .nameTooLong
      else .ok (here ++ [String.ofList piece])

/-- The place that a path names. Its last component need not exist. -/
def locate (d : Disk) (p : Path) : Except Fault Location :=
  if p.text == "" then .error .notFound
  else if 4095 < p.text.utf8ByteSize then .error .nameTooLong
  else if p.isAbsolute then (Path.split p.text.toList).foldlM d.step []
  else (Path.split p.text.toList).foldlM d.step d.workingDirectory

def lookup (d : Disk) (p : Path) : Except Fault Node := do
  match d.node? (← d.locate p) with
  | some n => return n
  | none => .error .notFound

def isFile (d : Disk) (p : Path) : Bool :=
  match d.lookup p with
  | .ok (.file _) => true
  | _ => false

def isDirectory (d : Disk) (p : Path) : Bool :=
  match d.lookup p with
  | .ok .directory => true
  | _ => false

def read (d : Disk) (p : Path) : Except Fault ByteArray := do
  match ← d.lookup p with
  | .file content => return content
  | .directory => .error .isDirectory

def readText (d : Disk) (p : Path) : Except Fault String := do
  match String.fromUTF8? (← d.read p) with
  | some text => return text
  | none => .error .notText

def setEntry (entries : List (Location × Node)) (l : Location) (n : Node) :
    List (Location × Node) :=
  match entries with
  | [] => [(l, n)]
  | (k, m) :: rest => if k = l then (l, n) :: rest else (k, m) :: setEntry rest l n

def replace (d : Disk) (p : Path) (content : ByteArray) : Except Fault Disk := do
  let l ← d.locate p
  match d.node? l with
  | some .directory => .error .isDirectory
  | _ => return { d with entries := setEntry d.entries l (.file content) }

def makeDirectory (d : Disk) (l : Location) : Disk :=
  (List.range (l.length + 1)).foldl (fun d n =>
    if (d.node? (l.take n)).isSome then d
    else { d with entries := setEntry d.entries (l.take n) .directory }) d

/-- The place that a path without `..` names, whether or not the directories on the way exist. -/
def place (d : Disk) (p : Path) : Location :=
  p.components.foldl (fun l c =>
    match c with
    | .root => []
    | .here => l
    | .up => l.dropLast
    | .name s => l ++ [s]) d.workingDirectory

def put (d : Disk) (p : Path) (content : ByteArray) : Disk :=
  let l := d.place p
  let d := d.makeDirectory l.dropLast
  { d with entries := setEntry d.entries l (.file content) }

def putDirectory (d : Disk) (p : Path) : Disk := d.makeDirectory (d.place p)

def remove? (d : Disk) (p : Path) : Option Disk :=
  match d.locate p with
  | .ok l =>
      if (d.node? l).isSome then
        some { d with entries := d.entries.filter fun (k, _) => !l.isPrefixOf k }
      else none
  | .error _ => none

/-- The files below a place, each with the names that lead to it, in the order of a walk that takes
the entries of each directory by name. -/
def filesBelow (d : Disk) (l : Location) : List Location :=
  let found := d.entries.filterMap fun (k, n) =>
    match n with
    | .file _ => if l.isPrefixOf k && k != l then some (k.drop l.length) else none
    | .directory => none
  Sorted.ofList (Sorted.listBefore Sorted.textBefore) found

def walk (d : Disk) (p : Path) : List Path :=
  match d.locate p with
  | .ok l => (d.filesBelow l).map fun names => names.foldl (fun dir name => dir.join ⟨name⟩) p
  | .error _ => []

end Disk

end ElementBridge
