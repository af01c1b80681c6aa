import ElementBridge.Bridge
import ElementBridge.Bridge.ClosureType
import ElementBridge.Text.Letter
import ElementBridge.Text.Quoted

namespace ElementBridge

namespace Surface

def mergeField (fields : List Field) (f : Field) : List Field :=
  match fields with
  | [] => [f]
  | g :: rest => if g.name = f.name then f :: rest else g :: mergeField rest f

def mergeFields (fields more : List Field) : List Field := more.foldl mergeField fields

def ownFields (d : Interface) : List Field :=
  match d.shape with
  | .record fields => fields
  | .alias _ => []

/-- The fields of an interface behind those of its bases, and the interfaces visited. One that was
visited before adds nothing. The first argument bounds the depth of the bases. -/
def flattenFrom (s : Surface) : Nat → List String → Interface → List Field × List String
  | 0, visited, _ => ([], visited)
  | depth + 1, visited, d =>
      if visited.contains d.name then ([], visited)
      else
        let (inherited, visited) := d.bases.foldl (fun (fields, visited) base =>
          match s.interface? base with
          | none => (fields, visited)
          | some b =>
              let (more, visited) := flattenFrom s depth visited b
              (mergeFields fields more, visited)) ([], d.name :: visited)
        (mergeFields inherited (ownFields d), visited)

def flatten (s : Surface) (d : Interface) : List Field :=
  (flattenFrom s (s.interfaces.length + 2) [] d).1

end Surface

namespace Bridge

open Text

def typedefBody (s : Surface) (globals : List String) (d : Interface) : Lines :=
  match d.shape with
  | .record _ =>
      "* @typedef \x7b\x7b"
        :: (s.flatten d).map (fun f => "* " ++ f.name ++ ":" ++ s.fieldType globals f)
        ++ ["* \x7d\x7d"]
  | .alias t => ["* @typedef " ++ ClosureType.braces (s.closureType globals t)]

def typedef (s : Surface) (globals : List String) (d : Interface) : Lines :=
  "/**" :: typedefBody s globals d ++
    ["*/",
      "// @ts-ignore we export this for Closure not TS",
      "export let " ++ d.name ++ "; // eslint-disable-line no-unused-vars"]

def objectKey (name : String) : String := if isBareKey name then name else quote name

def valueText : EnumValue → String
  | .text s => quote s
  | .number _ numeral => numeral

/-- An enum without members counts as one of numbers. -/
def enumKind (d : Enumeration) : String :=
  if d.members.all (·.value.isText) && !d.members.isEmpty then "string" else "number"

def enumObject (d : Enumeration) : Lines :=
  ["/**", "* @enum " ++ ClosureType.braces (enumKind d), "*/",
    "export const " ++ d.name ++ " = \x7b"]
  ++ d.members.map (fun m => "  " ++ objectKey m.name ++ ": " ++ valueText m.value ++ ",")
  ++ ["\x7d;"]

def typeBlocks (s : Surface) (globals : List String) : List Lines :=
  (s.interfaces.filter (s.isReferenced ·.name)).map (typedef s globals)
    ++ (s.enums.filter (s.isReferenced ·.name)).map enumObject

end Bridge

end ElementBridge
