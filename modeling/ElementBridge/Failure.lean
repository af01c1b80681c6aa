import ElementBridge.Obstacle

namespace ElementBridge

inductive Failure where
  | unreadable (path reason : String)
  | unparsable (file detail : String)
  | ambiguous (file : String) (candidates : List String)
  | unresolved (file symbol member : String)
  | unsupported (file context detail : String)
  | unwritable (path reason : String)
deriving DecidableEq, Repr

namespace Failure

def describeCandidates : List String → String
  | [] => "none"
  | names => toString names.length ++ " (" ++ String.intercalate ", " names ++ ")"

def code : Failure → String
  | .unreadable _ _ => "BRIDGE-IO-001"
  | .unparsable _ _ => "BRIDGE-PARSE-001"
  | .ambiguous _ _ => "BRIDGE-COMPONENT-001"
  | .unresolved _ _ _ => "BRIDGE-TYPE-001"
  | .unsupported _ _ _ => "BRIDGE-SYNTAX-001"
  | .unwritable _ _ => "BRIDGE-IO-002"

/-- The promise that the failure keeps by refusing. -/
def guarantee : Failure → String
  | .unreadable _ _ => "Bridges are generated only from readable source files."
  | .unparsable _ _ => "Only syntactically valid TypeScript is bridged."
  | .ambiguous _ _ => "Every bridge describes exactly one class extending a host element."
  | .unresolved _ _ _ =>
      "Every type in the public surface resolves to a local declaration, a built-in or an import."
  | .unsupported _ _ _ => "Public signatures stay within the bridgeable TypeScript subset."
  | .unwritable _ _ => "A bridge file holds either its previous or its new content, never a mix."

def file : Failure → String
  | .unreadable path _ | .unwritable path _ => path
  | .unparsable file _ | .ambiguous file _ | .unresolved file _ _ | .unsupported file _ _ => file

def symbol? : Failure → Option String
  | .unresolved _ symbol _ => some symbol
  | .unsupported _ context _ => some context
  | _ => none

def message : Failure → String
  | .unreadable path reason => path ++ ": failed to read source: " ++ reason
  | .unparsable file detail => file ++ ": " ++ detail
  | .ambiguous file candidates =>
      file ++ ": expected exactly one class extending a host element, found "
        ++ describeCandidates candidates
  | .unresolved file symbol member =>
      file ++ ": could not resolve type '" ++ symbol ++ "' referenced by '" ++ member ++ "'"
  | .unsupported file context detail =>
      file ++ ": unsupported syntax in '" ++ context ++ "': " ++ detail
  | .unwritable path reason => path ++ ": failed to write bridge: " ++ reason

end Failure

structure Diagnostic where
  code : String
  message : String
  guarantee : String
  file : String
  symbol : Option String
deriving DecidableEq, Repr

def Failure.diagnostic (f : Failure) : Diagnostic :=
  ⟨f.code, f.message, f.guarantee, f.file, f.symbol?⟩

end ElementBridge
