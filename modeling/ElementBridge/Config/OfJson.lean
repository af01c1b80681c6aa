import ElementBridge.Config
import ElementBridge.Json

/-!
Configurations and options from JSON: an object with the settings by name, or an array with them in
their order. What is not set keeps its standard value, and unknown names are passed over; a setting
of the wrong kind or one that is set twice is a mistake.
-/

namespace ElementBridge

namespace Json

def asString? : Json → Option String
  | .string s => some s
  | _ => none

def asBool? : Json → Option Bool
  | .bool b => some b
  | _ => none

def asStrings? : Json → Option (List String)
  | .array items => items.mapM asString?
  | _ => none

def settings? (names : List String) : Json → Option (List (List Json))
  | .object fields =>
      some (names.map fun name => (fields.filter (·.1 == name)).map (·.2))
  | .array items =>
      if items.length ≤ names.length then
        some (items.map ([·]) ++ List.replicate (names.length - items.length) [])
      else none
  | _ => none

def setting? {α : Type} (standard : α) (decode : Json → Option α) : List Json → Option α
  | [] => some standard
  | [v] => decode v
  | _ => none

end Json

namespace Config

def settingNames : List String :=
  ["hostElementBases", "globalTypes", "outputSuffix", "moduleExtension", "headerLines"]

def ofJson? (v : Json) : Option Config := do
  match ← v.settings? settingNames with
  | [bases, globals, suffix, extension, header] =>
      return {
        hostElementBases := ← Json.setting? standard.hostElementBases Json.asStrings? bases
        globalTypes := ← Json.setting? standard.globalTypes Json.asStrings? globals
        outputSuffix := ← Json.setting? standard.outputSuffix Json.asString? suffix
        moduleExtension := ← Json.setting? standard.moduleExtension Json.asString? extension
        headerLines := ← Json.setting? standard.headerLines Json.asStrings? header }
  | _ => none

def ofText? (text : String) : Option Config := do ofJson? (← Json.ofText? text)

end Config

namespace WriteOptions

def settingNames : List String := ["forceRewriting", "silenceOutput", "check"]

def ofJson? (v : Json) : Option WriteOptions := do
  match ← v.settings? settingNames with
  | [force, silence, check] =>
      return {
        forceRewriting := ← Json.setting? false Json.asBool? force
        silenceOutput := ← Json.setting? false Json.asBool? silence
        check := ← Json.setting? false Json.asBool? check }
  | _ => none

end WriteOptions

end ElementBridge
