import ElementBridge.Path

namespace ElementBridge

structure Config where
  hostElementBases : List String
  globalTypes : List String
  outputSuffix : String
  moduleExtension : String
  headerLines : List String
deriving DecidableEq, Repr

namespace Config

def standard : Config where
  hostElementBases := ["HTMLElement"]
  globalTypes := [
    "Element", "HTMLElement", "Node", "Document", "DocumentFragment", "ShadowRoot", "Event",
    "CustomEvent", "KeyboardEvent", "MouseEvent", "FocusEvent", "EventTarget", "Object",
    "Function", "Date", "Error", "RegExp", "Map", "Set", "WeakMap", "Promise"]
  outputSuffix := "_bridge.js"
  moduleExtension := ".js"
  headerLines := [
    "/**",
    "* WARNING: do not modify this file by hand!",
    "* it was automatically generated by the bridge generator.",
    "* if you made changes to the source code and need to update this file, run:",
    "*  generate-bridge <path to component source>",
    "*/"]

def isHostBase (c : Config) (name : String) : Bool := c.hostElementBases.contains name

def isGlobal (c : Config) (name : String) : Bool := c.globalTypes.contains name

def outputPath (c : Config) (source : Path) : Path :=
  source.withFileName (source.stem ++ c.outputSuffix)

def componentModule (c : Config) (stem : String) : String := "./" ++ stem ++ c.moduleExtension

end Config

structure WriteOptions where
  forceRewriting : Bool
  silenceOutput : Bool
  check : Bool
deriving DecidableEq, Repr

def WriteOptions.standard : WriteOptions := ⟨false, false, false⟩

end ElementBridge
