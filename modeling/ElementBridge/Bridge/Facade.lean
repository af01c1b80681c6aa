import ElementBridge.Bridge.Types

namespace ElementBridge.Bridge

open Text

variable (s : Surface) (globals : List String)

def docBlock (tags : List String) : Lines :=
  if tags.isEmpty then []
  else "  /**" :: tags.map ("  * " ++ ·) ++ ["  */"]

def paramTag (type name : String) : String :=
  "@param " ++ ClosureType.braces type ++ " " ++ name

def returnTag (type : String) : String := "@return " ++ ClosureType.braces type

def paramTags (params : List Param) : List String :=
  params.map fun p => paramTag (s.paramType globals p) p.name

def paramNames (params : List Param) : String := ClosureType.commas (params.map (·.name))

def resultTags (result : Option TypeExpr) : List String :=
  match result with
  | none => []
  | some t => if t.isVoid then [] else [returnTag (s.closureType globals t)]

def emptyBody : String := " \x7b\x7d"

def methodStub (m : Member) : Lines :=
  docBlock (paramTags s globals m.params ++ resultTags s globals m.result)
    ++ ["  " ++ objectKey m.name ++ "(" ++ paramNames m.params ++ ")" ++ emptyBody]

def accessorType (m : Member) : String :=
  let t := (m.valueType.map (s.closureType globals)).getD "*"
  if m.optional then ClosureType.orUndefined t else t

def setterParam (m : Member) : String :=
  match m.kind, m.params with
  | .setter, p :: _ => p.name
  | _, _ => "value"

def setterStub (m : Member) : Lines :=
  docBlock [paramTag (accessorType s globals m) (setterParam m)]
    ++ ["  set " ++ objectKey m.name ++ "(" ++ setterParam m ++ ")" ++ emptyBody]

def getterStub (m : Member) : Lines :=
  docBlock [returnTag (accessorType s globals m)]
    ++ ["  get " ++ objectKey m.name ++ "()" ++ emptyBody]

def stubs (m : Member) : Lines :=
  match m.kind with
  | .method => methodStub s globals m
  | .property => (if m.readonly then [] else setterStub s globals m) ++ getterStub s globals m
  | .getter => getterStub s globals m
  | .setter => setterStub s globals m

def facadeClass : Lines :=
  ["// eslint-disable-next-line no-unused-vars",
    "class " ++ s.component.facadeName ++ " extends " ++ s.component.hostBase ++ " \x7b"]
  ++ s.members.flatMap (stubs s globals) ++ ["\x7d"]

/-- How an instance is made: from the tag where the constructor takes nothing, else with `new`. -/
def construction (c : Component) : String :=
  match c.tag, c.isConstructed with
  | some tag, false => "document.createElement(" ++ quote tag ++ ")"
  | _, _ => "new " ++ c.name ++ "(" ++ paramNames c.params ++ ")"

def creatorName (c : Component) : String := "create" ++ capitalize c.name

def creatorFunction : Lines :=
  let c := s.component
  let facade := ClosureType.braces ("!" ++ c.facadeName)
  "/**" :: (paramTags s globals c.params).map ("* " ++ ·)
    ++ ["* @return " ++ facade,
      "*/",
      "export function " ++ creatorName c ++ "(" ++ paramNames c.params ++ ") \x7b",
      "  return /** @type " ++ facade ++ " */  (" ++ construction c ++ ");",
      "\x7d"]

end ElementBridge.Bridge
