namespace ElementBridge

inductive Obstacle where
  | typeForm (source : String)
  | typeOperator (source : String)
  | literalType (source : String)
  | restParameters
  | destructured (source : String)
  | computedKey (source : String)
  | nonIdentifierKey (source : String)
  | unnamedKey (source : String)
  | signature (source : String)
  | genericInterface
  | genericAlias
  | heritage (source : String)
  | computedMember (source : String)
  | computedInitializer (source : String)
  | missingInitializer (member : String)
  | mixedEnum
  | anonymousClass
  | nonLocalBase (name : String)
  | unreachableConstructor
deriving DecidableEq, Repr

namespace Obstacle

def quote (label source : String) : String := label ++ " `" ++ source ++ "`"

def message : Obstacle → String
  | .typeForm s => quote "type" s
  | .typeOperator s => quote "type operator in" s
  | .literalType s => quote "literal type" s
  | .restParameters => "rest parameters"
  | .destructured s => quote "destructured parameter" s
  | .computedKey s => quote "computed key" s
  | .nonIdentifierKey s => quote "non-identifier record key" s
  | .unnamedKey s => quote "key" s
  | .signature s => quote "interface member" s
  | .genericInterface => "generic interfaces"
  | .genericAlias => "generic type aliases"
  | .heritage s => quote "heritage clause" s
  | .computedMember s => quote "computed enum member" s
  | .computedInitializer s => quote "computed enum initializer" s
  | .missingInitializer n => quote "enum member" n ++ " needs an initializer"
  | .mixedEnum => "enums mixing string and numeric members"
  | .anonymousClass => "anonymous component classes"
  | .nonLocalBase n => quote "extending non-local interface" n
  | .unreachableConstructor =>
      "unexported component built with `new`; export it or register a tag"

end Obstacle

end ElementBridge
