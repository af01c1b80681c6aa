import ElementBridge.Surface

/-!
Types in the syntax of the Closure compiler. A reference is marked `!`, which says that it is not
null; a union of one type with null is marked `?`; enums are never null and have no mark.
-/

namespace ElementBridge

def Primitive.closureType : Primitive → String
  | .string => "string"
  | .number => "number"
  | .boolean => "boolean"
  | .void => "void"
  | .undefined => "undefined"
  | .null => "null"
  | .any | .unknown | .never => "*"
  | .object => "!Object"

namespace ClosureType

def commas (items : List String) : String := String.intercalate ", " items

def braces (inside : String) : String := "\x7b" ++ inside ++ "\x7d"

def orUndefined (t : String) : String := "(" ++ t ++ "|undefined)"

def nullable (t : String) : String :=
  if t == "*" then t else "?" ++ String.ofList (t.toList.dropWhile (· == '!'))

/-- A union of printed types. One that admits everything is all there is to say. -/
def union (members : List String) : String :=
  let distinct := members.eraseDups
  if distinct.contains "*" then "*"
  else match distinct with
    | [t] => t
    | ts => "(" ++ String.intercalate "|" ts ++ ")"

def ofMeaning (component : Component) (name : String) : Option Meaning → String
  | some (.enum _) => name
  | some .component => "!" ++ component.facadeName
  | some (.primitive p) => p.closureType
  | _ => "!" ++ name

def generic (base : String) (args : List String) : String :=
  if args.isEmpty then base else base ++ "<" ++ commas args ++ ">"

end ClosureType

namespace Surface

variable (s : Surface) (globals : List String)

def nameType (name : String) : String :=
  ClosureType.ofMeaning s.component name (s.resolve globals name)

mutual

def closureType : TypeExpr → String
  | .primitive p => p.closureType
  | .reference name args =>
      ClosureType.generic (nameType s globals name) (closureTypes args)
  | .array element => "!Array<" ++ closureType element ++ ">"
  | .union members =>
      match members.any TypeExpr.isNull, closureTypesButNull members with
      | true, [t] => ClosureType.nullable t
      | _, _ => ClosureType.union (closureTypes members)
  | .function params result =>
      "function(" ++ ClosureType.commas (closureTypes params) ++ "): " ++ closureType result
  | .record fields => ClosureType.braces (ClosureType.commas (fieldTypes fields))

def closureTypes : List TypeExpr → List String
  | [] => []
  | t :: ts => closureType t :: closureTypes ts

def closureTypesButNull : List TypeExpr → List String
  | [] => []
  | t :: ts => if t.isNull then closureTypesButNull ts else closureType t :: closureTypesButNull ts

def fieldTypes : List (Slot TypeExpr) → List String
  | [] => []
  | ⟨name, t, optional⟩ :: fs =>
      (name ++ ": " ++ if optional then ClosureType.orUndefined (closureType t) else closureType t)
        :: fieldTypes fs

end

def fieldType (f : Field) : String :=
  let t := closureType s globals f.type
  if f.optional then ClosureType.orUndefined t else t

/-- The type of a parameter. An optional one ends in `=`; a reference keeps its mark there, and
any other type may be undefined as well. -/
def paramType (p : Param) : String :=
  let t := closureType s globals p.type
  if !p.optional then t
  else if p.type.isReference then t ++ "="
  else ClosureType.orUndefined t ++ "="

theorem closureTypes_eq_map (ts : List TypeExpr) :
    closureTypes s globals ts = ts.map (closureType s globals) := by
  induction ts with
  | nil => rfl
  | cons t ts ih => simp [closureTypes, ih]

theorem closureTypesButNull_eq (ts : List TypeExpr) :
    closureTypesButNull s globals ts
      = (ts.filter (!·.isNull)).map (closureType s globals) := by
  induction ts with
  | nil => rfl
  | cons t ts ih => cases h : t.isNull <;> simp [closureTypesButNull, h, ih]

theorem fieldTypes_eq_map (fs : List Field) :
    fieldTypes s globals fs
      = fs.map fun f => f.name ++ ": " ++ fieldType s globals f := by
  induction fs with
  | nil => rfl
  | cons f fs ih => cases f; simp [fieldTypes, fieldType, ih]

end Surface

end ElementBridge
