namespace ElementBridge

inductive Primitive where
  | string | number | boolean | void | undefined | null | any | unknown | never | object
deriving DecidableEq, Repr

namespace Primitive

def all : List Primitive :=
  [.string, .number, .boolean, .void, .undefined, .null, .any, .unknown, .never, .object]

def keyword : Primitive → String
  | .string => "string"
  | .number => "number"
  | .boolean => "boolean"
  | .void => "void"
  | .undefined => "undefined"
  | .null => "null"
  | .any => "any"
  | .unknown => "unknown"
  | .never => "never"
  | .object => "object"

def ofKeyword? (word : String) : Option Primitive :=
  all.find? (·.keyword == word)

theorem ofKeyword?_keyword (p : Primitive) : ofKeyword? p.keyword = some p := by
  cases p <;> decide

theorem keyword_injective {p q : Primitive} (h : p.keyword = q.keyword) : p = q :=
  Option.some.inj ((ofKeyword?_keyword p).symm.trans (h ▸ ofKeyword?_keyword q))

end Primitive

/-- A named place for a value: a field of a record or a parameter of a function. -/
structure Slot (τ : Type) where
  name : String
  type : τ
  optional : Bool
deriving DecidableEq, Repr

inductive TypeExpr where
  | primitive (p : Primitive)
  | reference (name : String) (args : List TypeExpr)
  | array (element : TypeExpr)
  | union (members : List TypeExpr)
  | function (params : List TypeExpr) (result : TypeExpr)
  | record (fields : List (Slot TypeExpr))
deriving Repr

abbrev Field := Slot TypeExpr

abbrev Param := Slot TypeExpr

namespace TypeExpr

mutual

def same : TypeExpr → TypeExpr → Bool
  | .primitive p, .primitive q => p == q
  | .reference n as, .reference m bs => n == m && sameAll as bs
  | .array a, .array b => same a b
  | .union as, .union bs => sameAll as bs
  | .function as a, .function bs b => sameAll as bs && same a b
  | .record fs, .record gs => sameFields fs gs
  | _, _ => false

def sameAll : List TypeExpr → List TypeExpr → Bool
  | [], [] => true
  | a :: as, b :: bs => same a b && sameAll as bs
  | _, _ => false

def sameFields : List (Slot TypeExpr) → List (Slot TypeExpr) → Bool
  | [], [] => true
  | ⟨n, a, o⟩ :: fs, ⟨m, b, p⟩ :: gs => n == m && same a b && o == p && sameFields fs gs
  | _, _ => false

end

mutual

theorem same_iff : ∀ a b : TypeExpr, same a b = true ↔ a = b
  | .primitive p, b => by cases b <;> simp [same]
  | .reference n as, b => by cases b <;> simp [same, sameAll_iff as]
  | .array a, b => by cases b <;> simp [same, same_iff a]
  | .union as, b => by cases b <;> simp [same, sameAll_iff as]
  | .function as a, b => by cases b <;> simp [same, sameAll_iff as, same_iff a]
  | .record fs, b => by cases b <;> simp [same, sameFields_iff fs]

theorem sameAll_iff : ∀ as bs : List TypeExpr, sameAll as bs = true ↔ as = bs
  | [], bs => by cases bs <;> simp [sameAll]
  | a :: as, bs => by cases bs <;> simp [sameAll, same_iff a, sameAll_iff as]

theorem sameFields_iff : ∀ fs gs : List (Slot TypeExpr), sameFields fs gs = true ↔ fs = gs
  | [], gs => by cases gs <;> simp [sameFields]
  | ⟨n, a, o⟩ :: fs, gs => by
      cases gs with
      | nil => simp [sameFields]
      | cons g gs =>
          cases g
          simp [sameFields, same_iff a, sameFields_iff fs, and_assoc]

end

instance : DecidableEq TypeExpr := fun a b =>
  decidable_of_iff (same a b = true) (same_iff a b)

def any : TypeExpr := .primitive .any

def isReference : TypeExpr → Bool
  | .reference _ _ => true
  | _ => false

def isNull : TypeExpr → Bool
  | .primitive .null => true
  | _ => false

def isVoid : TypeExpr → Bool
  | .primitive .void => true
  | _ => false

mutual

def references : TypeExpr → List String
  | .primitive _ => []
  | .reference name args => name :: referencesAll args
  | .array element => references element
  | .union members => referencesAll members
  | .function params result => referencesAll params ++ references result
  | .record fields => referencesFields fields

def referencesAll : List TypeExpr → List String
  | [] => []
  | t :: ts => references t ++ referencesAll ts

def referencesFields : List (Slot TypeExpr) → List String
  | [] => []
  | ⟨_, t, _⟩ :: fs => references t ++ referencesFields fs

end

theorem referencesAll_eq_flatMap (ts : List TypeExpr) :
    referencesAll ts = ts.flatMap references := by
  induction ts with
  | nil => rfl
  | cons t ts ih => simp [referencesAll, ih]

theorem referencesFields_eq_flatMap (fs : List Field) :
    referencesFields fs = fs.flatMap (references ·.type) := by
  induction fs with
  | nil => rfl
  | cons f fs ih => cases f; simp [referencesFields, ih]

end TypeExpr

def rootName (name : String) : String :=
  String.ofList (name.toList.takeWhile (· != '.'))

end ElementBridge
