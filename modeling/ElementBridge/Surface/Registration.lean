import ElementBridge.Text.Letter
import ElementBridge.Tree

namespace ElementBridge

open ElementBridge.Tree

structure Registration where
  tag : String
  className : String
deriving DecidableEq, Repr

namespace Registration

def namesRegistry : Expr → Bool
  | .name id => id == "customElements"
  | .member _ property => property == "customElements"
  | _ => false

def isRegistrar : Expr → Bool
  | .member object property =>
      (property == "define" && namesRegistry object) || property == "defineComponent"
  | .name id => id == "defineComponent"
  | _ => false

def ofCall (callee : Expr) (args : List Expr) : List Registration :=
  match isRegistrar callee, args with
  | true, .string tag :: .name className :: _ => [⟨tag, className⟩]
  | _, _ => []

mutual

/-- The registrations in an expression, a call before those inside it. -/
def all : Expr → List Registration
  | .name _ | .string _ | .number _ => []
  | .negated operand => all operand
  | .member object _ => all object
  | .call callee args => ofCall callee args ++ all callee ++ allOf args
  | .other parts => allOf parts

def allOf : List Expr → List Registration
  | [] => []
  | e :: es => all e ++ allOf es

end

def isTagLetter (c : Char) : Bool :=
  ('a' ≤ c && c ≤ 'z') || Text.isDigit c || c == '.' || c == '_'

def isTag (tag : String) : Bool :=
  match tag.toList with
  | [] => false
  | c :: rest =>
      'a' ≤ c && c ≤ 'z'
        && match rest.dropWhile isTagLetter with
          | '-' :: more => more.all fun c => isTagLetter c || c == '-'
          | _ => false

def tagOf (className : String) (rs : List Registration) : Option String :=
  (rs.find? fun r => r.className == className && isTag r.tag).map (·.tag)

end Registration

end ElementBridge
