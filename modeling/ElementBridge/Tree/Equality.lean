import ElementBridge.Tree

namespace ElementBridge.Tree

deriving instance DecidableEq for Parameter, Parameters, Signature

namespace TypeNode

mutual

def same : TypeNode → TypeNode → Bool
  | .keyword p, .keyword q => p == q
  | .array a, .array b => same a b
  | .readonly a, .readonly b => same a b
  | .operator s, .operator t => s == t
  | .parenthesized a, .parenthesized b => same a b
  | .union as, .union bs => sameAll as bs
  | .reference n as, .reference m bs => n == m && sameAll as bs
  | .function ⟨ps, r⟩ a, .function ⟨qs, s⟩ b => sameItems ps qs && r == s && same a b
  | .literal k s, .literal l t => k == l && s == t
  | .object ms, .object ns => sameMembers ms ns
  | .tuple s, .tuple t => s == t
  | .other s, .other t => s == t
  | _, _ => false

def sameAll : List TypeNode → List TypeNode → Bool
  | [], [] => true
  | a :: as, b :: bs => same a b && sameAll as bs
  | _, _ => false

def sameOption : Option TypeNode → Option TypeNode → Bool
  | none, none => true
  | some a, some b => same a b
  | _, _ => false

def sameItems : List (Parameter TypeNode) → List (Parameter TypeNode) → Bool
  | [], [] => true
  | ⟨p, a, o, d, v, r, s⟩ :: ps, ⟨q, b, o', d', v', r', s'⟩ :: qs =>
      sameOption a b && (p == q && o == o' && d == d' && v == v' && r == r' && s == s')
        && sameItems ps qs
  | _, _ => false

def sameMembers : List (Signature TypeNode) → List (Signature TypeNode) → Bool
  | [], [] => true
  | .property k o a :: ms, .property l o' b :: ns =>
      (k == l && o == o') && sameOption a b && sameMembers ms ns
  | .method x k o ⟨ps, r⟩ a :: ms, .method y l o' ⟨qs, r'⟩ b :: ns =>
      (x == y && k == l && o == o' && r == r') && sameItems ps qs && sameOption a b
        && sameMembers ms ns
  | .other s :: ms, .other t :: ns => s == t && sameMembers ms ns
  | _, _ => false

end

mutual

theorem same_iff : ∀ a b : TypeNode, same a b = true ↔ a = b
  | .keyword p, b => by cases b <;> simp [same]
  | .array a, b => by cases b <;> simp [same, same_iff a]
  | .readonly a, b => by cases b <;> simp [same, same_iff a]
  | .operator s, b => by cases b <;> simp [same]
  | .parenthesized a, b => by cases b <;> simp [same, same_iff a]
  | .union as, b => by cases b <;> simp [same, sameAll_iff as]
  | .reference n as, b => by cases b <;> simp [same, sameAll_iff as]
  | .function ⟨ps, r⟩ a, b => by
      cases b with
      | function qs b =>
          cases qs
          simp [same, sameItems_iff ps, same_iff a, and_assoc]
      | _ => simp [same]
  | .literal k s, b => by cases b <;> simp [same]
  | .object ms, b => by cases b <;> simp [same, sameMembers_iff ms]
  | .tuple s, b => by cases b <;> simp [same]
  | .other s, b => by cases b <;> simp [same]

theorem sameAll_iff : ∀ as bs : List TypeNode, sameAll as bs = true ↔ as = bs
  | [], bs => by cases bs <;> simp [sameAll]
  | a :: as, bs => by cases bs <;> simp [sameAll, same_iff a, sameAll_iff as]

theorem sameOption_iff : ∀ a b : Option TypeNode, sameOption a b = true ↔ a = b
  | none, b => by cases b <;> simp [sameOption]
  | some a, b => by cases b <;> simp [sameOption, same_iff a]

theorem sameItems_iff : ∀ ps qs : List (Parameter TypeNode), sameItems ps qs = true ↔ ps = qs
  | [], qs => by cases qs <;> simp [sameItems]
  | ⟨p, a, o, d, v, r, s⟩ :: ps, qs => by
      cases qs with
      | nil => simp [sameItems]
      | cons q qs =>
          cases q
          simp [sameItems, sameOption_iff a, sameItems_iff ps]
          grind

theorem sameMembers_iff : ∀ ms ns : List (Signature TypeNode), sameMembers ms ns = true ↔ ms = ns
  | [], ns => by cases ns <;> simp [sameMembers]
  | .property k o a :: ms, ns => by
      rcases ns with - | ⟨- | - | -, ns⟩ <;>
        simp [sameMembers, sameOption_iff a, sameMembers_iff ms, and_assoc]
  | .method x k o ⟨ps, r⟩ a :: ms, ns => by
      rcases ns with - | ⟨- | ⟨-, -, -, ⟨-, -⟩, -⟩ | -, ns⟩ <;>
        simp [sameMembers, sameItems_iff ps, sameOption_iff a, sameMembers_iff ms]
      grind
  | .other s :: ms, ns => by
      rcases ns with - | ⟨- | - | -, ns⟩ <;> simp [sameMembers, sameMembers_iff ms]

end

instance : DecidableEq TypeNode := fun a b => decidable_of_iff (same a b = true) (same_iff a b)

end TypeNode

namespace Expr

mutual

def same : Expr → Expr → Bool
  | .name a, .name b => a == b
  | .string a, .string b => a == b
  | .number a, .number b => a == b
  | .negated a, .negated b => same a b
  | .member a p, .member b q => same a b && p == q
  | .call a as, .call b bs => same a b && sameAll as bs
  | .other as, .other bs => sameAll as bs
  | _, _ => false

def sameAll : List Expr → List Expr → Bool
  | [], [] => true
  | a :: as, b :: bs => same a b && sameAll as bs
  | _, _ => false

end

mutual

theorem same_iff : ∀ a b : Expr, same a b = true ↔ a = b
  | .name a, b => by cases b <;> simp [same]
  | .string a, b => by cases b <;> simp [same]
  | .number a, b => by cases b <;> simp [same]
  | .negated a, b => by cases b <;> simp [same, same_iff a]
  | .member a p, b => by cases b <;> simp [same, same_iff a]
  | .call a as, b => by cases b <;> simp [same, same_iff a, sameAll_iff as]
  | .other as, b => by cases b <;> simp [same, sameAll_iff as]

theorem sameAll_iff : ∀ as bs : List Expr, sameAll as bs = true ↔ as = bs
  | [], bs => by cases bs <;> simp [sameAll]
  | a :: as, bs => by cases bs <;> simp [sameAll, same_iff a, sameAll_iff as]

end

instance : DecidableEq Expr := fun a b => decidable_of_iff (same a b = true) (same_iff a b)

end Expr

deriving instance DecidableEq for Quoted, InterfaceNode, AliasNode, EnumMemberNode, EnumNode,
  Method, Property, ClassElement, ClassNode, Declaration, Statement

end ElementBridge.Tree
