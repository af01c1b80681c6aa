import ElementBridge.Bridge.Types
import ElementBridge.Declaration.OfNode
import ElementBridge.Proofs.IntegerLiterals
import ElementBridge.Proofs.QuotedText
import ElementBridge.Proofs.Results
import ElementBridge.Proofs.WrittenSources
import ElementBridge.Bridge.OfSurface
import Mathlib.Algebra.Ring.Nat
import Mathlib.Data.List.Forall2

namespace ElementBridge

open ElementBridge.Number ElementBridge.Tree

namespace Enumeration

/-- How the value of a member is given; a number by its sign and its magnitude. -/
inductive Given where
  | bare
  | text (s : String)
  | whole (negative : Bool) (n : Nat)

def Given.isText : Given → Bool
  | .text _ => true
  | _ => false

inductive Writes : EnumMemberNode → String × Given → Prop
  | bare {name source : String} : Writes ⟨some name, none, source⟩ (name, .bare)
  | text {name value written source : String} :
      Writes ⟨some name, some ⟨.string value, written⟩, source⟩ (name, .text value)
  | whole {name written source : String} {cs : List Char} {n : Nat} : IntegerLiteral cs n →
      Writes ⟨some name, some ⟨.number (String.ofList cs), written⟩, source⟩
        (name, .whole false n)
  | negated {name written source : String} {cs : List Char} {n : Nat} : IntegerLiteral cs n →
      Writes ⟨some name, some ⟨.negated (.number (String.ofList cs)), written⟩, source⟩
        (name, .whole true n)

inductive Worth where
  | text (s : String)
  | number (v : Int)

/-- What a member is to be worth. `next` is what it is worth if nothing is given. -/
def Given.worth (next : Int) : Given → Worth
  | .bare => .number next
  | .text s => .text s
  | .whole negative n => .number (Double.signed negative n)

def Given.following (next : Int) : Given → Int
  | .bare => next + 1
  | .text _ => next
  | .whole negative n => Double.signed negative n + 1

def worths : Int → List (String × Given) → List (String × Worth)
  | _, [] => []
  | next, (name, g) :: rest => (name, g.worth next) :: worths (g.following next) rest

inductive Is : EnumValue → Worth → Prop
  | text {s : String} : Is (.text s) (.text s)
  | number {x : Double} {numeral : String} {n : Nat} {v : Int} : x.toInt? = some v →
      Numeral numeral x.negative n → Double.signed x.negative n = v →
      Is (.number x numeral) (.number v)

/-- What a text denotes: a numeral its number, and one string token what stands in it. -/
def Denotes (text : String) : Worth → Prop
  | .number v => ∃ negative n, Numeral text negative n ∧ Double.signed negative n = v
  | .text s => Scan.token text.toList = (.string s, text.toList.length)

def Worth.isQuotable : Worth → Bool
  | .number _ => true
  | .text s => Scan.isQuotable s

variable {nodes : List EnumMemberNode} {given : List (String × Given)} {node : EnumMemberNode}
  {g : Given} {name : String} {next : Option Double} {value : EnumValue} {v : Int}
  {ms : List EnumMember}

theorem is_whole {numeral : String} {s : Bool} {n : Nat} (hn : n < tenTo 15)
    (h : Numeral numeral s n) :
    Is (.number (.whole s n) numeral) (.number (Double.signed s n)) := by
  have hinside := Nat.lt_trans hn Double.tenTo_15_lt
  have hs := Double.negative_whole s n
  exact .number (Double.toInt?_whole s hinside) (hs.symm ▸ h) (by rw [hs])

theorem is_counted (hv : v.natAbs < tenTo 15) :
    Is (EnumValue.counted (.ofInt v)) (.number v) := by
  have h := is_whole hv (numeral_toText hv)
  rwa [Double.signed_natAbs] at h

theorem addOne_whole {s : Bool} {n : Nat} (hn : n < tenTo 15) :
    (Double.whole s n).addOne = .ofInt (Double.signed s n + 1) :=
  Double.addOne_whole s (Nat.lt_of_le_of_lt hn Double.tenTo_15_lt)

theorem exists_value (h : Writes node (name, g)) (hnext : g.isText = true ∨ next.isSome = true) :
    ∃ value, memberValue next name node.initializer = .ok value ∧ value.isText = g.isText := by
  cases h with
  | bare =>
      obtain ⟨x, rfl⟩ := Option.isSome_iff_exists.1 (hnext.resolve_left (by decide))
      exact ⟨_, rfl, rfl⟩
  | text => exact ⟨_, rfl, rfl⟩
  | whole => exact ⟨_, rfl, rfl⟩
  | negated => exact ⟨_, rfl, rfl⟩

theorem isText_of_value (h : Writes node (name, g))
    (hvalue : memberValue next name node.initializer = .ok value) : value.isText = g.isText := by
  cases h with
  | bare =>
      cases next with
      | none => cases hvalue
      | some x => exact Except.ok.inj hvalue ▸ rfl
  | text => exact Except.ok.inj hvalue ▸ rfl
  | whole => exact Except.ok.inj hvalue ▸ rfl
  | negated => exact Except.ok.inj hvalue ▸ rfl

theorem is_of_value (h : Writes node (name, g)) (hnext : ∀ x ∈ next, x = .ofInt v)
    (hsmall : ∀ k, g.worth v = .number k → k.natAbs < tenTo 15)
    (hvalue : memberValue next name node.initializer = .ok value) :
    Is value (g.worth v) ∧ ∀ x ∈ value.successor, x = .ofInt (g.following v) := by
  cases h with
  | bare =>
      have hv := hsmall v rfl
      cases next with
      | none => cases hvalue
      | some x =>
          obtain rfl := Except.ok.inj hvalue
          obtain rfl := hnext x rfl
          refine ⟨is_counted hv, fun y hy => ?_⟩
          obtain rfl := Option.some.inj hy
          rw [Double.ofInt, addOne_whole hv, Double.signed_natAbs]
          rfl
  | text =>
      obtain rfl := Except.ok.inj hvalue
      exact ⟨.text, fun y hy => by cases hy⟩
  | @whole name written source cs n hliteral =>
      have hn : n < tenTo 15 := by
        simpa only [Double.natAbs_signed] using hsmall _ rfl
      have hread := literalValue_of_integerLiteral hliteral (Nat.lt_trans hn Double.tenTo_15_lt)
      obtain rfl := Except.ok.inj hvalue
      rw [hread]
      refine ⟨is_whole hn (.plain hliteral), fun y hy => ?_⟩
      exact (Option.some.inj hy).symm.trans (addOne_whole hn)
  | @negated name written source cs n hliteral =>
      have hn : n < tenTo 15 := by
        simpa only [Double.natAbs_signed] using hsmall _ rfl
      have hread := literalValue_of_integerLiteral hliteral (Nat.lt_trans hn Double.tenTo_15_lt)
      obtain rfl := Except.ok.inj hvalue
      rw [hread, Double.neg_whole]
      refine ⟨is_whole hn (.negated hliteral), fun y hy => ?_⟩
      exact (Option.some.inj hy).symm.trans (addOne_whole hn)

theorem membersFrom_cons (h : Writes node (name, g)) : membersFrom next (node :: nodes) = .ok ms ↔
    ∃ value tail, memberValue next name node.initializer = .ok value ∧
      membersFrom value.successor nodes = .ok tail ∧ ⟨name, value⟩ :: tail = ms := by
  have hunfold : membersFrom next (node :: nodes) = do
      let value ← memberValue next name node.initializer
      return ⟨name, value⟩ :: (← membersFrom value.successor nodes) := by
    cases h <;> rfl
  simp only [hunfold, bind_eq_ok, pure_eq_ok]
  constructor
  · rintro ⟨value, hvalue, tail, htail, hms⟩
    exact ⟨value, tail, hvalue, htail, hms⟩
  · rintro ⟨value, tail, hvalue, htail, hms⟩
    exact ⟨value, hvalue, tail, htail, hms⟩

theorem is_of_members (h : List.Forall₂ Writes nodes given) (hnext : ∀ x ∈ next, x = .ofInt v)
    (hsmall : ∀ name k, (name, .number k) ∈ worths v given → k.natAbs < tenTo 15)
    (hms : membersFrom next nodes = .ok ms) :
    List.Forall₂ (fun m w => m.name = w.1 ∧ Is m.value w.2) ms (worths v given) := by
  induction h generalizing next v ms with
  | nil => exact (Except.ok.inj hms) ▸ .nil
  | @cons node given nodes rest hwrites _ ih =>
      obtain ⟨name, g⟩ := given
      obtain ⟨value, tail, hvalue, htail, rfl⟩ := (membersFrom_cons hwrites).1 hms
      obtain ⟨his, hfollowing⟩ := is_of_value hwrites hnext
        (fun k hk => hsmall name k (hk ▸ List.mem_cons_self)) hvalue
      have hrest := ih hfollowing (fun name k hk => hsmall name k (List.mem_cons_of_mem _ hk)) htail
      exact .cons ⟨rfl, his⟩ hrest

theorem isText_of_members (h : List.Forall₂ Writes nodes given)
    (hms : membersFrom next nodes = .ok ms) :
    ms.map (·.value.isText) = given.map (·.2.isText) := by
  induction h generalizing next ms with
  | nil => exact (Except.ok.inj hms) ▸ rfl
  | @cons node given nodes rest hwrites _ ih =>
      obtain ⟨name, g⟩ := given
      obtain ⟨value, tail, hvalue, htail, rfl⟩ := (membersFrom_cons hwrites).1 hms
      simp only [List.map_cons, isText_of_value hwrites hvalue, ih htail]

theorem exists_members (h : List.Forall₂ Writes nodes given)
    (hkind : (∀ g ∈ given, g.2.isText = true) ∨
      next.isSome = true ∧ ∀ g ∈ given, g.2.isText = false) :
    ∃ ms, membersFrom next nodes = .ok ms := by
  induction h generalizing next with
  | nil => exact ⟨[], rfl⟩
  | @cons node given nodes rest hwrites _ ih =>
      obtain ⟨name, g⟩ := given
      simp only [List.forall_mem_cons] at hkind
      obtain ⟨value, hvalue, htext⟩ := exists_value hwrites (hkind.imp And.left And.left)
      have hfollows : (∀ g ∈ rest, g.2.isText = true) ∨
          value.successor.isSome = true ∧ ∀ g ∈ rest, g.2.isText = false := by
        refine hkind.imp And.right fun ⟨_, hg, hrest⟩ => ⟨?_, hrest⟩
        cases value with
        | text s => cases htext.trans hg
        | number x numeral => rfl
      obtain ⟨tail, htail⟩ := ih hfollows
      exact ⟨_, (membersFrom_cons hwrites).2 ⟨value, tail, hvalue, htail, rfl⟩⟩

theorem isMixed_eq_false {texts : List Bool} (h : ms.map (·.value.isText) = texts) :
    isMixed ms = false ↔ (∀ t ∈ texts, t = true) ∨ ∀ t ∈ texts, t = false := by
  subst h
  simp only [isMixed, Bool.and_eq_false_iff, List.any_eq_false, Bool.not_eq_true, List.forall_mem_map]
  simp [or_comm]

theorem accepts_iff {node : EnumNode} (h : List.Forall₂ Writes node.members given) :
    (∃ e, ofNode node = .ok e) ↔
      (∀ g ∈ given, g.2.isText = true) ∨ ∀ g ∈ given, g.2.isText = false := by
  constructor
  · rintro ⟨e, he⟩
    obtain ⟨ms, hms, he⟩ := bind_eq_ok.1 he
    have hkind := isMixed_eq_false (isText_of_members h hms)
    split at he
    · cases he
    · next hmixed =>
        simpa only [List.forall_mem_map] using hkind.1 (Bool.eq_false_iff.2 hmixed)
  · intro hkind
    have hfirst : (some Double.zero).isSome = true := rfl
    obtain ⟨ms, hms⟩ := exists_members h (hkind.imp_right fun hk => ⟨hfirst, hk⟩)
    have hmixed := (isMixed_eq_false (isText_of_members h hms)).2
      (by simpa only [List.forall_mem_map] using hkind)
    refine ⟨⟨node.name.text, ms⟩, bind_eq_ok.2 ⟨ms, hms, ?_⟩⟩
    rw [hmixed]
    rfl

theorem denotes_of_is {w : Worth} (h : Is value w) :
    Denotes (Bridge.valueText value) w ↔ w.isQuotable = true := by
  cases h with
  | text =>
      rename_i s
      simp only [Bridge.valueText, Denotes, Worth.isQuotable, Scan.token_quote]
      cases Scan.isQuotable s <;> simp
  | number _ hnumeral hsigned => exact iff_of_true ⟨_, _, hnumeral, hsigned⟩ rfl

/-- An enum whose members are given nothing, strings and whole numbers is taken if and only if all
of them are strings or none is. Its members keep their names, their order and their values, and
their lines say so, except where a string has a carriage return. -/
theorem keeps_values {node : EnumNode} {given : List (String × Given)}
    (h : List.Forall₂ Writes node.members given) :
    ((∃ e, ofNode node = .ok e) ↔
      (∀ g ∈ given, g.2.isText = true) ∨ ∀ g ∈ given, g.2.isText = false) ∧
    ∀ e, ofNode node = .ok e →
      (∀ name v, (name, .number v) ∈ worths 0 given → v.natAbs < 10 ^ 15) →
      e.name = node.name.text ∧
      List.Forall₂ (fun m w => m.name = w.1 ∧ Is m.value w.2) e.members (worths 0 given) ∧
      ∃ lines, Bridge.enumObject e
          = ["/**", "* @enum " ++ ClosureType.braces (Bridge.enumKind e), "*/",
              "export const " ++ e.name ++ " = \x7b"] ++ lines ++ ["\x7d;"] ∧
        List.Forall₂ (fun line w => ∃ text,
          line = "  " ++ Bridge.objectKey w.1 ++ ": " ++ text ++ "," ∧
            (Denotes text w.2 ↔ w.2.isQuotable = true)) lines (worths 0 given) := by
  refine ⟨accepts_iff h, fun e he hsmall => ?_⟩
  obtain ⟨ms, hms, he⟩ := bind_eq_ok.1 he
  have hmembers : List.Forall₂ (fun m w => m.name = w.1 ∧ Is m.value w.2) ms (worths 0 given) :=
    is_of_members h (fun x hx => (Option.some.inj hx).symm) hsmall hms
  split at he
  · cases he
  · obtain rfl := pure_eq_ok.1 he
    refine ⟨rfl, hmembers, _, rfl, List.forall₂_map_left_iff.2 ?_⟩
    refine hmembers.imp fun m w hm => ?_
    exact ⟨Bridge.valueText m.value, by rw [hm.1], denotes_of_is hm.2⟩

def crossingEnum : EnumNode where
  name := ⟨⟨"E", by decide +kernel⟩, by decide +kernel⟩
  members := [⟨some "A", some ⟨.negated (.number "2"), "-2"⟩, "A=-2"⟩, ⟨some "B", none, "B"⟩,
    ⟨some "C D", none, "'C D'"⟩, ⟨some "F", none, "F"⟩,
    ⟨some "G", some ⟨.number "0x1_F", "0x1_F"⟩, "G=0x1_F"⟩, ⟨some "H", none, "H"⟩]

def crossingGiven : List (String × Given) :=
  [("A", .whole true 2), ("B", .bare), ("C D", .bare), ("F", .bare), ("G", .whole false 31),
    ("H", .bare)]

def crossingWorths : List (String × Worth) :=
  [("A", .number (-2)), ("B", .number (-1)), ("C D", .number 0), ("F", .number 1),
    ("G", .number 31), ("H", .number 32)]

theorem keeps_values_crossingEnum : List.Forall₂ Writes crossingEnum.members crossingGiven ∧
    ∃ e, ofNode crossingEnum = .ok e ∧
      List.Forall₂ (fun m w => m.name = w.1 ∧ Is m.value w.2) e.members crossingWorths := by
  have htwo : IntegerLiteral ['2'] 2 := .decimal (by decide) (.one (by decide))
  have hhex : IntegerLiteral ['0', 'x', '1', '_', 'F'] 31 :=
    .hex (.inl rfl) (.separated (.one (d := 1) (by decide)) (d := 15) (by decide))
  have h : List.Forall₂ Writes crossingEnum.members crossingGiven :=
    .cons (.negated htwo) (.cons .bare (.cons .bare (.cons .bare (.cons (.whole hhex)
      (.cons .bare .nil)))))
  have hkind : ∀ g ∈ crossingGiven, g.2.isText = false := by simp [crossingGiven, Given.isText]
  have hsmall : ∀ name v, (name, Worth.number v) ∈ worths 0 crossingGiven →
      v.natAbs < 10 ^ 15 := by
    intro name v hv
    simp [crossingGiven, worths, Given.worth, Given.following, Double.signed] at hv
    omega
  obtain ⟨haccepts, hkeeps⟩ := keeps_values h
  obtain ⟨e, he⟩ := haccepts.2 (.inr hkind)
  exact ⟨h, e, he, (hkeeps e he hsmall).2.1⟩

def returnSource : SourceFile where
  path := ⟨"a.ts"⟩
  text := "enum E\x7bA='a\\rb'\x7dexport class A extends HTMLElement\x7bm(e:E)\x7b\x7d\x7d"

def returnEnum : Enumeration := ⟨"E", [⟨"A", .text "a\rb"⟩]⟩

/-- The line is broken in its string. -/
theorem not_denotes_returnSource :
    (returnSource.surface .standard ⟨[], []⟩).toOption.map (·.enums) = some [returnEnum] ∧
    (returnSource.surface .standard ⟨[], []⟩).toOption.map (fun s =>
      (Bridge.ofSurface .standard s).types) = some [Bridge.enumObject returnEnum] ∧
    (Bridge.enumObject returnEnum)[4]? = some "  A: 'a\rb'," ∧
    ¬ Denotes "'a\rb'" (.text "a\rb") := by
  have hbroken : Scan.token "'a\rb'".toList ≠ (.string "a\rb", "'a\rb'".toList.length) := by
    decide +kernel
  refine ⟨?_, ?_, ?_, hbroken⟩ <;> decide +kernel

end Enumeration

end ElementBridge
