import ElementBridge.Proofs.ClosedBridge
import ElementBridge.Proofs.ImportLines
import Mathlib.Data.List.Duplicate

namespace ElementBridge

namespace Text

variable {c d : Char} {name : String}

def endsName (c : Char) : Bool := c == ';' || c == ' ' || c == '('

theorem toNat_ofNat (n : Nat) : (Char.ofNat n).toNat = n ∨ (Char.ofNat n).toNat = 0 := by
  by_cases hvalid : n.isValidChar
  · rw [Char.ofNat, dif_pos hvalid]
    exact .inl rfl
  · rw [Char.ofNat, dif_neg hvalid]
    exact .inr rfl

theorem endsName_ofNat {n : Nat} (h : 65 ≤ n) : endsName (Char.ofNat n) = false := by
  have hcode := toNat_ofNat n
  rw [← Bool.not_eq_true]
  intro hends
  have hsmall : Char.ofNat n = ';' ∨ Char.ofNat n = ' ' ∨ Char.ofNat n = '(' := by
    simpa [endsName, or_assoc] using hends
  have hcodes : (Char.ofNat n).toNat = 59 ∨ (Char.ofNat n).toNat = 32 ∨
      (Char.ofNat n).toNat = 40 := by
    rcases hsmall with hc | hc | hc
    · exact .inl (hc ▸ rfl)
    · exact .inr (.inl (hc ▸ rfl))
    · exact .inr (.inr (hc ▸ rfl))
  omega

theorem capitalSequences_plain {n : Nat} {letters : List Nat}
    (h : capitalSequences.lookup n = some letters) :
    1 ≤ letters.length ∧ letters.length ≤ 3 ∧ ∀ code ∈ letters, 65 ≤ code := by
  have hall : ∀ entry ∈ capitalSequences,
      1 ≤ entry.2.length ∧ entry.2.length ≤ 3 ∧ ∀ code ∈ entry.2, 65 ≤ code := by
    decide
  exact hall (n, letters) (mem_of_lookup h)

theorem runCapital_plain {n code : Nat} (h : runCapital n = some code) : 65 ≤ code := by
  have hall : capitalRuns.toList.all (65 ≤ ·.2.2.2) = true := by decide +kernel
  unfold runCapital at h
  obtain ⟨⟨first, last, step, start⟩, hrun, hcode⟩ := Array.exists_of_findSome?_eq_some h
  have hstart : 65 ≤ start :=
    of_decide_eq_true (List.all_eq_true.1 hall _ (Array.mem_toList_iff.2 hrun))
  dsimp only at hcode
  split at hcode
  · obtain rfl := Option.some.inj hcode
    omega
  · exact absurd hcode (by simp)

theorem mem_capital {c d : Char} (h : d ∈ capital c) : d = c ∨ ∃ n, 65 ≤ n ∧ d = Char.ofNat n := by
  unfold capital at h
  split at h
  · rw [List.mem_singleton] at h
    split at h
    · next hlower =>
        have hcode : 97 ≤ c.toNat := by
          rw [Bool.and_eq_true, decide_eq_true_eq, decide_eq_true_eq, Char.le_def] at hlower
          exact UInt32.le_iff_toNat_le.1 hlower.1
        exact .inr ⟨_, by omega, h⟩
    · exact .inl h
  · split at h
    · next letters hletters =>
        obtain ⟨code, hcode, rfl⟩ := List.mem_map.1 h
        exact .inr ⟨code, (capitalSequences_plain hletters).2.2 code hcode, rfl⟩
    · rw [List.mem_singleton] at h
      cases hrun : runCapital c.toNat with
      | none => exact .inl (by rw [h, hrun]; rfl)
      | some code => exact .inr ⟨code, runCapital_plain hrun, by rw [h, hrun]; rfl⟩

theorem capital_plain (c : Char) : 1 ≤ (capital c).length ∧ (capital c).length ≤ 3 ∧
    (endsName c = false → ∀ d ∈ capital c, endsName d = false) := by
  have hlength : 1 ≤ (capital c).length ∧ (capital c).length ≤ 3 := by
    unfold capital
    split
    · exact ⟨Nat.le_refl 1, Nat.le_add_right 1 2⟩
    · split
      · next letters h =>
          obtain ⟨hmin, hmax, -⟩ := capitalSequences_plain h
          exact ⟨by simpa using hmin, by simpa using hmax⟩
      · exact ⟨Nat.le_refl 1, Nat.le_add_right 1 2⟩
  refine ⟨hlength.1, hlength.2, fun hc d hd => ?_⟩
  rcases mem_capital hd with rfl | ⟨n, hn, rfl⟩
  · exact hc
  · exact endsName_ofNat hn

end Text
namespace Component

variable {c : Component}

theorem length_facadeName : c.facadeName.length = c.name.length + 16 := by
  rw [facadeName, String.length_append]
  rfl

theorem length_creatorName (h : c.name ≠ "") : c.name.length + 6 ≤ (Bridge.creatorName c).length ∧
    (Bridge.creatorName c).length ≤ c.name.length + 8 := by
  unfold Bridge.creatorName Text.capitalize
  rw [String.length_append, show "create".length = 6 from rfl]
  split
  · next hnil => exact absurd (String.toList_eq_nil_iff.1 hnil) h
  · next letter rest heq =>
      obtain ⟨hmin, hmax, -⟩ := Text.capital_plain letter
      have hname : c.name.length = rest.length + 1 := by
        rw [← String.length_toList, heq, List.length_cons]
      rw [String.length_ofList, List.length_append, hname]
      omega

theorem facadeName_ne_name : c.facadeName ≠ c.name := by
  intro heq
  have := congrArg String.length heq
  rw [length_facadeName] at this
  omega

theorem creatorName_ne (h : c.name ≠ "") :
    Bridge.creatorName c ≠ c.name ∧ Bridge.creatorName c ≠ c.facadeName := by
  obtain ⟨hmin, hmax⟩ := length_creatorName h
  constructor
  · intro heq
    rw [heq] at hmin
    omega
  · intro heq
    rw [heq, length_facadeName] at hmax
    omega

end Component

namespace Bridge

open Text

def declarators : List String := ["export let ", "export const ", "class ", "export function "]

def declaredName? (line : String) : Option String :=
  declarators.findSome? fun word =>
    if word.toList.isPrefixOf line.toList then
      some (String.ofList ((line.toList.drop word.length).takeWhile (!endsName ·)))
    else none

variable {line name : String}

theorem declaredName?_none {indent : Nat} {c : Char} (h : Begins indent c line)
    (hc : indent = 0 → c ≠ 'e' ∧ c ≠ 'c') : declaredName? line = none := by
  have hfirst : ∃ d rest, line.toList = d :: rest ∧ d ≠ 'e' ∧ d ≠ 'c' := by
    obtain ⟨rest, hline⟩ := h
    cases indent with
    | zero => exact ⟨c, rest, hline, hc rfl⟩
    | succ n => exact ⟨' ', _, hline, by decide, by decide⟩
  obtain ⟨d, rest, hline, he, hc⟩ := hfirst
  refine List.findSome?_eq_none_iff.2 fun word hword => if_neg ?_
  have hstart : ∃ more, word.toList = 'e' :: more ∨ word.toList = 'c' :: more := by
    simp only [declarators, List.mem_cons, List.not_mem_nil, or_false] at hword
    rcases hword with rfl | rfl | rfl | rfl
    · exact ⟨_, .inl rfl⟩
    · exact ⟨_, .inl rfl⟩
    · exact ⟨_, .inr rfl⟩
    · exact ⟨_, .inl rfl⟩
  rw [hline]
  obtain ⟨more, heq | heq⟩ := hstart
  · simp [heq, List.isPrefixOf, he.symm]
  · simp [heq, List.isPrefixOf, hc.symm]

theorem eq_of_isPrefixOf {first second : String} {text : List Char} (h : first ∈ declarators)
    (h' : second ∈ declarators) (hfirst : first.toList.isPrefixOf text = true)
    (hsecond : second.toList.isPrefixOf text = true) : first = second := by
  have hapart : ∀ first ∈ declarators, ∀ second ∈ declarators,
      first.toList <+: second.toList → first = second := by
    decide
  rw [List.isPrefixOf_iff_prefix] at hfirst hsecond
  rcases List.prefix_or_prefix_of_prefix hfirst hsecond with hle | hle
  · exact hapart first h second h' hle
  · exact (hapart second h' first h hle).symm

theorem declaredName?_declarator (word : String) {after : String} (hword : word ∈ declarators) {c : Char}
    (hafter : Begins 0 c after) (hc : endsName c = true)
    (hname : ∀ c ∈ name.toList, endsName c = false) :
    declaredName? (word ++ name ++ after) = some name := by
  obtain ⟨rest, hrest⟩ := hafter
  have hprefix : word.toList.isPrefixOf (word ++ name ++ after).toList = true := by
    rw [List.isPrefixOf_iff_prefix, String.toList_append, String.toList_append, List.append_assoc]
    exact List.prefix_append _ _
  have hread : ((word ++ name ++ after).toList.drop word.length).takeWhile (!endsName ·)
      = name.toList := by
    have hdrop : (word ++ name ++ after).toList.drop word.length = name.toList ++ c :: rest := by
      rw [String.toList_append, String.toList_append, hrest, List.append_assoc,
        ← String.length_toList, List.drop_left]
      rfl
    rw [hdrop, List.takeWhile_append_of_pos (by simpa using hname),
      List.takeWhile_cons_of_neg (by simp [hc]), List.append_nil]
  cases hfound : declaredName? (word ++ name ++ after) with
  | none =>
      have hnone := List.findSome?_eq_none_iff.1 hfound word hword
      rw [if_pos hprefix] at hnone
      exact absurd hnone (by simp)
  | some found =>
      obtain ⟨other, hother, heq⟩ := List.exists_of_findSome?_eq_some hfound
      split at heq
      · next hprefix' =>
          obtain rfl := eq_of_isPrefixOf hword hother hprefix hprefix'
          rw [← heq, hread, String.ofList_toList]
      · exact absurd heq (by simp)

/-- The names that the lines of a block declare at the top level. -/
def declaredNames (block : Lines) : List String := block.filterMap declaredName?

variable {s : Surface} {globals : List String} {block more : Lines}

def readNames (b : Bridge) : List String :=
  b.imports.flatMap boundBy ++ (b.types ++ [b.facade, b.creator]).flatMap declaredNames

theorem declaredNames_append :
    declaredNames (block ++ more) = declaredNames block ++ declaredNames more :=
  List.filterMap_append

theorem declaredNames_nil_iff :
    declaredNames block = [] ↔ ∀ line ∈ block, declaredName? line = none :=
  List.filterMap_eq_nil_iff

theorem declaredNames_open : declaredNames ["/**"] = [] := by decide

theorem declaredNames_close : declaredNames ["*/"] = [] := by decide

theorem declaredNames_comment (h : ∀ line ∈ block, Begins 0 '*' line) : declaredNames block = [] :=
  declaredNames_nil_iff.2 fun line hline => declaredName?_none (h line hline) fun _ => by decide

theorem declaredNames_indented (h : ∀ line ∈ block, Begins 1 ' ' line) : declaredNames block = [] :=
  declaredNames_nil_iff.2 fun line hline => declaredName?_none (h line hline) fun h => by cases h

theorem declaredNames_line (h : declaredName? line = some name) : declaredNames [line] = [name] := by
  simp [declaredNames, h]

theorem declaredNames_typedef {d : Interface} (h : ∀ c ∈ d.name.toList, endsName c = false) :
    declaredNames (typedef s globals d) = [d.name] := by
  have hbody : declaredNames (typedefBody s globals d) = [] := by
    have hstar : Begins 0 '*' "* " := ⟨_, rfl⟩
    have htypedef : Begins 0 '*' "* @typedef " := ⟨_, rfl⟩
    refine declaredNames_comment fun line hline => ?_
    unfold typedefBody at hline
    split at hline
    · simp only [List.cons_append, List.mem_cons, List.mem_append, List.mem_map, List.not_mem_nil,
        or_false] at hline
      rcases hline with rfl | ⟨f, -, rfl⟩ | rfl
      · exact ⟨_, rfl⟩
      · exact ((hstar.append _).append _).append _
      · exact ⟨_, rfl⟩
    · rw [List.mem_singleton.1 hline]
      exact htypedef.append _
  have hend : Begins 0 ';' "; // eslint-disable-line no-unused-vars" := ⟨_, rfl⟩
  have hline := declaredNames_line (declaredName?_declarator "export let " (by decide) hend
    rfl h)
  have hcomment : declaredNames ["*/", "// @ts-ignore we export this for Closure not TS"] = [] := by
    decide
  calc declaredNames (typedef s globals d)
      = declaredNames ["/**"] ++ declaredNames (typedefBody s globals d)
          ++ (declaredNames ["*/", "// @ts-ignore we export this for Closure not TS"]
            ++ declaredNames ["export let " ++ d.name ++ "; // eslint-disable-line no-unused-vars"]) := by
        simp only [← declaredNames_append]
        rfl
    _ = [d.name] := by rw [declaredNames_open, hbody, hcomment, hline]; rfl

theorem declaredNames_enumObject {d : Enumeration} (h : ∀ c ∈ d.name.toList, endsName c = false) :
    declaredNames (enumObject d) = [d.name] := by
  have hend : Begins 0 ' ' " = \x7b" := ⟨_, rfl⟩
  have hline := declaredNames_line (declaredName?_declarator "export const " (by decide)
    hend rfl h)
  have hkind : declaredNames ["* @enum " ++ ClosureType.braces (enumKind d)] = [] := by
    have hstar : Begins 0 '*' "* @enum " := ⟨_, rfl⟩
    exact declaredNames_comment fun line hline => List.mem_singleton.1 hline ▸ hstar.append _
  have hmembers : declaredNames (d.members.map
      fun m => "  " ++ objectKey m.name ++ ": " ++ valueText m.value ++ ",") = [] := by
    refine declaredNames_indented fun line hline => ?_
    obtain ⟨m, -, rfl⟩ := List.mem_map.1 hline
    have hblank : Begins 1 ' ' "  " := ⟨_, rfl⟩
    exact (((hblank.append _).append _).append _).append _
  have hclose : declaredNames ["\x7d;"] = [] := by decide
  calc declaredNames (enumObject d)
      = declaredNames ["/**"] ++ (declaredNames ["* @enum " ++ ClosureType.braces (enumKind d)]
          ++ (declaredNames ["*/"] ++ declaredNames ["export const " ++ d.name ++ " = \x7b"]))
          ++ declaredNames (d.members.map
            fun m => "  " ++ objectKey m.name ++ ": " ++ valueText m.value ++ ",")
          ++ declaredNames ["\x7d;"] := by
        simp only [← declaredNames_append]
        rfl
    _ = [d.name] := by
        rw [declaredNames_open, hkind, declaredNames_close, hline, hmembers, hclose]
        rfl

theorem begins_docBlock {tags : List String} : ∀ line ∈ docBlock tags, Begins 1 ' ' line := by
  have hstar : Begins 1 ' ' "  * " := ⟨_, rfl⟩
  unfold docBlock
  split
  · exact fun line hline => absurd hline List.not_mem_nil
  · simp only [List.cons_append, List.forall_mem_cons, List.forall_mem_append, List.forall_mem_map,
      List.not_mem_nil, false_imp_iff, implies_true, and_true]
    exact ⟨⟨_, rfl⟩, fun tag _ => hstar.append tag, ⟨_, rfl⟩⟩

theorem begins_stubs {m : Member} : ∀ line ∈ stubs s globals m, Begins 1 ' ' line := by
  have hblank : Begins 1 ' ' "  " := ⟨_, rfl⟩
  have hset : Begins 1 ' ' "  set " := ⟨_, rfl⟩
  have hget : Begins 1 ' ' "  get " := ⟨_, rfl⟩
  have method : ∀ line ∈ methodStub s globals m, Begins 1 ' ' line :=
    List.forall_mem_append.2 ⟨begins_docBlock, List.forall_mem_singleton.2
      (((((hblank.append _).append _).append _).append _).append _)⟩
  have setter : ∀ line ∈ setterStub s globals m, Begins 1 ' ' line :=
    List.forall_mem_append.2 ⟨begins_docBlock, List.forall_mem_singleton.2
      (((((hset.append _).append _).append _).append _).append _)⟩
  have getter : ∀ line ∈ getterStub s globals m, Begins 1 ' ' line :=
    List.forall_mem_append.2 ⟨begins_docBlock, List.forall_mem_singleton.2
      (((hget.append _).append _).append _)⟩
  unfold stubs
  cases m.kind with
  | method => exact method
  | property =>
      refine List.forall_mem_append.2 ⟨?_, getter⟩
      split
      · exact fun line hline => absurd hline List.not_mem_nil
      · exact setter
  | getter => exact getter
  | setter => exact setter

theorem declaredNames_facadeClass (h : ∀ c ∈ s.component.facadeName.toList, endsName c = false) :
    declaredNames (facadeClass s globals) = [s.component.facadeName] := by
  have hend : Begins 0 ' ' (" extends " ++ s.component.hostBase ++ " \x7b") := by
    have hextends : Begins 0 ' ' " extends " := ⟨_, rfl⟩
    exact (hextends.append _).append _
  have hline := declaredNames_line (declaredName?_declarator "class " (by decide) hend
    rfl h)
  simp only [← String.append_assoc] at hline
  have hcomment : declaredNames ["// eslint-disable-next-line no-unused-vars"] = [] := by
    decide
  have hmembers : declaredNames (s.members.flatMap (stubs s globals)) = [] := by
    refine declaredNames_indented fun line hline => ?_
    obtain ⟨m, -, hline⟩ := List.mem_flatMap.1 hline
    exact begins_stubs line hline
  have hclose : declaredNames ["\x7d"] = [] := by decide
  calc declaredNames (facadeClass s globals)
      = declaredNames ["// eslint-disable-next-line no-unused-vars"]
          ++ declaredNames ["class " ++ s.component.facadeName ++ " extends "
            ++ s.component.hostBase ++ " \x7b"]
          ++ declaredNames (s.members.flatMap (stubs s globals)) ++ declaredNames ["\x7d"] := by
        simp only [← declaredNames_append]
        rfl
    _ = [s.component.facadeName] := by rw [hcomment, hline, hmembers, hclose]; rfl

theorem declaredNames_creatorFunction
    (h : ∀ c ∈ (creatorName s.component).toList, endsName c = false) :
    declaredNames (creatorFunction s globals) = [creatorName s.component] := by
  have hend : Begins 0 '(' ("(" ++ paramNames s.component.params ++ ") \x7b") := by
    have hparen : Begins 0 '(' "(" := ⟨_, rfl⟩
    exact (hparen.append _).append _
  have hline := declaredNames_line (declaredName?_declarator "export function " (by decide)
    hend rfl h)
  simp only [← String.append_assoc] at hline
  have hparams : declaredNames ((paramTags s globals s.component.params).map ("* " ++ ·)) = [] := by
    have hstar : Begins 0 '*' "* " := ⟨_, rfl⟩
    exact declaredNames_comment (List.forall_mem_map.2 fun tag _ => hstar.append tag)
  have hreturn : declaredNames ["* @return " ++ ClosureType.braces ("!" ++ s.component.facadeName)]
      = [] := by
    have hstar : Begins 0 '*' "* @return " := ⟨_, rfl⟩
    exact declaredNames_comment (List.forall_mem_singleton.2 (hstar.append _))
  have hbody : declaredNames [returnLine s.component] = [] := by
    have hblank : Begins 1 ' ' "  return /** @type " := ⟨_, rfl⟩
    exact declaredNames_indented (List.forall_mem_singleton.2
      ((((hblank.append _).append _).append _).append _))
  have hclose : declaredNames ["\x7d"] = [] := by decide
  calc declaredNames (creatorFunction s globals)
      = declaredNames ["/**"]
          ++ declaredNames ((paramTags s globals s.component.params).map ("* " ++ ·))
          ++ (declaredNames ["* @return " ++ ClosureType.braces ("!" ++ s.component.facadeName)]
          ++ (declaredNames ["*/"] ++ (declaredNames ["export function " ++ creatorName s.component
            ++ "(" ++ paramNames s.component.params ++ ") \x7b"]
          ++ (declaredNames [returnLine s.component] ++ declaredNames ["\x7d"])))) := by
        simp only [← declaredNames_append]
        rfl
    _ = [creatorName s.component] := by
        rw [declaredNames_open, hparams, hreturn, declaredNames_close, hline, hbody, hclose]
        rfl

end Bridge

theorem Name.endsName_text (name : Name) : ∀ c ∈ name.text.toList, Text.endsName c = false := by
  intro c hc
  have hpart := List.all_eq_true.1 (Text.all_isIdentifierPart name.word.isIdentifier).2 c hc
  rw [← Bool.not_eq_true]
  intro hends
  have hmark : c = ';' ∨ c = ' ' ∨ c = '(' := by simpa [Text.endsName, or_assoc] using hends
  rcases hmark with rfl | rfl | rfl <;> exact absurd hpart (by decide)

theorem Name.text_ne_empty (name : Name) : name.text ≠ "" := by
  intro heq
  have hword := name.word.isIdentifier
  rw [show name.word.text = "" from heq] at hword
  exact absurd hword (by decide)

theorem Name.text_ne_default (name : Name) : name.text ≠ "default" := by
  intro heq
  have hfree := name.isFree
  rw [Word.isReserved, show name.word.text = "default" from heq] at hfree
  exact absurd hfree (by decide)

theorem Component.endsName_generated {c : Component} {name : Name} (h : c.name = name.text) :
    (∀ d ∈ c.facadeName.toList, Text.endsName d = false) ∧
      ∀ d ∈ (Bridge.creatorName c).toList, Text.endsName d = false := by
  have hname := name.endsName_text
  rw [← h] at hname
  have plain (text : String) (h : text.toList.all (!Text.endsName ·) = true) :
      ∀ d ∈ text.toList, Text.endsName d = false := by
    simpa using h
  constructor
  · rw [facadeName, String.toList_append, List.forall_mem_append]
    exact ⟨hname, plain "ClosureInterface" (by decide)⟩
  · rw [Bridge.creatorName, String.toList_append, List.forall_mem_append]
    refine ⟨plain "create" (by decide), ?_⟩
    unfold Text.capitalize
    split
    · exact fun d hd => absurd hd (by simp)
    · next letter rest heq =>
        rw [heq, List.forall_mem_cons] at hname
        rw [String.toList_ofList, List.forall_mem_append]
        exact ⟨(Text.capital_plain letter).2.2 hname.1, hname.2⟩

namespace Surface

open Bridge

variable {s : Surface} {config : Config} {name : String}

def localNames (s : Surface) : List String :=
  s.interfaces.map (·.name) ++ s.enums.map (·.name)

/-- The names that the bridge of a surface binds at its top level, once for each time that it
does. -/
def topLevelNames (s : Surface) (config : Config) : List String :=
  importedNames s config ++ (s.typedBlocks config).flatMap declaredNames

inductive Clashes (s : Surface) (config : Config) (name : String) : Prop where
  | merged : name ∈ s.referenced → List.Duplicate name s.localNames → s.Clashes config name
  | importedType : name ∈ s.referenced → name ∈ s.imports.map Prod.fst → s.Clashes config name
  | componentType : s.component.isConstructed = true → name = s.component.name →
      name ∈ s.referenced → s.Clashes config name
  | importedComponent : s.component.isConstructed = true → name = s.component.name →
      name ∈ s.imports.map Prod.fst → ¬ ImportsItself s config → s.Clashes config name
  | generated : name = s.component.facadeName ∨ name = creatorName s.component →
      name ∈ s.referenced ∨ name ∈ s.imports.map Prod.fst → s.Clashes config name

theorem declaredNames_typedBlocks (hs : s.Has TypeExpr.WellNamed) :
    (s.typedBlocks config).flatMap declaredNames
      = s.localNames.filter s.isReferenced
        ++ [s.component.facadeName, creatorName s.component] := by
  obtain ⟨component, hcomponent⟩ := hs.component
  obtain ⟨hfacade, hcreator⟩ := Component.endsName_generated hcomponent
  have htypedefs : ((s.interfaces.filter (s.isReferenced ·.name)).map
      (typedef s config.globalTypes)).flatMap declaredNames
        = (s.interfaces.map (·.name)).filter s.isReferenced := by
    rw [List.flatMap_map, List.filter_map, List.map_eq_flatMap]
    refine List.flatMap_congr fun d hd => ?_
    obtain ⟨name, hname⟩ := (hs.interfaces d (List.mem_of_mem_filter hd)).named
    exact declaredNames_typedef (hname ▸ name.endsName_text)
  have henums : ((s.enums.filter (s.isReferenced ·.name)).map enumObject).flatMap declaredNames
      = (s.enums.map (·.name)).filter s.isReferenced := by
    rw [List.flatMap_map, List.filter_map, List.map_eq_flatMap]
    refine List.flatMap_congr fun d hd => ?_
    obtain ⟨name, hname⟩ := hs.enums d (List.mem_of_mem_filter hd)
    exact declaredNames_enumObject (hname ▸ name.endsName_text)
  simp only [typedBlocks, ofSurface, typeBlocks, List.flatMap_append, List.flatMap_cons,
    List.flatMap_nil, List.append_nil, htypedefs, henums, declaredNames_facadeClass hfacade,
    declaredNames_creatorFunction hcreator, localNames, List.filter_append, List.append_assoc]
  rfl

theorem duplicate_append {α : Type} [DecidableEq α] {a : α} {l more : List α} :
    List.Duplicate a (l ++ more) ↔
      List.Duplicate a l ∨ List.Duplicate a more ∨ a ∈ l ∧ a ∈ more := by
  simp only [List.duplicate_iff_two_le_count, List.count_append, ← List.count_pos_iff]
  omega

theorem duplicate_filter {α : Type} [DecidableEq α] {a : α} {p : α → Bool} {l : List α} :
    List.Duplicate a (l.filter p) ↔ p a = true ∧ List.Duplicate a l := by
  rw [List.duplicate_iff_two_le_count, List.duplicate_iff_two_le_count]
  cases hp : p a with
  | true => simp [List.count_filter hp]
  | false =>
      have hnone : a ∉ l.filter p := fun h => absurd (List.of_mem_filter h) (by simp [hp])
      simp [List.count_eq_zero_of_not_mem hnone]

variable {disk : Disk} {file : SourceFile}

theorem importedNames_perm_of_surface (hs : file.surface config disk = .ok s) :
    (ImportsItself s config → (importedNames s config).Perm (s.imports.map Prod.fst)) ∧
    (¬ ImportsItself s config → (importedNames s config).Perm
      ((if s.component.isConstructed then [s.component.name] else [])
        ++ s.imports.map Prod.fst)) := by
  obtain ⟨m, ⟨o⟩⟩ := origin_of_ok hs
  obtain ⟨component, hcomponent⟩ := (has_of_surface TypeExpr.wellNamed_kept hs).component
  have hspecial : s.component.name ≠ "*" ∧ s.component.name ≠ "default" := by
    rw [hcomponent]
    exact ⟨fun h => absurd (h ▸ component.word.isIdentifier : Text.isIdentifier "*" = true) (by decide),
      component.text_ne_default⟩
  exact importedNames_perm o.progress.importsUnique hspecial (exported_of_isConstructed hs)

theorem topLevelNames_perm (hs : file.surface config disk = .ok s) :
    ∃ own : List String, own.Nodup ∧
      (∀ name, name ∈ own ↔ s.component.isConstructed = true ∧ name = s.component.name ∧
        ¬ ImportsItself s config) ∧
      (s.topLevelNames config).Perm (own ++ (s.imports.map Prod.fst
        ++ (s.localNames.filter s.isReferenced
          ++ [s.component.facadeName, creatorName s.component]))) := by
  obtain ⟨hitself, hother⟩ := importedNames_perm_of_surface hs
  rw [topLevelNames, declaredNames_typedBlocks (has_of_surface TypeExpr.wellNamed_kept hs)]
  by_cases himports : ImportsItself s config
  · refine ⟨[], List.nodup_nil, fun name => by simp [himports], ?_⟩
    exact (hitself himports).append_right _
  · refine ⟨if s.component.isConstructed then [s.component.name] else [], ?_, fun name => ?_, ?_⟩
    · split
      · exact List.nodup_singleton _
      · exact List.nodup_nil
    · cases hconstructed : s.component.isConstructed <;> simp [himports]
    · have hmore := (hother himports).append_right (s.localNames.filter s.isReferenced
        ++ [s.component.facadeName, creatorName s.component])
      rwa [List.append_assoc] at hmore

theorem mem_localNames (hs : file.surface config disk = .ok s) (h : name ∈ s.referenced) :
    name ∈ s.localNames := by
  obtain ⟨m, ⟨o⟩⟩ := origin_of_ok hs
  obtain ⟨-, htype⟩ := o.progress.types name h
  rw [← o.progress.same.localMeaning] at htype
  obtain ⟨meaning, hmeaning, htype⟩ := (Option.any_eq_true _ _).1 htype
  rcases localMeaning_cases hmeaning with ⟨d, -, hd⟩ | ⟨d, -, hd⟩ | rfl
  · rw [← interface?_name hd]
    exact List.mem_append_left _ (List.mem_map_of_mem (List.mem_of_find?_eq_some hd))
  · rw [← enum?_name hd]
    exact List.mem_append_right _ (List.mem_map_of_mem (List.mem_of_find?_eq_some hd))
  · exact absurd htype (by simp [Meaning.isType])

theorem duplicate_topLevelNames_iff (hs : file.surface config disk = .ok s) :
    List.Duplicate name (s.topLevelNames config) ↔ s.Clashes config name := by
  obtain ⟨own, hown, hmem, hperm⟩ := topLevelNames_perm hs
  obtain ⟨m, ⟨o⟩⟩ := origin_of_ok hs
  obtain ⟨component, hcomponent⟩ := (has_of_surface TypeExpr.wellNamed_kept hs).component
  obtain ⟨hcreator, hapart⟩ := Component.creatorName_ne (hcomponent ▸ component.text_ne_empty)
  have hgenerated : [s.component.facadeName, creatorName s.component].Nodup := by
    simpa using hapart.symm
  have once {l : List String} (h : l.Nodup) : ¬ List.Duplicate name l :=
    List.nodup_iff_forall_not_duplicate.1 h name
  have htypes : name ∈ s.localNames.filter s.isReferenced ↔ name ∈ s.referenced := by
    rw [List.mem_filter, isReferenced, List.contains_iff_mem]
    exact ⟨fun h => h.2, fun h => ⟨mem_localNames hs h, h⟩⟩
  have hrepeated : List.Duplicate name (s.localNames.filter s.isReferenced) ↔
      name ∈ s.referenced ∧ List.Duplicate name s.localNames := by
    rw [duplicate_filter, isReferenced, List.contains_iff_mem]
  have hmade : name ∈ own → ¬ (name = s.component.facadeName ∨ name = creatorName s.component) := by
    rintro h (heq | heq)
    · exact Component.facadeName_ne_name (heq ▸ ((hmem name).1 h).2.1)
    · exact hcreator (heq ▸ ((hmem name).1 h).2.1)
  rw [List.duplicate_iff_two_le_count, hperm.count_eq, ← List.duplicate_iff_two_le_count]
  simp only [duplicate_append, once hown, once o.progress.importsUnique, once hgenerated,
    hrepeated, htypes, List.mem_append, List.mem_cons, List.not_mem_nil, or_false, false_or]
  constructor
  · rintro (((⟨hr, hd⟩ | ⟨hr, hg⟩) | ⟨hk, hr | hg⟩) | ⟨ho, hk | hr | hg⟩)
    · exact .merged hr hd
    · exact .generated hg (.inl hr)
    · exact .importedType hr hk
    · exact .generated hg (.inr hk)
    · obtain ⟨hc, hname, hi⟩ := (hmem name).1 ho
      exact .importedComponent hc hname hk hi
    · obtain ⟨hc, hname, -⟩ := (hmem name).1 ho
      exact .componentType hc hname hr
    · exact absurd hg (hmade ho)
  · intro h
    cases h with
    | merged hr hd => exact .inl (.inl (.inl ⟨hr, hd⟩))
    | importedType hr hk => exact .inl (.inr ⟨hk, .inl hr⟩)
    | componentType hc hname hr =>
        by_cases hi : ImportsItself s config
        · obtain ⟨symbol, hsymbol, -⟩ := hi
          exact .inl (.inr ⟨hname ▸ List.mem_map_of_mem hsymbol, .inl hr⟩)
        · exact .inr ⟨(hmem name).2 ⟨hc, hname, hi⟩, .inr (.inl hr)⟩
    | importedComponent hc hname hk hi => exact .inr ⟨(hmem name).2 ⟨hc, hname, hi⟩, .inl hk⟩
    | generated hg h =>
        rcases h with hr | hk
        · exact .inl (.inl (.inr ⟨hr, hg⟩))
        · exact .inl (.inr ⟨hk, .inr hg⟩)

/-- A bridge binds no name twice unless its surface clashes: by a name that is declared more than
once, is both declared and imported, or is one of those that are made up. -/
theorem topLevelNames_of_surface (hs : file.surface config disk = .ok s) :
    ((s.topLevelNames config).Nodup ↔ ∀ name, ¬ s.Clashes config name) ∧
      (∀ name, List.Duplicate name (s.topLevelNames config) ↔ s.Clashes config name) ∧
      (IsPlainTable s.imports → (ofSurface config s).readNames = s.topLevelNames config) := by
  refine ⟨?_, fun name => duplicate_topLevelNames_iff hs, fun himports => ?_⟩
  · rw [List.nodup_iff_forall_not_duplicate]
    exact forall_congr' fun name => not_congr (duplicate_topLevelNames_iff hs)
  · obtain ⟨component, hcomponent⟩ := (has_of_surface TypeExpr.wellNamed_kept hs).component
    have hlines := boundBy_importLines config himports
      (hcomponent ▸ component.word.isIdentifier : Text.isIdentifier s.component.name = true)
    rw [topLevelNames, ← hlines]
    rfl

theorem not_clashes_plainSource : plainSource.surface .standard ⟨[], []⟩ = .ok plainSurface ∧
    plainSurface.topLevelNames .standard = ["A", "N", "T", "K", "AClosureInterface", "createA"] ∧
    ∀ name, ¬ plainSurface.Clashes .standard name := by
  have hnames : plainSurface.topLevelNames .standard
      = ["A", "N", "T", "K", "AClosureInterface", "createA"] := by
    decide +kernel
  have honce : (plainSurface.topLevelNames .standard).Nodup := by
    rw [hnames]
    decide
  exact ⟨surface_plainSource, hnames, (topLevelNames_of_surface surface_plainSource).1.1 honce⟩

def mergedSource : SourceFile where
  path := ⟨"a.ts"⟩
  text := "interface F\x7ba:string\x7dinterface F\x7bb:string\x7dexport class A extends "
    ++ "HTMLElement\x7bm(f:F)\x7b\x7d\x7d"

theorem not_nodup_mergedSource : ∃ s, mergedSource.surface .standard ⟨[], []⟩ = .ok s ∧
    (ofSurface .standard s).readNames = ["A", "F", "F", "AClosureInterface", "createA"] ∧
    s.topLevelNames .standard = ["A", "F", "F", "AClosureInterface", "createA"] ∧
    ¬ (s.topLevelNames .standard).Nodup := by
  have held : (mergedSource.surface .standard ⟨[], []⟩).toOption.map (fun s =>
      ((ofSurface .standard s).readNames, s.topLevelNames .standard))
        = some (["A", "F", "F", "AClosureInterface", "createA"],
          ["A", "F", "F", "AClosureInterface", "createA"]) := by
    rw [SourceFile.surface, mergedSource.parse_eq_elim (ofList_append rfl rfl)]
    decide +kernel
  obtain ⟨s, hs, hparts⟩ := map_toOption_eq_some.1 held
  obtain ⟨hread, hnames⟩ := Prod.mk.inj hparts
  refine ⟨s, hs, hread, hnames, ?_⟩
  rw [hnames]
  decide

end Surface

end ElementBridge
