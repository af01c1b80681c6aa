import ElementBridge.Bridge.Facade

namespace ElementBridge

inductive Capability where
  | call | get | set
deriving DecidableEq, Repr

namespace Member

def capabilities (m : Member) : List Capability :=
  match m.kind with
  | .method => [.call]
  | .property => if m.readonly then [.get] else [.set, .get]
  | .getter => [.get]
  | .setter => [.set]

def offers (m : Member) : List (String × Capability) := m.capabilities.map fun c => (m.name, c)

end Member

namespace Text

def readQuoted : List Char → Option (List Char × List Char)
  | [] | ['\\'] => none
  | '\x27' :: rest => some ([], rest)
  | '\\' :: c :: rest => do
      let (text, rest) ← readQuoted rest
      return ((if c = 'n' then '\n' else c) :: text, rest)
  | c :: rest => do
      let (text, rest) ← readQuoted rest
      return (c :: text, rest)

theorem readQuoted_quotedLetters (text rest : List Char) :
    readQuoted (quotedLetters text ++ '\x27' :: rest) = some (text, rest) := by
  induction text with
  | nil => rfl
  | cons c text ih =>
      unfold quotedLetters at ih ⊢
      rw [List.flatMap_cons, List.append_assoc]
      generalize text.flatMap quotedLetter ++ '\x27' :: rest = more at ih
      by_cases hslash : c = '\\'
      · subst hslash
        simp [quotedLetter, readQuoted, ih]
      by_cases hquote : c = '\x27'
      · subst hquote
        simp [quotedLetter, readQuoted, ih]
      by_cases hbreak : c = '\n'
      · subst hbreak
        simp [quotedLetter, readQuoted, ih]
      have hplain : readQuoted (c :: more) = (readQuoted more).bind
          fun found => some (c :: found.1, found.2) := by
        rw [readQuoted.eq_def]
        split
        · next h => cases h
        · next h => exact absurd (List.cons.inj h).1 hslash
        · next h => exact absurd (List.cons.inj h).1 hquote
        · next h => exact absurd (List.cons.inj h).1 hslash
        · next h =>
            obtain ⟨rfl, rfl⟩ := List.cons.inj h
            rfl
      simp [quotedLetter, hslash, hquote, hbreak, hplain, ih]

end Text

namespace Bridge

open Text

def readKey (text : List Char) : Option String :=
  match text with
  | '\x27' :: quoted =>
      match readQuoted quoted with
      | some (name, '(' :: _) => some (String.ofList name)
      | _ => none
  | text =>
      let name := String.ofList (text.takeWhile isNamePart)
      if isBareKey name && (text.dropWhile isNamePart).head? == some '(' then some name else none

def readStub (line : String) : Option (String × Capability) :=
  match line.toList with
  | ' ' :: ' ' :: text =>
      match readKey text, text with
      | some name, _ => some (name, .call)
      | none, 'g' :: 'e' :: 't' :: ' ' :: text => (readKey text).map fun name => (name, .get)
      | none, 's' :: 'e' :: 't' :: ' ' :: text => (readKey text).map fun name => (name, .set)
      | none, _ => none
  | _ => none

def stubsOf (lines : Lines) : List (String × Capability) := lines.filterMap readStub

theorem exists_of_isBareKey {name : String} (h : isBareKey name = true) :
    ∃ c rest, name.toList = c :: rest ∧ isNameStart c = true ∧ rest.all isNamePart = true := by
  unfold isBareKey at h
  split at h
  · cases h
  · next c rest htext => exact ⟨c, rest, htext, Bool.and_eq_true_iff.1 h⟩

theorem readKey_of_isBareKey {name : String} (h : isBareKey name = true) (more : List Char) :
    readKey (name.toList ++ '(' :: more) = some name := by
  obtain ⟨c, rest, htext, hstart, hrest⟩ := exists_of_isBareKey h
  have hletters : ∀ letter ∈ name.toList, isNamePart letter = true := by
    rw [htext, List.forall_mem_cons]
    exact ⟨by simp [isNamePart, hstart], List.all_eq_true.1 hrest⟩
  have htake : (name.toList ++ '(' :: more).takeWhile isNamePart = name.toList := by
    rw [List.takeWhile_append_of_pos hletters, List.takeWhile_cons_of_neg (by decide),
      List.append_nil]
  have hdrop : (name.toList ++ '(' :: more).dropWhile isNamePart = '(' :: more := by
    rw [List.dropWhile_append_of_pos hletters, List.dropWhile_cons_of_neg (by decide)]
  unfold readKey
  split
  · next quoted hquoted =>
      rw [htext, List.cons_append] at hquoted
      obtain ⟨rfl, -⟩ := List.cons.inj hquoted
      exact absurd hstart (by decide)
  · simp [htake, hdrop, h]

theorem readKey_objectKey (name : String) (more : List Char) :
    readKey ((objectKey name).toList ++ '(' :: more) = some name := by
  unfold objectKey
  split
  · next h => exact readKey_of_isBareKey h more
  · simp [quote, readKey, readQuoted_quotedLetters]

theorem readStub_call {line : String} (name : String) (more : List Char)
    (h : line.toList = ' ' :: ' ' :: ((objectKey name).toList ++ '(' :: more)) :
    readStub line = some (name, .call) := by
  simp [readStub, h, readKey_objectKey]

theorem readStub_get {line : String} (name : String) (more : List Char)
    (h : line.toList = ' ' :: ' ' :: 'g' :: 'e' :: 't' :: ' ' :: ((objectKey name).toList
      ++ '(' :: more)) : readStub line = some (name, .get) := by
  have hword (text : List Char) : readKey ('g' :: 'e' :: 't' :: ' ' :: text) = none := by
    simp [readKey, isNamePart, isNameStart, isAsciiLetter, isDigit]
  simp [readStub, h, hword, readKey_objectKey]

theorem readStub_set {line : String} (name : String) (more : List Char)
    (h : line.toList = ' ' :: ' ' :: 's' :: 'e' :: 't' :: ' ' :: ((objectKey name).toList
      ++ '(' :: more)) : readStub line = some (name, .set) := by
  have hword (text : List Char) : readKey ('s' :: 'e' :: 't' :: ' ' :: text) = none := by
    simp [readKey, isNamePart, isNameStart, isAsciiLetter, isDigit]
  simp [readStub, h, hword, readKey_objectKey]

theorem readStub_tag (tag : String) : readStub ("  * " ++ tag) = none := by
  have htext : ("  * " ++ tag).toList = ' ' :: ' ' :: '*' :: ' ' :: tag.toList := by simp
  have hkey : readKey ('*' :: ' ' :: tag.toList) = none := rfl
  simp [readStub, htext, hkey]

@[simp]
theorem stubsOf_append (a b : Lines) : stubsOf (a ++ b) = stubsOf a ++ stubsOf b :=
  List.filterMap_append

@[simp]
theorem stubsOf_docBlock (tags : List String) : stubsOf (docBlock tags) = [] := by
  unfold docBlock
  split
  · rfl
  · rw [stubsOf, List.filterMap_eq_nil_iff]
    intro line hline
    rcases List.mem_append.1 hline with hline | hline
    · rcases List.mem_cons.1 hline with rfl | hline
      · rfl
      · obtain ⟨tag, -, rfl⟩ := List.mem_map.1 hline
        exact readStub_tag tag
    · rw [List.mem_singleton.1 hline]
      rfl

variable (s : Surface) (globals : List String)

@[simp]
theorem stubsOf_methodStub (m : Member) :
    stubsOf (methodStub s globals m) = [(m.name, .call)] := by
  have hline : readStub ("  " ++ objectKey m.name ++ "(" ++ paramNames m.params ++ ")"
      ++ emptyBody) = some (m.name, .call) :=
    readStub_call m.name (paramNames m.params ++ ")" ++ emptyBody).toList (by simp)
  rw [methodStub, stubsOf_append, stubsOf_docBlock]
  simp [stubsOf, hline]

@[simp]
theorem stubsOf_getterStub (m : Member) :
    stubsOf (getterStub s globals m) = [(m.name, .get)] := by
  have hline : readStub ("  get " ++ objectKey m.name ++ "()" ++ emptyBody)
      = some (m.name, .get) := readStub_get m.name (")" ++ emptyBody).toList (by simp)
  rw [getterStub, stubsOf_append, stubsOf_docBlock]
  simp [stubsOf, hline]

@[simp]
theorem stubsOf_setterStub (m : Member) :
    stubsOf (setterStub s globals m) = [(m.name, .set)] := by
  have hline : readStub ("  set " ++ objectKey m.name ++ "(" ++ setterParam m ++ ")"
      ++ emptyBody) = some (m.name, .set) :=
    readStub_set m.name (setterParam m ++ ")" ++ emptyBody).toList (by simp)
  rw [setterStub, stubsOf_append, stubsOf_docBlock]
  simp [stubsOf, hline]

theorem stubsOf_stubs (m : Member) : stubsOf (stubs s globals m) = m.offers := by
  unfold stubs Member.offers Member.capabilities
  cases hkind : m.kind with
  | method => simp
  | property => cases hreadonly : m.readonly <;> simp
  | getter => simp
  | setter => simp

theorem stubsOf_facadeClass :
    stubsOf (facadeClass s globals) = s.members.flatMap Member.offers := by
  have hstubs : stubsOf (s.members.flatMap (stubs s globals)) = s.members.flatMap Member.offers := by
    rw [stubsOf, List.filterMap_flatMap]
    exact congrArg (s.members.flatMap ·) (funext (stubsOf_stubs s globals))
  have hclass : readStub ("class " ++ s.component.facadeName ++ " extends "
      ++ s.component.hostBase ++ " \x7b") = none := by
    simp [readStub]
  have hcomment : readStub "// eslint-disable-next-line no-unused-vars" = none := rfl
  have hend : readStub "\x7d" = none := rfl
  unfold facadeClass
  rw [stubsOf_append, stubsOf_append, hstubs]
  simp [stubsOf, hclass, hcomment, hend]

end Bridge

end ElementBridge
