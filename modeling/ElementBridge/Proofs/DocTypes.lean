import ElementBridge.Proofs.EmittedTypes

namespace ElementBridge.ClosureType

def insideBraces : Nat → List Char → List Char
  | _, [] => []
  | depth, c :: rest =>
      if c == '\x7b' then c :: insideBraces (depth + 1) rest
      else if c == '\x7d' then
        match depth with
        | 0 => []
        | depth + 1 => c :: insideBraces depth rest
      else c :: insideBraces depth rest

def Nested (text : List Char) : Prop :=
  ∀ depth rest, insideBraces depth (text ++ rest) = text ++ insideBraces depth rest

variable {a b text : List Char}

theorem nested_nil : Nested [] := fun _ _ => rfl

theorem Nested.append (ha : Nested a) (hb : Nested b) : Nested (a ++ b) := by
  intro depth rest
  rw [List.append_assoc, ha, hb, List.append_assoc]

theorem Nested.cons {c : Char} (hc : c ≠ '\x7b' ∧ c ≠ '\x7d') (h : Nested text) :
    Nested (c :: text) := by
  intro depth rest
  have hplain (more : List Char) : insideBraces depth (c :: more) = c :: insideBraces depth more := by
    simp [insideBraces, hc.1, hc.2]
  rw [List.cons_append, hplain, h]
  rfl

theorem nested_of_all (h : text.all (fun c => c != '\x7b' && c != '\x7d') = true) :
    Nested text := by
  induction text with
  | nil => exact nested_nil
  | cons c text ih =>
      rw [List.all_cons, Bool.and_eq_true, Bool.and_eq_true, bne_iff_ne, bne_iff_ne] at h
      exact (ih h.2).cons h.1

theorem nested_of_name (h : text.all isNameLetter = true) : Nested text := by
  refine nested_of_all (List.all_eq_true.2 fun c hc => ?_)
  have hletter := List.all_eq_true.1 h c hc
  rw [Bool.and_eq_true, bne_iff_ne, bne_iff_ne]
  constructor
  · rintro rfl
    exact absurd hletter (by decide)
  · rintro rfl
    exact absurd hletter (by decide)

theorem Nested.braces (h : Nested text) : Nested ('\x7b' :: (text ++ ['\x7d'])) := by
  intro depth rest
  have hopen (more : List Char) : insideBraces depth ('\x7b' :: more)
      = '\x7b' :: insideBraces (depth + 1) more := by
    simp [insideBraces]
  have hclose : insideBraces (depth + 1) ('\x7d' :: rest)
      = '\x7d' :: insideBraces depth rest := by
    simp [insideBraces]
  rw [List.cons_append, hopen, List.append_assoc, List.singleton_append, h, hclose]
  simp

theorem nested_intercalate {texts : List (List Char)} (h : ∀ t ∈ texts, Nested t)
    {separator : List Char} (hs : Nested separator) : Nested (separator.intercalate texts) :=
  of_intercalate nested_nil Nested.append hs h

theorem Nested.insideBraces (h : Nested text) (more : List Char) :
    ClosureType.insideBraces 0 (text ++ '\x7d' :: more) = text := by
  rw [h]
  simp [ClosureType.insideBraces]

theorem composes_nested : Composes Nested where
  nil := nested_nil
  append := Nested.append
  name := nested_of_name
  mark {c} hc := by
    have hall : ∀ c ∈ ['*', '!', '?', ':', ' '], (c != '\x7b' && c != '\x7d') = true :=
      List.all_eq_true.1 (by decide)
    refine nested_of_all ?_
    rw [List.all_cons, hall c hc]
    rfl
  bracket {o c separator texts} hkind h := by
    have hbar : Nested ['|'] := nested_of_all (by decide)
    have hcomma : Nested [',', ' '] := nested_of_all (by decide)
    have plain {o c : Char} {inside : List Char} (ho : o ≠ '\x7b' ∧ o ≠ '\x7d')
        (hc : c ≠ '\x7b' ∧ c ≠ '\x7d') (h : Nested inside) : Nested (o :: (inside ++ [c])) :=
      (h.append (nested_nil.cons hc)).cons ho
    simp only [List.mem_cons, List.not_mem_nil, or_false, Prod.mk.injEq] at hkind
    rcases hkind with ⟨rfl, rfl, rfl⟩ | ⟨rfl, rfl, rfl⟩ | ⟨rfl, rfl, rfl⟩ | ⟨rfl, rfl, rfl⟩
    · exact plain (by decide) (by decide) (nested_intercalate h hbar)
    · exact plain (by decide) (by decide) (nested_intercalate h hcomma)
    · exact plain (by decide) (by decide) (nested_intercalate h hcomma)
    · exact (nested_intercalate h hcomma).braces

theorem TypeText.nested {P : List Char → Prop} (h : TypeText P text) : Nested text :=
  h.composes composes_nested

end ElementBridge.ClosureType

namespace ElementBridge.Bridge

open ClosureType

def tagType (text : List Char) : List Char :=
  insideBraces 0 ((text.dropWhile (· != '\x7b')).drop 1)

def docType (line : String) : List Char :=
  match line.toList.dropWhile (· == ' ') with
  | '*' :: ' ' :: '@' :: text => tagType text
  | '*' :: ' ' :: text => (text.dropWhile (· != ':')).drop 1
  | _ => []

def docNames (block : Lines) : List String :=
  block.flatMap fun line => (typeNames (docType line)).map String.ofList

def castType (line : String) : List Char :=
  if "  return /** @type ".toList.isPrefixOf line.toList then tagType line.toList else []

def castNames (block : Lines) : List String :=
  block.flatMap fun line => (typeNames (castType line)).map String.ofList

def constructedClass? (line : String) : Option String :=
  if "  return /** @type ".toList.isPrefixOf line.toList then
    match line.toList.dropWhile (· != '(') with
    | '(' :: 'n' :: 'e' :: 'w' :: ' ' :: text => some (String.ofList (text.takeWhile isNameLetter))
    | _ => none
  else none

theorem dropWhile_append_of {p : Char → Bool} {before rest : List Char} {c : Char}
    (h : ∀ d ∈ before, p d = true) (hc : p c = false) :
    (before ++ c :: rest).dropWhile p = c :: rest := by
  rw [List.dropWhile_append_of_pos h, List.dropWhile_cons_of_neg (by simp [hc])]

theorem tagType_eq {word t more : List Char} (hword : '\x7b' ∉ word) (ht : Nested t) :
    tagType (word ++ '\x7b' :: (t ++ '\x7d' :: more)) = t := by
  have hbrace : ∀ c ∈ word, (c != '\x7b') = true := fun c hc => bne_iff_ne.2 fun h => hword (h ▸ hc)
  rw [tagType, dropWhile_append_of hbrace (by decide), List.drop_one, List.tail_cons,
    ht.insideBraces]

variable {line : String} {indent : Nat}

def Begins (indent : Nat) (c : Char) (line : String) : Prop :=
  ∃ rest, line.toList = List.replicate indent ' ' ++ c :: rest

theorem Begins.append {c : Char} (h : Begins indent c line) (more : String) :
    Begins indent c (line ++ more) := by
  obtain ⟨rest, hline⟩ := h
  exact ⟨rest ++ more.toList, by simp [hline]⟩

theorem dropWhile_indent {c : Char} {rest : List Char}
    (hline : line.toList = List.replicate indent ' ' ++ c :: rest) (hc : c ≠ ' ') :
    line.toList.dropWhile (· == ' ') = c :: rest := by
  rw [hline]
  exact dropWhile_append_of (fun d hd => by simp [List.eq_of_mem_replicate hd]) (by simp [hc])

theorem docType_tag {word t more : List Char}
    (hline : line.toList = List.replicate indent ' '
      ++ '*' :: ' ' :: '@' :: (word ++ '\x7b' :: (t ++ '\x7d' :: more)))
    (hword : '\x7b' ∉ word) (ht : Nested t) : docType line = t := by
  rw [docType, dropWhile_indent hline (by decide)]
  exact tagType_eq hword ht

example : docNames ["  * @param \x7b!Array<N.M>|null\x7d x", "* a:function(B): \x7bc: D\x7d"]
    = ["Array", "N.M", "null", "B", "D"] := by
  decide

theorem docType_field {name t : List Char} (hline : line.toList = '*' :: ' ' :: (name ++ ':' :: t))
    (hname : name.all isNameLetter = true) : docType line = t := by
  have hletter {c : Char} (hc : c ∈ name) : isNameLetter c = true := List.all_eq_true.1 hname c hc
  have hcolon : ∀ c ∈ name, (c != ':') = true := by
    refine fun c hc => bne_iff_ne.2 ?_
    rintro rfl
    exact absurd (hletter hc) (by decide)
  have hread : ((name ++ ':' :: t).dropWhile (· != ':')).drop 1 = t := by
    rw [dropWhile_append_of hcolon (by decide), List.drop_one, List.tail_cons]
  have hstart : line.toList.dropWhile (· == ' ') = '*' :: ' ' :: (name ++ ':' :: t) := by
    rw [hline]
    rfl
  rw [docType, hstart]
  split
  · next text heq =>
      cases name with
      | nil => exact absurd (List.cons.inj (List.cons.inj (List.cons.inj heq).2).2).1 (by decide)
      | cons c name =>
          have hc : c = '@' := (List.cons.inj (List.cons.inj (List.cons.inj heq).2).2).1
          exact absurd (hc ▸ hletter List.mem_cons_self) (by decide)
  · next text _ heq =>
      obtain rfl := (List.cons.inj (List.cons.inj heq).2).2
      exact hread
  · next _ hno => exact absurd rfl (hno _)

theorem docType_code {c : Char} (h : Begins indent c line) (hc : c ≠ ' ' ∧ c ≠ '*') :
    docType line = [] := by
  obtain ⟨rest, hline⟩ := h
  rw [docType, dropWhile_indent hline hc.1]
  split
  · next heq => exact absurd (List.cons.inj heq).1 hc.2
  · next heq => exact absurd (List.cons.inj heq).1 hc.2
  · rfl

end ElementBridge.Bridge
