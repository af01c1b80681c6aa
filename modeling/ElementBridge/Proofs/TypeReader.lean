import ElementBridge.Proofs.CanonicalTypes
import ElementBridge.Proofs.PrintedTypes

namespace ElementBridge

namespace ClosureType

abbrev Reader (α : Type) := List Char → Option (α × List Char)

def keywords : List Primitive := [.string, .number, .boolean, .void, .undefined, .null]

def reservedWords : List String := "function" :: keywords.map Primitive.keyword

def readItems {α : Type} (item : Reader α) (separator : List Char) (close : Char) :
    Nat → Reader (List α)
  | 0, _ => none
  | room + 1, text => do
      let (a, rest) ← item text
      if rest.head? = some close then return ([a], rest.tail)
      if separator.isPrefixOf rest then
        let (more, rest) ← readItems item separator close room (rest.drop separator.length)
        return (a :: more, rest)
      none

def readList {α : Type} (item : Reader α) (separator : List Char) (close : Char) :
    Reader (List α) := fun text =>
  if text.head? = some close then some ([], text.tail)
  else readItems item separator close text.length text

def readArguments (type : Reader TypeExpr) : Reader (List TypeExpr) := fun text =>
  if text.head? = some '<' then readList type [',', ' '] '>' text.tail else some ([], text)

def readField (type : Reader TypeExpr) : Reader Field := fun text =>
  let name := String.ofList (text.takeWhile isNameLetter)
  match text.dropWhile isNameLetter with
  | ':' :: ' ' :: rest => do
      let (t, rest) ← type rest
      return (⟨name, t, false⟩, rest)
  | _ => none

def readFunction (type : Reader TypeExpr) : Reader TypeExpr := fun text => do
  let (params, rest) ← readList type [',', ' '] ')' text
  match rest with
  | ':' :: ' ' :: rest =>
      let (result, rest) ← type rest
      return (.function params result, rest)
  | _ => none

def meant (component : Component) (name : String) : String :=
  if name = component.facadeName then component.name else name

def readWord (component : Component) (type : Reader TypeExpr) (word : String) : Reader TypeExpr :=
  fun text =>
    match keywords.find? (·.keyword == word) with
    | some p => some (.primitive p, text)
    | none => do
        let (args, rest) ← readArguments type text
        return (TypeExpr.canonicalReference (meant component word) args, rest)

def readNamed (component : Component) (type : Reader TypeExpr) : Reader TypeExpr := fun text =>
  let word := String.ofList (text.takeWhile isNameLetter)
  let rest := text.dropWhile isNameLetter
  if word = "" then none
  else if word = "function" then
    if rest.head? = some '(' then readFunction type rest.tail else none
  else readWord component type word rest

/-- A type, in the form that all types have which print alike. The bound is on how deep it goes. -/
def readType (component : Component) : Nat → Reader TypeExpr
  | 0, _ => none
  | depth + 1, text =>
      match text with
      | '!' :: rest => readType component depth rest
      | '*' :: rest => do
          let (args, rest) ← readArguments (readType component depth) rest
          return (TypeExpr.canonicalReference "any" args, rest)
      | '?' :: rest => do
          let (t, rest) ← readType component depth rest
          return (TypeExpr.choice [t, .primitive .null], rest)
      | '(' :: rest => do
          let (ts, rest) ← readList (readType component depth) ['|'] ')' rest
          return (TypeExpr.choice ts, rest)
      | '\x7b' :: rest => do
          let (fields, rest) ← readList (readField (readType component depth)) [',', ' '] '\x7d' rest
          return (.record fields, rest)
      | text => readNamed component (readType component depth) text

def readWhole (component : Component) (text : String) : Option TypeExpr :=
  match readType component text.length text.toList with
  | some (t, []) => some t
  | _ => none

def Ends (rest : List Char) : Prop := ∀ c ∈ rest.head?, c ∈ [',', '|', ')', '>', '\x7d']

def ReadsAs {α : Type} (reader : Reader α) (text : List Char) (a : α) : Prop :=
  ∀ rest, Ends rest → reader (text ++ rest) = some (a, rest)

theorem ends_cons {c : Char} (h : c ∈ [',', '|', ')', '>', '\x7d']) (rest : List Char) :
    Ends (c :: rest) := by
  intro d hd
  obtain rfl : c = d := by simpa using hd
  exact h

section Lists

variable {α β : Type} {item : Reader α} {separator : List Char} {close : Char}

def ListMarks : List (List Char × Char) :=
  [(['|'], ')'), ([',', ' '], ')'), ([',', ' '], '>'), ([',', ' '], '\x7d')]

theorem ends_of_marks (h : (separator, close) ∈ ListMarks) (rest : List Char) :
    Ends (close :: rest) ∧ Ends (separator ++ rest) ∧ (separator ++ rest).head? ≠ some close
      ∧ separator ≠ [] := by
  simp only [ListMarks, List.mem_cons, List.not_mem_nil, or_false, Prod.mk.injEq] at h
  rcases h with ⟨rfl, rfl⟩ | ⟨rfl, rfl⟩ | ⟨rfl, rfl⟩ | ⟨rfl, rfl⟩ <;>
    exact ⟨ends_cons (by decide) _, ends_cons (by decide) _, by simp, by simp⟩

theorem readItems_intercalate (hmarks : (separator, close) ∈ ListMarks) {xs : List β}
    {print : β → List Char} {value : β → α} (hne : xs ≠ [])
    (h : ∀ x ∈ xs, ReadsAs item (print x) (value x)) {room : Nat} (hroom : xs.length ≤ room)
    (rest : List Char) :
    readItems item separator close room (separator.intercalate (xs.map print) ++ close :: rest)
      = some (xs.map value, rest) := by
  induction xs generalizing room with
  | nil => exact absurd rfl hne
  | cons x xs ih =>
      obtain ⟨hx, hxs⟩ := List.forall_mem_cons.1 h
      obtain ⟨room, rfl⟩ : ∃ k, room = k + 1 := ⟨room - 1, by simp at hroom; omega⟩
      cases xs with
      | nil =>
          have hread := hx (close :: rest) (ends_of_marks hmarks rest).1
          simp [readItems, hread]
      | cons y more =>
          have hroom : (y :: more).length ≤ room := Nat.le_of_succ_le_succ hroom
          have hlater := ih (List.cons_ne_nil y more) hxs hroom
          rw [List.map_cons, List.map_cons, List.intercalate_cons_cons, List.append_assoc,
            List.append_assoc]
          obtain ⟨-, hends, hhead, -⟩ := ends_of_marks hmarks
            (separator.intercalate ((y :: more).map print) ++ close :: rest)
          have hprefix : separator.isPrefixOf
              (separator ++ (separator.intercalate ((y :: more).map print) ++ close :: rest)) := by
            exact List.isPrefixOf_iff_prefix.2 (List.prefix_append _ _)
          rw [List.map_cons] at hends hhead hprefix hlater
          simp only [readItems, hx _ hends, Option.bind_eq_bind, Option.bind_some, if_neg hhead,
            if_pos hprefix, List.drop_left, hlater]
          rfl

theorem readItems_close (hclose : ∀ rest, item (close :: rest) = none) (room : Nat)
    (rest : List Char) : readItems item separator close room (close :: rest) = none := by
  cases room with
  | zero => rfl
  | succ room => simp [readItems, hclose]

theorem readList_intercalate (hmarks : (separator, close) ∈ ListMarks) {xs : List β}
    {print : β → List Char} {value : β → α} (h : ∀ x ∈ xs, ReadsAs item (print x) (value x))
    (hclose : ∀ rest, item (close :: rest) = none) (rest : List Char) :
    readList item separator close (separator.intercalate (xs.map print) ++ close :: rest)
      = some (xs.map value, rest) := by
  by_cases hne : xs = []
  · subst hne
    simp [readList]
  · have hlength := length_le_intercalate (ends_of_marks hmarks []).2.2.2 (xs.map print)
    rw [List.length_map] at hlength
    have hroom : xs.length ≤ (separator.intercalate (xs.map print) ++ close :: rest).length := by
      rw [List.length_append, List.length_cons]
      omega
    have hread := readItems_intercalate hmarks hne h hroom rest
    have hhead : (separator.intercalate (xs.map print) ++ close :: rest).head? ≠ some close := by
      intro hhead
      obtain ⟨more, hmore⟩ := List.head?_eq_some_iff.1 hhead
      rw [hmore, readItems_close hclose] at hread
      cases hread
    rw [readList, if_neg hhead, hread]

end Lists

section Parts

variable {component : Component} {type : Reader TypeExpr} {β : Type} {xs : List β}
  {print : β → List Char} {value : β → TypeExpr}

theorem readArguments_arguments (h : ∀ x ∈ xs, ReadsAs type (print x) (value x))
    (hclose : ∀ rest, type ('>' :: rest) = none) :
    ReadsAs (readArguments type) (arguments (xs.map print)) (xs.map value) := by
  intro rest hends
  by_cases hne : xs = []
  · subst hne
    have hhead : rest.head? ≠ some '<' := fun hhead => absurd (hends '<' hhead) (by decide)
    exact if_neg hhead
  · have hargs : arguments (xs.map print) ++ rest
        = '<' :: ([',', ' '].intercalate (xs.map print) ++ '>' :: rest) := by
      simp [arguments, hne]
    rw [hargs, readArguments, List.head?_cons, if_pos rfl, List.tail_cons]
    exact readList_intercalate (by decide) h hclose rest

theorem readField_fieldText {name : String} (hname : name.toList.all isNameLetter = true)
    {text : List Char} {t : TypeExpr} (h : ReadsAs type text t) :
    ReadsAs (readField type) (fieldText (name.toList, text)) ⟨name, t, false⟩ := by
  intro rest hends
  have hall := List.all_eq_true.1 hname
  have htake : (fieldText (name.toList, text) ++ rest).takeWhile isNameLetter = name.toList := by
    simp [fieldText, List.takeWhile_append_of_pos hall, show isNameLetter ':' = false by decide]
  have hdrop : (fieldText (name.toList, text) ++ rest).dropWhile isNameLetter
      = ':' :: ' ' :: (text ++ rest) := by
    simp [fieldText, List.dropWhile_append_of_pos hall, show isNameLetter ':' = false by decide]
  simp [readField, htake, hdrop, h rest hends]

theorem isNameLetter_of_ends {c : Char} {rest : List Char} (hends : Ends rest)
    (hc : c ∈ rest.head?) : isNameLetter c = false := by
  have hall : ∀ c ∈ [',', '|', ')', '>', '\x7d'], (!isNameLetter c) = true :=
    List.all_eq_true.1 (by decide)
  simpa using hall c (hends c hc)

theorem takeWhile_word {word rest : List Char} (hword : word.all isNameLetter = true)
    (hrest : ∀ c ∈ rest.head?, isNameLetter c = false) :
    (word ++ rest).takeWhile isNameLetter = word ∧ (word ++ rest).dropWhile isNameLetter = rest := by
  have hall := List.all_eq_true.1 hword
  rw [List.takeWhile_append_of_pos hall, List.dropWhile_append_of_pos hall]
  cases rest with
  | nil => simp
  | cons c rest =>
      have hc := hrest c rfl
      simp [hc]

theorem readNamed_word {word rest : List Char} (hne : word ≠ [])
    (hword : word.all isNameLetter = true) (hrest : ∀ c ∈ rest.head?, isNameLetter c = false) :
    readNamed component type (word ++ rest)
      = if String.ofList word = "function" then
          if rest.head? = some '(' then readFunction type rest.tail else none
        else readWord component type (String.ofList word) rest := by
  obtain ⟨htake, hdrop⟩ := takeWhile_word hword hrest
  have hempty : String.ofList word ≠ "" := fun h => hne (by simpa using h)
  simp only [readNamed, htake, hdrop, if_neg hempty]

theorem readFunction_function {result : List Char} {t : TypeExpr}
    (h : ∀ x ∈ xs, ReadsAs type (print x) (value x)) (hclose : ∀ rest, type (')' :: rest) = none)
    (hresult : ReadsAs type result t) : ReadsAs (readFunction type)
      ([',', ' '].intercalate (xs.map print) ++ ')' :: ':' :: ' ' :: result)
      (.function (xs.map value) t) := by
  intro rest hends
  have hmarks : ([',', ' '], ')') ∈ ListMarks := by decide
  have hparams := readList_intercalate hmarks h hclose (':' :: ' ' :: (result ++ rest))
  simp only [readFunction, List.append_assoc, List.cons_append, hparams, Option.bind_eq_bind,
    Option.bind_some, hresult rest hends]
  rfl

end Parts

section Types

variable {component : Component} {text : List Char} {t : TypeExpr}

/-- With room for all its letters, a text is read as a type. -/
def Spells (component : Component) (text : List Char) (t : TypeExpr) : Prop :=
  ∀ depth, text.length ≤ depth → ReadsAs (readType component depth) text t

theorem readType_close {close : Char} (hclose : close ∈ [')', '>', '\x7d']) (depth : Nat)
    (rest : List Char) : readType component depth (close :: rest) = none := by
  cases depth with
  | zero => rfl
  | succ depth =>
      simp only [List.mem_cons, List.not_mem_nil, or_false] at hclose
      have hletter : isNameLetter close = false := by
        rcases hclose with rfl | rfl | rfl <;> decide
      have hnamed : readType component (depth + 1) (close :: rest)
          = readNamed component (readType component depth) (close :: rest) := by
        rcases hclose with rfl | rfl | rfl <;> rfl
      simp [hnamed, readNamed, hletter]

theorem readType_word {word rest : List Char} (hne : word ≠ [])
    (hword : word.all isNameLetter = true) (depth : Nat) :
    readType component (depth + 1) (word ++ rest)
      = readNamed component (readType component depth) (word ++ rest) := by
  obtain ⟨c, word, rfl⟩ := List.exists_cons_of_ne_nil hne
  rw [List.all_cons, Bool.and_eq_true] at hword
  have hmarks : ∀ mark ∈ ['!', '*', '?', '(', '\x7b'], c ≠ mark := by
    intro mark hmark heq
    have hall : ∀ mark ∈ ['!', '*', '?', '(', '\x7b'], (!isNameLetter mark) = true :=
      List.all_eq_true.1 (by decide)
    have hnot := hall mark hmark
    rw [← heq, hword.1] at hnot
    cases hnot
  rw [List.cons_append]
  unfold readType
  split
  · next h => exact absurd (List.cons.inj h).1 (hmarks _ (by decide))
  · next h => exact absurd (List.cons.inj h).1 (hmarks _ (by decide))
  · next h => exact absurd (List.cons.inj h).1 (hmarks _ (by decide))
  · next h => exact absurd (List.cons.inj h).1 (hmarks _ (by decide))
  · next h => exact absurd (List.cons.inj h).1 (hmarks _ (by decide))
  · rfl

theorem Spells.marked (h : Spells component text t) : Spells component ('!' :: text) t := by
  intro depth hdepth rest hends
  obtain ⟨depth, rfl⟩ : ∃ k, depth = k + 1 := ⟨depth - 1, by simp at hdepth; omega⟩
  exact h depth (by simpa using hdepth) rest hends

theorem Spells.nullable (h : Spells component text t) :
    Spells component ('?' :: text) (TypeExpr.choice [t, .primitive .null]) := by
  intro depth hdepth rest hends
  obtain ⟨depth, rfl⟩ : ∃ k, depth = k + 1 := ⟨depth - 1, by simp at hdepth; omega⟩
  have hread := h depth (by simpa using hdepth) rest hends
  simp [readType, hread]

theorem mem_length_intercalate {separator : List Char} {texts : List (List Char)}
    (h : text ∈ texts) : text.length ≤ (separator.intercalate texts).length := by
  induction texts with
  | nil => exact absurd h List.not_mem_nil
  | cons first texts ih =>
      cases texts with
      | nil => simp [List.mem_singleton.1 h]
      | cons next more =>
          rw [List.intercalate_cons_cons, List.length_append, List.length_append]
          rcases List.mem_cons.1 h with rfl | h
          · omega
          · have hlater := ih h
            omega

variable {β : Type} {xs : List β} {print : β → List Char} {value : β → TypeExpr}

theorem reads_parts (h : ∀ x ∈ xs, Spells component (print x) (value x)) {separator : List Char}
    {depth : Nat} (hroom : (separator.intercalate (xs.map print)).length ≤ depth) :
    ∀ x ∈ xs, ReadsAs (readType component depth) (print x) (value x) := fun x hx =>
  h x hx depth (Nat.le_trans (mem_length_intercalate (List.mem_map_of_mem hx)) hroom)

theorem reads_arguments (h : ∀ x ∈ xs, Spells component (print x) (value x)) {depth : Nat}
    (hroom : (arguments (xs.map print)).length ≤ depth) :
    ReadsAs (readArguments (readType component depth)) (arguments (xs.map print))
      (xs.map value) := by
  refine readArguments_arguments (fun x hx => ?_) (readType_close (by decide) depth)
  have hparts : ([',', ' '].intercalate (xs.map print)).length ≤ depth := by
    have hne : xs.map print ≠ [] := by simpa using List.ne_nil_of_mem hx
    have hlist : arguments (xs.map print)
        = '<' :: ([',', ' '].intercalate (xs.map print) ++ ['>']) := by
      rw [arguments, if_neg (by simpa using hne)]
    rw [hlist, List.length_cons, List.length_append] at hroom
    omega
  exact reads_parts h hparts x hx

theorem spells_union (h : ∀ x ∈ xs, Spells component (print x) (value x)) :
    Spells component ('(' :: (['|'].intercalate (xs.map print) ++ [')']))
      (TypeExpr.choice (xs.map value)) := by
  intro depth hdepth rest _
  simp only [List.length_cons, List.length_append, List.length_nil] at hdepth
  obtain ⟨depth, rfl⟩ : ∃ k, depth = k + 1 := ⟨depth - 1, by omega⟩
  have hmarks : (['|'], ')') ∈ ListMarks := by decide
  have hroom : (['|'].intercalate (xs.map print)).length ≤ depth := by omega
  have hread := readList_intercalate hmarks (reads_parts h hroom)
    (readType_close (by decide) depth) rest
  simp [readType, hread]

theorem spells_any (h : ∀ x ∈ xs, Spells component (print x) (value x)) :
    Spells component ('*' :: arguments (xs.map print))
      (TypeExpr.canonicalReference "any" (xs.map value)) := by
  intro depth hdepth rest hends
  rw [List.length_cons] at hdepth
  obtain ⟨depth, rfl⟩ : ∃ k, depth = k + 1 := ⟨depth - 1, by omega⟩
  have hread := reads_arguments h (Nat.le_of_succ_le_succ hdepth) rest hends
  simp [readType, hread]

theorem spells_keyword {p : Primitive} (hp : p ∈ keywords) :
    Spells component p.keyword.toList (.primitive p) := by
  intro depth hdepth rest hends
  have hwords : ∀ p ∈ keywords, p.keyword.toList ≠ [] ∧ p.keyword.toList.all isNameLetter = true
      ∧ p.keyword ≠ "function" ∧ keywords.find? (·.keyword == p.keyword) = some p := by
    decide
  obtain ⟨hne, hword, hfunction, hfind⟩ := hwords p hp
  have hpos := List.length_pos_iff.2 hne
  obtain ⟨depth, rfl⟩ : ∃ k, depth = k + 1 := ⟨depth - 1, by omega⟩
  rw [readType_word hne hword, readNamed_word hne hword fun c hc => isNameLetter_of_ends hends hc,
    String.ofList_toList, if_neg hfunction, readWord, hfind]

theorem head_arguments {texts : List (List Char)} {rest : List Char} (hends : Ends rest) :
    ∀ c ∈ (arguments texts ++ rest).head?, isNameLetter c = false := by
  intro c hc
  by_cases hne : texts = []
  · subst hne
    exact isNameLetter_of_ends hends hc
  · obtain rfl : '<' = c := by simpa [arguments, hne] using hc
    decide

theorem spells_named {name : String} (hne : name.toList ≠ [])
    (hletters : name.toList.all isNameLetter = true) (hfree : name ∉ reservedWords)
    (h : ∀ x ∈ xs, Spells component (print x) (value x)) :
    Spells component (name.toList ++ arguments (xs.map print))
      (TypeExpr.canonicalReference (meant component name) (xs.map value)) := by
  intro depth hdepth rest hends
  rw [List.length_append] at hdepth
  have hpos := List.length_pos_iff.2 hne
  obtain ⟨depth, rfl⟩ : ∃ k, depth = k + 1 := ⟨depth - 1, by omega⟩
  obtain ⟨hfunction, hkeyword⟩ := not_or.1 (mt List.mem_cons.2 hfree)
  have hfind : keywords.find? (·.keyword == name) = none := by
    refine List.find?_eq_none.2 fun p hp heq => hkeyword ?_
    exact List.mem_map.2 ⟨p, hp, beq_iff_eq.1 heq⟩
  have hread := reads_arguments h (show (arguments (xs.map print)).length ≤ depth by omega) rest hends
  rw [List.append_assoc, readType_word hne hletters,
    readNamed_word hne hletters (head_arguments hends), String.ofList_toList, if_neg hfunction]
  simp [readWord, hfind, hread]

theorem spells_function {result : List Char} {t : TypeExpr}
    (h : ∀ x ∈ xs, Spells component (print x) (value x)) (hresult : Spells component result t) :
    Spells component ("function".toList
      ++ '(' :: ([',', ' '].intercalate (xs.map print) ++ ')' :: ':' :: ' ' :: result))
      (.function (xs.map value) t) := by
  intro depth hdepth rest hends
  have hword : "function".toList ≠ [] ∧ "function".toList.all isNameLetter = true := by decide
  simp only [List.length_append, List.length_cons] at hdepth
  obtain ⟨depth, rfl⟩ : ∃ k, depth = k + 1 := ⟨depth - 1, by omega⟩
  have hroom : ([',', ' '].intercalate (xs.map print)).length ≤ depth := by omega
  have hread := readFunction_function (reads_parts h hroom) (readType_close (by decide) depth)
    (hresult depth (by omega)) rest hends
  have hparen : ∀ c ∈ ('(' :: ([',', ' '].intercalate (xs.map print)
      ++ ')' :: ':' :: ' ' :: result) ++ rest).head?, isNameLetter c = false := by
    intro c hc
    obtain rfl : '(' = c := by simpa using hc
    decide
  rw [List.append_assoc, readType_word hword.1 hword.2, readNamed_word hword.1 hword.2 hparen,
    String.ofList_toList, if_pos rfl, List.cons_append, List.head?_cons, if_pos rfl, List.tail_cons,
    hread]

theorem readField_close (type : Reader TypeExpr) (rest : List Char) :
    readField type ('\x7d' :: rest) = none := by
  simp [readField, show isNameLetter '\x7d' = false by decide]

theorem spells_record {fields : List Field} {text : Field → List Char} {value : Field → TypeExpr}
    (hnames : ∀ f ∈ fields, f.name.toList.all isNameLetter = true)
    (h : ∀ f ∈ fields, Spells component (text f) (value f)) : Spells component
      ('\x7b' :: ([',', ' '].intercalate (fields.map fun f => fieldText (f.name.toList, text f))
        ++ ['\x7d']))
      (.record (fields.map fun f => ⟨f.name, value f, false⟩)) := by
  intro depth hdepth rest _
  simp only [List.length_cons, List.length_append, List.length_nil] at hdepth
  obtain ⟨depth, rfl⟩ : ∃ k, depth = k + 1 := ⟨depth - 1, by omega⟩
  have hfields : ∀ f ∈ fields, ReadsAs (readField (readType component depth))
      (fieldText (f.name.toList, text f)) (⟨f.name, value f, false⟩ : Field) := by
    intro f hf
    refine readField_fieldText (hnames f hf) (h f hf depth ?_)
    have hpart : (fieldText (f.name.toList, text f)).length ≤ ([',', ' '].intercalate
        (fields.map fun f => fieldText (f.name.toList, text f))).length :=
      mem_length_intercalate (List.mem_map.2 ⟨f, hf, rfl⟩)
    simp only [fieldText, List.length_append, List.length_cons] at hpart hdepth
    omega
  have hmarks : ([',', ' '], '\x7d') ∈ ListMarks := by decide
  have hread := readList_intercalate hmarks hfields (readField_close _) rest
  simp [readType, hread]

end Types

end ClosureType

end ElementBridge
