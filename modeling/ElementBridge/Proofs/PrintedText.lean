import ElementBridge.Bridge.ClosureType
import ElementBridge.Text.Letter
import ElementBridge.Token

namespace ElementBridge

theorem length_le_intercalate {α : Type} {separator : List α} (hs : separator ≠ [])
    (texts : List (List α)) : texts.length ≤ (separator.intercalate texts).length + 1 := by
  induction texts with
  | nil => exact Nat.zero_le _
  | cons text texts ih =>
      cases texts with
      | nil => simp
      | cons next more =>
          have hpos := List.length_pos_iff.2 hs
          rw [List.intercalate_cons_cons, List.length_append, List.length_append, List.length_cons]
          omega

theorem of_intercalate {R : List Char → Prop} (hnil : R [])
    (happend : ∀ {a b}, R a → R b → R (a ++ b)) {separator : List Char} (hs : R separator)
    {texts : List (List Char)} (h : ∀ t ∈ texts, R t) : R (separator.intercalate texts) := by
  induction texts with
  | nil => exact hnil
  | cons text texts ih =>
      obtain ⟨htext, htexts⟩ := List.forall_mem_cons.1 h
      cases texts with
      | nil => simpa using htext
      | cons next more =>
          rw [List.intercalate_cons_cons]
          exact happend (happend htext hs) (ih htexts)

namespace ClosureType

def opens (c : Char) : Bool := c == '(' || c == '<' || c == '\x7b'

def closes (c : Char) : Bool := c == ')' || c == '>' || c == '\x7d'

def isQuiet (c : Char) : Bool := !opens c && !closes c && c != '|'

/-- The pieces of a text between the bars outside of its brackets. -/
def alternatives : Nat → List Char → List (List Char)
  | _, [] => [[]]
  | depth, c :: rest =>
      if c == '|' && depth == 0 then [] :: alternatives depth rest
      else
        let inside := if opens c then depth + 1 else if closes c then depth - 1 else depth
        match alternatives inside rest with
        | [] => [[c]]
        | piece :: pieces => (c :: piece) :: pieces

def glue (text : List Char) : List (List Char) → List (List Char)
  | [] => [text]
  | piece :: pieces => (text ++ piece) :: pieces

theorem glue_append (a b : List Char) (pieces : List (List Char)) :
    glue (a ++ b) pieces = glue a (glue b pieces) := by
  cases pieces <;> simp [glue]

theorem glue_nil {pieces : List (List Char)} (h : pieces ≠ []) : glue [] pieces = pieces := by
  cases pieces with
  | nil => exact absurd rfl h
  | cons piece pieces => rfl

theorem alternatives_ne_nil (depth : Nat) (text : List Char) : alternatives depth text ≠ [] := by
  cases text with
  | nil => simp [alternatives]
  | cons c rest =>
      simp only [alternatives]
      split
      · simp
      · split <;> simp

theorem alternatives_cons {depth : Nat} {c : Char} (h : (c == '|' && depth == 0) = false)
    (rest : List Char) : alternatives depth (c :: rest)
      = glue [c] (alternatives
          (if opens c then depth + 1 else if closes c then depth - 1 else depth) rest) := by
  simp only [alternatives, h]
  cases hs : alternatives (if opens c then depth + 1 else if closes c then depth - 1 else depth)
    rest <;> simp [glue]

theorem alternatives_bar (rest : List Char) :
    alternatives 0 ('|' :: rest) = [] :: alternatives 0 rest := by
  simp [alternatives]

def Sealed (text : List Char) : Prop :=
  ∀ depth rest, alternatives depth (text ++ rest) = glue text (alternatives depth rest)

def Balanced (text : List Char) : Prop :=
  ∀ depth rest, alternatives (depth + 1) (text ++ rest) = glue text (alternatives (depth + 1) rest)

variable {a b text : List Char}

theorem Sealed.balanced (h : Sealed text) : Balanced text := fun depth rest => h (depth + 1) rest

theorem sealed_nil : Sealed [] := fun _ _ => (glue_nil (alternatives_ne_nil _ _)).symm

theorem Sealed.append (ha : Sealed a) (hb : Sealed b) : Sealed (a ++ b) := by
  intro depth rest
  rw [List.append_assoc, ha, hb, glue_append]

theorem Balanced.append (ha : Balanced a) (hb : Balanced b) : Balanced (a ++ b) := by
  intro depth rest
  rw [List.append_assoc, ha, hb, glue_append]

theorem alternatives_quiet {c : Char} (h : isQuiet c = true) (depth : Nat) (rest : List Char) :
    alternatives depth (c :: rest) = glue [c] (alternatives depth rest) := by
  simp only [isQuiet, Bool.and_eq_true, Bool.not_eq_true', bne_iff_ne] at h
  obtain ⟨⟨hopens, hcloses⟩, hbar⟩ := h
  rw [alternatives_cons (by simp [hbar]), hopens, hcloses]
  rfl

theorem Sealed.cons {c : Char} (hc : isQuiet c = true) (h : Sealed text) : Sealed (c :: text) := by
  have hone : Sealed [c] := fun depth rest => alternatives_quiet hc depth rest
  exact hone.append h

theorem sealed_of_quiet (h : text.all isQuiet = true) : Sealed text := by
  induction text with
  | nil => exact sealed_nil
  | cons c text ih =>
      rw [List.all_cons, Bool.and_eq_true] at h
      exact Sealed.cons h.1 (ih h.2)

theorem balanced_bar : Balanced ['|'] := by
  intro depth rest
  rw [List.singleton_append, alternatives_cons (by simp)]
  rfl

theorem alternatives_open {c : Char} (h : opens c = true) (depth : Nat) (rest : List Char) :
    alternatives depth (c :: rest) = glue [c] (alternatives (depth + 1) rest) := by
  simp only [opens, Bool.or_eq_true, beq_iff_eq] at h
  rcases h with (rfl | rfl) | rfl <;> exact alternatives_cons rfl rest

theorem alternatives_close {c : Char} (h : closes c = true) (depth : Nat) (rest : List Char) :
    alternatives (depth + 1) (c :: rest) = glue [c] (alternatives depth rest) := by
  simp only [closes, Bool.or_eq_true, beq_iff_eq] at h
  rcases h with (rfl | rfl) | rfl <;> exact alternatives_cons rfl rest

theorem Balanced.bracket {o c : Char} (ho : opens o = true) (hc : closes c = true)
    (h : Balanced text) : Sealed (o :: (text ++ [c])) := by
  intro depth rest
  have hsplit : glue (o :: (text ++ [c])) (alternatives depth rest)
      = glue [o] (glue text (glue [c] (alternatives depth rest))) := by
    rw [← glue_append, ← glue_append]
    simp
  rw [hsplit, List.cons_append, alternatives_open ho, List.append_assoc, h, List.singleton_append,
    alternatives_close hc]

theorem alternatives_intercalate {texts : List (List Char)} (hne : texts ≠ [])
    (h : ∀ text ∈ texts, Sealed text) : alternatives 0 (['|'].intercalate texts) = texts := by
  induction texts with
  | nil => exact absurd rfl hne
  | cons text texts ih =>
      obtain ⟨htext, htexts⟩ := List.forall_mem_cons.1 h
      cases texts with
      | nil =>
          have hread := htext 0 []
          simpa [alternatives, glue] using hread
      | cons next more =>
          rw [List.intercalate_cons_cons, List.append_assoc, htext, List.singleton_append,
            alternatives_bar, ih (List.cons_ne_nil _ _) htexts]
          simp [glue]

theorem balanced_intercalate {texts : List (List Char)} (h : ∀ text ∈ texts, Balanced text)
    {separator : List Char} (hs : Balanced separator) :
    Balanced (separator.intercalate texts) :=
  of_intercalate sealed_nil.balanced Balanced.append hs h

def isNameLetter (c : Char) : Bool := Text.isIdentifierPart c || c == '.'

theorem isQuiet_of_isNameLetter {c : Char} (h : isNameLetter c = true) : isQuiet c = true := by
  have hne (d : Char) (hd : isNameLetter d = false) : c ≠ d := by
    rintro rfl
    exact absurd h (by simp [hd])
  have hopens : opens c = false := by
    simp [opens, hne '(' (by decide), hne '<' (by decide), hne '\x7b' (by decide)]
  have hcloses : closes c = false := by
    simp [closes, hne ')' (by decide), hne '>' (by decide), hne '\x7d' (by decide)]
  simp [isQuiet, hopens, hcloses, hne '|' (by decide)]

theorem sealed_of_name {text : List Char} (h : text.all isNameLetter = true) : Sealed text := by
  refine sealed_of_quiet (List.all_eq_true.2 fun c hc => ?_)
  exact isQuiet_of_isNameLetter (List.all_eq_true.1 h c hc)

/-- A finished run of name letters. It is no type name where a colon follows, as behind a key, or an
opening parenthesis, as behind `function`. -/
def finished (run : List Char) (next : Option Char) : List (List Char) :=
  if run.isEmpty || next == some ':' || next == some '(' then [] else [run]

/-- The type names in a text, read on from a run of name letters. -/
def namesFrom (run : List Char) : List Char → List (List Char)
  | [] => finished run none
  | c :: rest =>
      if isNameLetter c then namesFrom (run ++ [c]) rest
      else finished run (some c) ++ namesFrom [] rest

def typeNames (text : List Char) : List (List Char) := namesFrom [] text

theorem namesFrom_name {name : List Char} (h : name.all isNameLetter = true)
    (run rest : List Char) : namesFrom run (name ++ rest) = namesFrom (run ++ name) rest := by
  induction name generalizing run with
  | nil => simp
  | cons c name ih =>
      rw [List.all_cons, Bool.and_eq_true] at h
      rw [List.cons_append, namesFrom, if_pos h.1, ih h.2, List.append_assoc]
      rfl

def Stops (text : List Char) : Prop :=
  ∀ c ∈ text.head?, isNameLetter c = false ∧ c ≠ ':' ∧ c ≠ '('

theorem namesFrom_stops {name rest : List Char} (hne : name ≠ []) (h : Stops rest) :
    namesFrom name rest = name :: namesFrom [] rest := by
  cases rest with
  | nil => simp [namesFrom, finished, hne]
  | cons c rest =>
      obtain ⟨hc, hcolon, hparen⟩ := h c rfl
      simp [namesFrom, finished, hc, hcolon, hparen, hne]

theorem namesFrom_append {rest : List Char} (h : Stops rest) (run text : List Char) :
    namesFrom run (text ++ rest) = namesFrom run text ++ namesFrom [] rest := by
  induction text generalizing run with
  | nil =>
      by_cases hrun : run = []
      · simp [hrun, namesFrom, finished]
      · simpa [namesFrom, finished, hrun] using namesFrom_stops hrun h
  | cons c text ih =>
      rw [List.cons_append, namesFrom, namesFrom]
      split
      · exact ih _
      · rw [ih, List.append_assoc]

theorem typeNames_append {rest : List Char} (h : Stops rest) (text : List Char) :
    typeNames (text ++ rest) = typeNames text ++ typeNames rest :=
  namesFrom_append h [] text

theorem typeNames_name {name : List Char} (hne : name ≠ []) (h : name.all isNameLetter = true) :
    typeNames name = [name] := by
  rw [← List.append_nil name, typeNames, namesFrom_name h]
  simp [namesFrom, finished, hne]

theorem typeNames_cons {c : Char} (hc : isNameLetter c = false) (text : List Char) :
    typeNames (c :: text) = typeNames text := by
  simp [typeNames, namesFrom, finished, hc]

theorem typeNames_then {c : Char} (hc : isNameLetter c = false ∧ c ≠ ':' ∧ c ≠ '(')
    (a b : List Char) : typeNames (a ++ c :: b) = typeNames a ++ typeNames b := by
  have hstops : Stops (c :: b) := fun d hd => by
    obtain rfl : c = d := by simpa using hd
    exact hc
  rw [typeNames_append hstops, typeNames_cons hc.1]

theorem typeNames_label {name : List Char} {c : Char} (hname : name.all isNameLetter = true)
    (hc : c = ':' ∨ c = '(') (text : List Char) :
    typeNames (name ++ c :: text) = typeNames text := by
  have hend : isNameLetter c = false := by rcases hc with rfl | rfl <;> decide
  have hdrop : finished name (some c) = [] := by
    rcases hc with rfl | rfl <;> simp [finished]
  rw [typeNames, namesFrom_name hname]
  simp [typeNames, namesFrom, hend, hdrop]

theorem typeNames_skip {more : List Char} (h : more.all (!isNameLetter ·) = true)
    (text : List Char) : typeNames (more ++ text) = typeNames text := by
  induction more with
  | nil => rfl
  | cons d more ih =>
      rw [List.all_cons, Bool.and_eq_true, Bool.not_eq_true'] at h
      rw [List.cons_append, typeNames_cons h.1, ih h.2]

theorem typeNames_intercalate {c : Char} {more : List Char}
    (hc : isNameLetter c = false ∧ c ≠ ':' ∧ c ≠ '(')
    (hmore : more.all (!isNameLetter ·) = true) (texts : List (List Char)) :
    typeNames ((c :: more).intercalate texts) = texts.flatMap typeNames := by
  induction texts with
  | nil => rfl
  | cons text texts ih =>
      cases texts with
      | nil => simp
      | cons next rest =>
          rw [List.intercalate_cons_cons, List.append_assoc, List.cons_append, typeNames_then hc,
            typeNames_skip hmore, ih]
          rfl

def Mentions (P : List Char → Prop) (text : List Char) : Prop :=
  ∀ rest, Stops rest → ∃ found, (∀ name ∈ found, P name) ∧
    typeNames (text ++ rest) = found ++ typeNames rest

variable {P : List Char → Prop}

theorem mentions_iff : Mentions P text ↔ ∀ name ∈ typeNames text, P name := by
  constructor
  · intro h name hname
    obtain ⟨found, hfound, hread⟩ := h [] fun c hc => absurd hc (by simp)
    rw [List.append_nil] at hread
    rw [hread, List.mem_append] at hname
    exact hname.elim (hfound name) fun h => absurd h List.not_mem_nil
  · exact fun h rest hstops => ⟨typeNames text, h, typeNames_append hstops text⟩

theorem mentions_nil : Mentions P [] := mentions_iff.2 fun _ h => absurd h List.not_mem_nil

theorem Mentions.typeNames (h : Mentions P text) : ∀ name ∈ typeNames text, P name :=
  mentions_iff.1 h

theorem mentions_name {name : List Char} (hne : name ≠ []) (h : name.all isNameLetter = true)
    (hP : P name) : Mentions P name := by
  rw [mentions_iff, typeNames_name hne h]
  exact List.forall_mem_singleton.2 hP

theorem Mentions.then {c : Char} (ha : Mentions P a) (hb : Mentions P b)
    (hc : isNameLetter c = false ∧ c ≠ ':' ∧ c ≠ '(') : Mentions P (a ++ c :: b) := by
  rw [mentions_iff, typeNames_then hc]
  exact List.forall_mem_append.2 ⟨ha.typeNames, hb.typeNames⟩

theorem Mentions.cons {c : Char} (hc : isNameLetter c = false) (h : Mentions P text) :
    Mentions P (c :: text) := by
  rw [mentions_iff, typeNames_cons hc]
  exact h.typeNames

theorem Mentions.label {name : List Char} {c : Char} (hname : name.all isNameLetter = true)
    (hc : c = ':' ∨ c = '(') (h : Mentions P text) : Mentions P (name ++ c :: text) := by
  rw [mentions_iff, typeNames_label hname hc]
  exact h.typeNames

theorem mentions_intercalate {texts : List (List Char)} (h : ∀ t ∈ texts, Mentions P t)
    {c : Char} {more : List Char} (hc : isNameLetter c = false ∧ c ≠ ':' ∧ c ≠ '(')
    (hmore : more.all (!isNameLetter ·) = true) :
    Mentions P ((c :: more).intercalate texts) := by
  rw [mentions_iff, typeNames_intercalate hc hmore]
  intro name hname
  obtain ⟨text, htext, hname⟩ := List.mem_flatMap.1 hname
  exact (h text htext).typeNames name hname

end ClosureType

open ClosureType

theorem Text.isIdentifierPart_of_start {c : Char} (h : isIdentifierStart c = true) :
    isIdentifierPart c = true := by
  unfold isIdentifierStart at h
  unfold isIdentifierPart
  split at h
  · next hascii =>
      rw [if_pos hascii]
      simp only [Bool.or_eq_true] at h ⊢
      exact h.imp_left (·.imp_left .inl)
  · next hascii => simp [hascii, h]

theorem Text.all_isIdentifierPart {name : String} (h : isIdentifier name = true) :
    name.toList ≠ [] ∧ name.toList.all isIdentifierPart = true := by
  unfold isIdentifier at h
  split at h
  · exact absurd h (by simp)
  · next c rest htext =>
      rw [Bool.and_eq_true] at h
      rw [htext]
      refine ⟨List.cons_ne_nil _ _, ?_⟩
      rw [List.all_cons, isIdentifierPart_of_start h.1, h.2]
      rfl

namespace Word

theorem toList_ne_nil (w : Word) : w.text.toList ≠ [] :=
  (Text.all_isIdentifierPart w.isIdentifier).1

theorem all_isNameLetter (w : Word) : w.text.toList.all isNameLetter = true := by
  refine List.all_eq_true.2 fun c hc => ?_
  have hpart := List.all_eq_true.1 (Text.all_isIdentifierPart w.isIdentifier).2 c hc
  rw [isNameLetter, hpart]
  rfl

end Word

namespace DottedName

theorem toList_text (n : DottedName) :
    n.text.toList = ['.'].intercalate ((n.root :: n.rest).map (·.text.toList)) := by
  rw [text, String.toList_intercalate, List.map_cons, List.map_map, List.map_cons]
  rfl

theorem toList_ne_nil (n : DottedName) : n.text.toList ≠ [] := by
  rw [toList_text]
  cases n.rest with
  | nil => simpa using n.root.toList_ne_nil
  | cons w rest => simp [List.intercalate_cons_cons]

theorem all_isNameLetter (n : DottedName) : n.text.toList.all isNameLetter = true := by
  rw [toList_text]
  generalize n.root :: n.rest = words
  induction words with
  | nil => rfl
  | cons w words ih =>
      cases words with
      | nil => simpa using w.all_isNameLetter
      | cons next rest =>
          rw [List.map_cons, List.map_cons, List.intercalate_cons_cons, List.all_append,
            List.all_append, w.all_isNameLetter]
          simpa [isNameLetter] using ih

end DottedName

theorem Text.isIdentifierPart_of_isNamePart {c : Char} (h : isNamePart c = true) :
    isIdentifierPart c = true := by
  have below {d : Char} (hd : d.toNat < 128) (hle : c ≤ d) : isAscii c = true := by
    have hnat : c.toNat ≤ d.toNat := UInt32.le_iff_toNat_le.1 hle
    exact decide_eq_true (by omega)
  simp only [isNamePart, isNameStart, isAsciiLetter, isDigit, Bool.or_eq_true, Bool.and_eq_true,
    decide_eq_true_eq, beq_iff_eq] at h
  have hascii : isAscii c = true := by
    rcases h with (((h | h) | rfl) | rfl) | h
    · exact below (by decide) h.2
    · exact below (by decide) h.2
    · decide
    · decide
    · exact below (by decide) h.2
  simp only [isIdentifierPart, hascii, if_true, isAsciiLetter, isDigit, Bool.or_eq_true,
    Bool.and_eq_true, decide_eq_true_eq, beq_iff_eq]
  rcases h with ((h | h) | h) | h
  · exact .inl (.inl (.inl h))
  · exact .inr h
  · exact .inl (.inr h)
  · exact .inl (.inl (.inr h))

theorem Text.all_isNameLetter_of_isBareKey {name : String} (h : isBareKey name = true) :
    name.toList.all isNameLetter = true := by
  have hpart {c : Char} (hc : isNamePart c = true) : isNameLetter c = true := by
    rw [isNameLetter, isIdentifierPart_of_isNamePart hc]
    rfl
  unfold isBareKey at h
  split at h
  · exact absurd h (by simp)
  · next c rest htext =>
      rw [Bool.and_eq_true] at h
      have hc : isNamePart c = true := by rw [isNamePart, h.1]; rfl
      rw [htext]
      refine List.all_eq_true.2 (List.forall_mem_cons.2 ⟨hpart hc, fun d hd => ?_⟩)
      exact hpart (List.all_eq_true.1 h.2 d hd)

end ElementBridge
