import ElementBridge.Grammar.Cursor
import ElementBridge.Proofs.PrintedText

namespace ElementBridge

namespace Scan

open Text

variable {c : Char} {text rest more : List Char} {t : Token} {ts us : List Token}

theorem gap_shift {g : Gap} {n m : Nat} {broken b : Bool}
    (h : gap g text n broken = some (m, b)) (k : Nat) (before : Bool) :
    ∃ b', gap g text (n + k) before = some (m + k, b') := by
  fun_induction gap g text n broken generalizing before with
  | case1 r n broken ih => simpa [gap, Nat.add_right_comm] using ih h before
  | case2 r n broken ih => simpa [gap, Nat.add_right_comm] using ih h before
  | case3 n broken c r hline hblock hbreak ih =>
      simpa [gap, hbreak, Nat.add_right_comm] using ih h true
  | case4 n broken c r hline hblock hbreak hblank ih =>
      simpa [gap, hbreak, hblank, Nat.add_right_comm] using ih h before
  | case5 n broken c r hline hblock hbreak hblank =>
      obtain ⟨rfl, rfl⟩ := Prod.mk.inj (Option.some.inj h)
      exact ⟨before, by simp [gap, hbreak, hblank]⟩
  | case6 n broken c r hbreak ih => simpa [gap, hbreak, Nat.add_right_comm] using ih h true
  | case7 n broken c r hbreak ih => simpa [gap, hbreak, Nat.add_right_comm] using ih h before
  | case8 r n broken ih => simpa [gap, Nat.add_right_comm] using ih h before
  | case9 c r n broken hclose ih =>
      simpa [gap, hclose, Nat.add_right_comm] using ih h (before || isLineBreak c)
  | case10 => simp at h
  | case11 g n broken hopen =>
      obtain ⟨rfl, rfl⟩ := Prod.mk.inj (Option.some.inj h)
      refine ⟨before, ?_⟩
      cases g with
      | block => exact absurd rfl hopen
      | blank => rfl
      | line => rfl

/-- The text is these tokens, blanks and comments between them left out. -/
def Scans : List Char → List Token → Prop
  | text, [] => ∃ n broken, gap .blank text 0 false = some (n, broken) ∧ text.drop n = []
  | text, t :: ts => ∃ n broken length, gap .blank text 0 false = some (n, broken) ∧
      n < text.length ∧ 0 < length ∧ token (text.drop n) = (t, length) ∧
      Scans ((text.drop n).drop length) ts

theorem Scans.length_le (h : Scans text ts) : ts.length ≤ text.length := by
  induction ts generalizing text with
  | nil => exact Nat.zero_le _
  | cons t ts ih =>
      obtain ⟨n, broken, length, -, hn, hlength, -, hrest⟩ := h
      have hle := ih hrest
      rw [List.length_drop, List.length_drop] at hle
      rw [List.length_cons]
      omega

theorem scans_nil : Scans [] [] := ⟨0, false, rfl, rfl⟩

theorem Scans.blank (hc : isBlank c = true ∨ isLineBreak c = true) (h : Scans text ts) :
    Scans (c :: text) ts := by
  have hslash : c ≠ '/' := by
    rintro rfl
    exact absurd hc (by decide)
  have hgap {n : Nat} {b : Bool} (h : gap .blank text 0 false = some (n, b)) :
      ∃ b', gap .blank (c :: text) 0 false = some (n + 1, b') := by
    by_cases hbreak : isLineBreak c = true
    · simpa [gap, hslash, hbreak] using gap_shift h 1 true
    · have hblank := hc.resolve_right hbreak
      simpa [gap, hslash, hbreak, hblank] using gap_shift h 1 false
  cases ts with
  | nil =>
      obtain ⟨n, b, hskip, hend⟩ := h
      obtain ⟨b', hskip'⟩ := hgap hskip
      exact ⟨n + 1, b', hskip', hend⟩
  | cons t ts =>
      obtain ⟨n, b, length, hskip, hn, hlength, htoken, hrest⟩ := h
      obtain ⟨b', hskip'⟩ := hgap hskip
      exact ⟨n + 1, b', length, hskip', by simpa using hn, hlength, htoken, hrest⟩

def opensToken (c : Char) : Bool := !isBlank c && !isLineBreak c && c != '/'

theorem Scans.token (hc : opensToken c = true)
    (h : token (c :: text ++ more) = (t, (c :: text).length)) (hmore : Scans more ts) :
    Scans (c :: text ++ more) (t :: ts) := by
  simp only [opensToken, Bool.and_eq_true, Bool.not_eq_true', bne_iff_ne] at hc
  obtain ⟨⟨hblank, hbreak⟩, hslash⟩ := hc
  refine ⟨0, false, (c :: text).length, ?_, by simp, by simp, h, ?_⟩
  · simp [gap, hslash, hblank, hbreak]
  · rw [List.drop_zero, List.drop_left]
    exact hmore

/-- A piece of text that makes these tokens in front of whatever follows. -/
def Spells (text : List Char) (ts : List Token) : Prop :=
  ∀ more us, Scans more us → Scans (text ++ more) (ts ++ us)

theorem spells_nil : Spells [] [] := fun _ _ h => h

theorem Spells.scans (h : Spells text ts) : Scans text ts := by
  simpa using h [] [] scans_nil

theorem Spells.append (h : Spells text ts) (h' : Spells rest us) :
    Spells (text ++ rest) (ts ++ us) := by
  intro more vs hmore
  rw [List.append_assoc, List.append_assoc]
  exact h _ _ (h' more vs hmore)

theorem Spells.blank (hc : isBlank c = true ∨ isLineBreak c = true) (h : Spells text ts) :
    Spells (c :: text) ts := fun more us hmore => (h more us hmore).blank hc

/-- The marks of one letter that no other letter goes on with. -/
def plainMarks : List (Char × Mark) :=
  [('\x7b', .openBrace), ('\x7d', .closeBrace), (',', .comma), (';', .semicolon)]

theorem Spells.mark {m : Mark} (hm : (c, m) ∈ plainMarks) (h : Spells text ts) :
    Spells (c :: text) (.mark m :: ts) := by
  have hc : opensToken c = true ∧ ∀ more, Scan.token (c :: more) = (.mark m, 1) := by
    simp only [plainMarks, List.mem_cons, List.not_mem_nil, or_false, Prod.mk.injEq] at hm
    rcases hm with ⟨rfl, rfl⟩ | ⟨rfl, rfl⟩ | ⟨rfl, rfl⟩ | ⟨rfl, rfl⟩ <;>
      exact ⟨by decide, fun _ => rfl⟩
  intro more us hmore
  have hscan : Scans ([c] ++ (text ++ more)) _ := .token hc.1 (hc.2 _) (h more us hmore)
  exact hscan

theorem Spells.star (h : Spells text ts) : Spells ('*' :: ' ' :: text) (.mark .star :: ts) := by
  intro more us hmore
  have hblank := (h more us hmore).blank (c := ' ') (.inl (by decide))
  have hscan : Scans (['*'] ++ ' ' :: (text ++ more)) _ := .token (by decide) rfl hblank
  exact hscan

section Words

theorem mark_eq_none (h : isIdentifierStart c = true) : mark (c :: rest) = none := by
  unfold mark
  split <;> first
    | rfl
    | (next heq => obtain ⟨rfl, -⟩ := List.cons.inj heq; exact absurd h (by decide))

theorem wordLetters_append (h : text.all isIdentifierPart = true)
    (hrest : ∀ d ∈ rest.head?, isIdentifierPart d = false ∧ d ≠ '\\') :
    wordLetters 0 (text ++ rest) = some (text, text.length) := by
  induction text with
  | nil =>
      cases rest with
      | nil => rfl
      | cons d rest =>
          obtain ⟨hpart, hescape⟩ := hrest d rfl
          simp [wordLetters, hpart]
  | cons c text ih =>
      rw [List.all_cons, Bool.and_eq_true] at h
      have hescape : c ≠ '\\' := by
        rintro rfl
        exact absurd h.1 (by decide)
      simp [wordLetters, h.1, ih h.2]

theorem word_append (w : Word)
    (hrest : ∀ d ∈ rest.head?, isIdentifierPart d = false ∧ d ≠ '\\') :
    word (w.text.toList ++ rest) = some (w, w.text.length) := by
  have hletters := wordLetters_append (all_isIdentifierPart w.isIdentifier).2 hrest
  simp [word, hletters, Word.ofLetters?, w.isIdentifier, String.length_toList]

def nameToken (name : String) : Token :=
  if h : isIdentifier name = true then .word ⟨name, h⟩ (Keyword.ofSpelling? name) else .invalid

theorem nameToken_eq {name : String} (h : isIdentifier name = true) :
    nameToken name = .word ⟨name, h⟩ (Keyword.ofSpelling? name) := dif_pos h

def blankPoints : List Nat :=
  [0x9, 0xA, 0xB, 0xC, 0xD, 0x20, 0x85, 0xA0, 0x1680, 0x2000, 0x2001, 0x2002, 0x2003, 0x2004, 0x2005,
    0x2006, 0x2007, 0x2008, 0x2009, 0x200A, 0x200B, 0x2028, 0x2029, 0x202F, 0x205F, 0x3000, 0xFEFF]

theorem mem_blankPoints (h : isBlank c = true ∨ isLineBreak c = true) : c.toNat ∈ blankPoints := by
  rcases h with h | h
  · simp only [isBlank, Bool.or_eq_true, Bool.and_eq_true, beq_iff_eq, decide_eq_true_eq] at h
    simp only [blankPoints, List.mem_cons, List.not_mem_nil, or_false]
    omega
  · simp only [isLineBreak, Bool.or_eq_true, beq_iff_eq] at h
    rcases h with ((rfl | rfl) | rfl) | rfl <;> decide

theorem not_mem_points {points : List Nat} (h : isIdentifierStart c = true)
    (hpoints : ∀ n ∈ points, isIdentifierStart (Char.ofNat n) = false) : c.toNat ∉ points := by
  intro hmem
  have hnot := hpoints _ hmem
  rw [Char.ofNat_toNat, h] at hnot
  exact absurd hnot (by simp)

theorem opensToken_of_start (h : isIdentifierStart c = true) : opensToken c = true := by
  have hblank : ¬ (isBlank c = true ∨ isLineBreak c = true) := fun hc =>
    not_mem_points h (by decide +kernel) (mem_blankPoints hc)
  have hslash : c ≠ '/' := by
    rintro rfl
    exact absurd h (by decide)
  obtain ⟨hblank, hbreak⟩ := not_or.1 hblank
  simp [opensToken, hblank, hbreak, hslash]

theorem isDigit_of_start (h : isIdentifierStart c = true) : isDigit c = false := by
  rw [← Bool.not_eq_true]
  intro hdigit
  have hmem : c.toNat ∈ List.range' 48 10 := by
    simp only [isDigit, Bool.and_eq_true, decide_eq_true_eq] at hdigit
    have hfirst : 48 ≤ c.toNat := UInt32.le_iff_toNat_le.1 hdigit.1
    have hlast : c.toNat ≤ 57 := UInt32.le_iff_toNat_le.1 hdigit.2
    rw [List.mem_range'_1]
    omega
  exact not_mem_points h (by decide +kernel) hmem

theorem token_start (h : isIdentifierStart c = true) :
    token (c :: rest) = wordToken (c :: rest) := by
  unfold token
  split
  · next heq => exact absurd heq (List.cons_ne_nil _ _)
  all_goals
    next heq =>
    obtain ⟨rfl, -⟩ := List.cons.inj heq
    first
      | exact absurd h (by decide)
      | rw [isDigit_of_start h, mark_eq_none h]; rfl

theorem Spells.name {name : String} (h : isIdentifier name = true)
    (hc : isIdentifierPart c = false ∧ c ≠ '\\') (hmore : Spells (c :: text) ts) :
    Spells (name.toList ++ c :: text) (nameToken name :: ts) := by
  intro more us hus
  have hrest : ∀ d ∈ (c :: text ++ more).head?, isIdentifierPart d = false ∧ d ≠ '\\' := by
    rintro _ ⟨⟩
    exact hc
  have hword := word_append ⟨name, h⟩ hrest
  rw [List.append_assoc]
  cases htext : name.toList with
  | nil => exact absurd htext (all_isIdentifierPart h).1
  | cons d letters =>
      have hstart : isIdentifierStart d = true := by
        have hname := h
        rw [isIdentifier, htext, Bool.and_eq_true] at hname
        exact hname.1
      refine Scans.token (opensToken_of_start hstart) ?_ (hmore more us hus)
      rw [htext] at hword
      rw [List.cons_append, token_start hstart, ← List.cons_append, wordToken, hword, nameToken_eq h,
        ← htext, String.length_toList]
      exact congrArg (fun keyword => (Token.word _ keyword, _)) (if_pos rfl)

end Words

section Strings

variable {quote : Char}

def isPlain (quote c : Char) : Bool := c != quote && c != '\\' && c != '\n' && c != '\r'

theorem stringBody_plain (h : text.all (isPlain quote) = true) :
    stringBody quote 0 (text ++ quote :: rest)
      = some (text.map Char.toNat, text.length + 1) := by
  induction text with
  | nil => simp [stringBody]
  | cons c text ih =>
      rw [List.all_cons, Bool.and_eq_true] at h
      have hc := h.1
      simp only [isPlain, Bool.and_eq_true, bne_iff_ne] at hc
      obtain ⟨⟨⟨hquote, hescape⟩, hline⟩, hreturn⟩ := hc
      simp [stringBody, hquote, hescape, hline, hreturn, ih h.2]

theorem toNat_outside (c : Char) : c.toNat < 0xD800 ∨ 0xDFFF < c.toNat := by
  have hc := c.valid
  simp only [UInt32.isValidChar, Nat.isValidChar] at hc
  change c.val.toNat < _ ∨ _ < c.val.toNat
  omega

theorem isLead_toNat (c : Char) : isLead c.toNat = false := by
  have hc := toNat_outside c
  rw [isLead, Bool.and_eq_false_iff, decide_eq_false_iff_not, decide_eq_false_iff_not]
  omega

theorem isTrail_toNat (c : Char) : isTrail c.toNat = false := by
  have hc := toNat_outside c
  rw [isTrail, Bool.and_eq_false_iff, decide_eq_false_iff_not, decide_eq_false_iff_not]
  omega

theorem joinSurrogates_toNat (text : List Char) :
    joinSurrogates (text.map Char.toNat) = text.map Char.toNat := by
  induction text with
  | nil => rfl
  | cons c text ih =>
      cases text with
      | nil => rfl
      | cons d text =>
          rw [List.map_cons, List.map_cons, joinSurrogates, isLead_toNat, ← List.map_cons, ih]
          rfl

theorem pointsText_toNat (text : List Char) :
    pointsText (text.map Char.toNat) = String.ofList text := by
  rw [pointsText, List.any_eq_false.2 fun u hu => ?_, if_neg Bool.false_ne_true, List.map_map]
  · congr 1
    exact (List.map_congr_left fun c _ => Char.ofNat_toNat c).trans (List.map_id _)
  · obtain ⟨c, -, rfl⟩ := List.mem_map.1 hu
    simp [isLead_toNat, isTrail_toNat]

theorem Spells.string {value : String} (h : value.toList.all (isPlain '\x27') = true)
    (hmore : Spells text ts) :
    Spells ('\x27' :: (value.toList ++ '\x27' :: text)) (.string value :: ts) := by
  intro more us hus
  have htoken : Scan.token ('\x27' :: (value.toList ++ ['\x27']) ++ (text ++ more))
      = (.string value, ('\x27' :: (value.toList ++ ['\x27'])).length) := by
    have hbody := @stringBody_plain value.toList (text ++ more) '\x27' h
    rw [List.cons_append, List.append_assoc, List.singleton_append]
    change Scan.string '\x27' (value.toList ++ '\x27' :: (text ++ more)) = _
    rw [Scan.string, hbody]
    simp [joinSurrogates_toNat, pointsText_toNat]
  have hscans := Scans.token (by decide) htoken (hmore more us hus)
  simpa using hscans

end Strings

end Scan

namespace Cursor

open Scan

/-- At the top level of a module, in front of these tokens and of nothing else. -/
structure Faces (c : Cursor) (ts : List Token) : Prop where
  token : c.token = ts.head?.getD .endOfText
  after : ∀ t rest, ts = t :: rest → Scans c.after rest
  context : c.context = .topLevel
  openDefaults : c.openDefaults = 0

variable {c : Cursor} {t : Token} {ts : List Token} {text : List Char}

theorem Faces.moveTo (hcontext : c.context = .topLevel) (hdefaults : c.openDefaults = 0)
    (h : Scans text ts) (position : Nat) : (c.moveTo text position).Faces ts := by
  cases ts with
  | nil =>
      obtain ⟨n, broken, hgap, hend⟩ := h
      unfold Cursor.moveTo
      rw [hgap]
      simp only [hend]
      exact ⟨rfl, fun _ _ h => by simp at h, hcontext, hdefaults⟩
  | cons t ts =>
      obtain ⟨n, broken, length, hgap, -, -, htoken, hrest⟩ := h
      unfold Cursor.moveTo
      rw [hgap]
      simp only [htoken]
      refine ⟨rfl, fun _ _ h => ?_, hcontext, hdefaults⟩
      obtain ⟨rfl, rfl⟩ := List.cons.inj h
      exact hrest

theorem Faces.next (h : c.Faces (t :: ts)) : c.next.Faces ts :=
  have hmoved := Faces.moveTo h.context h.openDefaults (h.after t ts rfl) c.afterPosition
  ⟨hmoved.token, hmoved.after, hmoved.context, hmoved.openDefaults⟩

theorem faces_ofText (h : Scans text ts) : (ofText text).Faces ts := Faces.moveTo rfl rfl h 0

end Cursor

end ElementBridge
