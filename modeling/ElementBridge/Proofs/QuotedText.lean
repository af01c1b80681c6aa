import ElementBridge.Proofs.ScannedTokens
import ElementBridge.Text.Quoted

namespace ElementBridge

namespace Scan

variable {quote c : Char} {text rest body : List Char} {units : List Nat} {n skip : Nat}

theorem stringEscape_length {us : List Nat} (h : stringEscape text = some (us, n)) :
    us.length ≤ n := by
  have one {v k : Nat} (hk : 0 < k) (h : some ([v], k) = some (us, n)) : us.length ≤ n := by
    obtain ⟨rfl, rfl⟩ := Prod.mk.inj (Option.some.inj h)
    exact hk
  have none {k : Nat} (h : some ([], k) = some (us, n)) : us.length ≤ n := by
    obtain ⟨rfl, rfl⟩ := Prod.mk.inj (Option.some.inj h)
    exact Nat.zero_le k
  unfold stringEscape at h
  split at h
  case h_1 => cases h
  case h_8 =>
    split at h
    · exact one (by simp) h
    · cases h
  case h_9 => cases h
  case h_10 =>
    obtain ⟨⟨value, length⟩, -, hpair⟩ := Option.map_eq_some_iff.1 h
    exact one (Nat.succ_pos _) (congrArg some hpair)
  case h_11 => exact none h
  case h_12 =>
    split at h
    · exact none h
    · split at h
      · exact one (Nat.succ_pos _) h
      · exact one Nat.one_pos h
  all_goals exact one Nat.one_pos h

theorem stringBody_cons (h : stringBody quote 0 (c :: text) = some (units, n)) :
    (c = quote ∧ units = [] ∧ n = 1) ∨
    (isPlain quote c = true ∧ ∃ us m, stringBody quote 0 text = some (us, m) ∧
      units = c.toNat :: us ∧ n = m + 1) ∨
    (∃ vs length us m, vs.length ≤ length ∧ stringBody quote length text = some (us, m) ∧
      units = vs ++ us ∧ n = m + 1) := by
  rw [stringBody] at h
  split at h
  · next hquote =>
      obtain ⟨rfl, rfl⟩ := Prod.mk.inj (Option.some.inj h)
      exact .inl ⟨beq_iff_eq.1 hquote, rfl, rfl⟩
  · next hquote =>
      split at h
      · cases h
      · next hline =>
          split at h
          · split at h
            · cases h
            · next vs length hescape =>
                obtain ⟨⟨us, m⟩, hrest, hpair⟩ := Option.map_eq_some_iff.1 h
                obtain ⟨rfl, rfl⟩ := Prod.mk.inj hpair
                exact .inr (.inr ⟨vs, length, us, m, stringEscape_length hescape, hrest, rfl, rfl⟩)
          · next hescape =>
              obtain ⟨⟨us, m⟩, hrest, hpair⟩ := Option.map_eq_some_iff.1 h
              obtain ⟨rfl, rfl⟩ := Prod.mk.inj hpair
              refine .inr (.inl ⟨?_, us, m, hrest, rfl, rfl⟩)
              simp_all [isPlain]

theorem stringBody_succ (h : stringBody quote (skip + 1) (c :: text) = some (units, n)) :
    ∃ m, stringBody quote skip text = some (units, m) ∧ n = m + 1 := by
  obtain ⟨⟨us, m⟩, hrest, hpair⟩ := Option.map_eq_some_iff.1 h
  obtain ⟨rfl, rfl⟩ := Prod.mk.inj hpair
  exact ⟨m, hrest, rfl⟩

theorem stringBody_length (h : stringBody quote skip text = some (units, n)) :
    units.length + skip < n := by
  induction text generalizing skip units n with
  | nil => cases skip <;> cases h
  | cons c text ih =>
      cases skip with
      | succ skip =>
          obtain ⟨m, hrest, rfl⟩ := stringBody_succ h
          have := ih hrest
          omega
      | zero =>
          rcases stringBody_cons h with ⟨-, rfl, rfl⟩ | ⟨-, us, m, hrest, rfl, rfl⟩ |
            ⟨vs, length, us, m, hle, hrest, rfl, rfl⟩
          · simp
          · have := ih hrest
            rw [List.length_cons]
            omega
          · have := ih hrest
            rw [List.length_append]
            omega

theorem exists_quote (h : stringBody quote skip text = some (units, n)) :
    ∃ body rest, text = body ++ quote :: rest ∧ body.length + 1 = n := by
  induction text generalizing skip units n with
  | nil => cases skip <;> cases h
  | cons c text ih =>
      have step {k us m} (hrest : stringBody quote k text = some (us, m)) :
          ∃ body rest, c :: text = body ++ quote :: rest ∧ body.length + 1 = m + 1 := by
        obtain ⟨body, rest, rfl, hlength⟩ := ih hrest
        exact ⟨c :: body, rest, rfl, by rw [List.length_cons, hlength]⟩
      cases skip with
      | succ skip =>
          obtain ⟨m, hrest, rfl⟩ := stringBody_succ h
          exact step hrest
      | zero =>
          rcases stringBody_cons h with ⟨rfl, -, rfl⟩ | ⟨-, us, m, hrest, -, rfl⟩ |
            ⟨vs, length, us, m, -, hrest, -, rfl⟩
          · exact ⟨[], text, rfl, rfl⟩
          · exact step hrest
          · exact step hrest

theorem plain_of_length
    (h : stringBody quote 0 (body ++ quote :: rest) = some (units, body.length + 1))
    (hlength : units.length = body.length) : body.all (isPlain quote) = true := by
  induction body generalizing units with
  | nil => rfl
  | cons c body ih =>
      rw [List.cons_append] at h
      rcases stringBody_cons h with ⟨-, rfl, -⟩ | ⟨hplain, us, m, hrest, rfl, hm⟩ |
        ⟨vs, length, us, m, hle, hrest, rfl, hm⟩
      · cases hlength
      · obtain rfl : body.length + 1 = m := Nat.succ.inj hm
        rw [List.all_cons, hplain, ih hrest (Nat.succ.inj hlength)]
        rfl
      · obtain rfl : body.length + 1 = m := Nat.succ.inj hm
        have hless := stringBody_length hrest
        rw [List.length_append, List.length_cons] at hlength
        omega

theorem joinSurrogates_length (us : List Nat) : (joinSurrogates us).length ≤ us.length := by
  fun_induction joinSurrogates us with
  | case1 u v r hpair ih =>
      simp only [List.length_cons] at ih ⊢
      omega
  | case2 u v r hpair ih =>
      simp only [List.length_cons] at ih ⊢
      omega
  | case3 => exact Nat.le_refl _

/-- A text in quotes, with nothing escaped, is read as itself if and only if its letters stand for
themselves. Behind it stands no other quote. -/
theorem read_specifier {module : List Char} (hrest : quote ∉ rest) :
    (∃ units n, stringBody quote 0 (module ++ quote :: rest) = some (units, n) ∧
      joinSurrogates units = module.map Char.toNat) ↔ module.all (isPlain quote) = true := by
  constructor
  · rintro ⟨units, n, hread, hvalue⟩
    have hmore := stringBody_length hread
    have hjoined := joinSurrogates_length units
    rw [hvalue, List.length_map] at hjoined
    obtain ⟨body, after, hsplit, rfl⟩ := exists_quote hread
    -- The closing quote is the last one, for what stands in front of an earlier one is too short.
    have hlast : body.length = module.length := by
      refine Nat.le_antisymm (Nat.le_of_not_lt fun hlt => ?_) (by omega)
      have hquote : quote ∈ (module ++ quote :: rest).drop (module.length + 1) := by
        have hdrop : quote ∈ (body ++ quote :: after).drop (module.length + 1) := by
          rw [List.drop_append_of_le_length hlt]
          simp
        rwa [← hsplit] at hdrop
      have hbehind : (module ++ quote :: rest).drop (module.length + 1) = rest := by
        rw [← List.drop_drop, List.drop_left]
        rfl
      exact hrest (hbehind ▸ hquote)
    obtain ⟨rfl, -⟩ := List.append_inj hsplit hlast.symm
    exact plain_of_length hread (by omega)
  · intro hplain
    exact ⟨_, _, stringBody_plain hplain, joinSurrogates_toNat module⟩

def points (text : String) : List Nat := text.toList.map Char.toNat

def isQuoteMark (c : Char) : Bool := c == '\x27' || c == '"'

/-- The string literals of a text; none if one of them does not end. The first argument counts
letters that belong to a literal already read. -/
def literalsFrom : Nat → List Char → Option (List (List Nat))
  | _, [] => some []
  | skip + 1, _ :: rest => literalsFrom skip rest
  | 0, c :: rest =>
      if isQuoteMark c then
        match stringBody c 0 rest with
        | none => none
        | some (units, length) => (literalsFrom length rest).map (joinSurrogates units :: ·)
      else literalsFrom 0 rest

def literals (text : String) : Option (List (List Nat)) := literalsFrom 0 text.toList

theorem literalsFrom_skip (h : skip ≤ text.length) :
    literalsFrom skip text = literalsFrom 0 (text.drop skip) := by
  induction text generalizing skip with
  | nil => cases skip <;> rfl
  | cons c text ih =>
      cases skip with
      | zero => rfl
      | succ skip => exact ih (Nat.le_of_succ_le_succ h)

def Unquoted (text : List Char) : Prop := text.all (!isQuoteMark ·) = true

theorem literalsFrom_append (h : Unquoted text) : literalsFrom 0 (text ++ rest)
    = literalsFrom 0 rest := by
  induction text with
  | nil => rfl
  | cons c text ih =>
      obtain ⟨hc, htext⟩ := Bool.and_eq_true_iff.1 (List.all_cons.symm.trans h)
      rw [List.cons_append, literalsFrom, if_neg (by simpa using hc), ih htext]

open Text

/-- Whether there is no carriage return in a text, the one letter that quoting leaves as it is and
that cannot stand in a string. -/
def isQuotable (text : String) : Bool := !text.toList.contains '\r'

theorem stringBody_escaped {e : Char} {value : Nat}
    (hescape : stringEscape (e :: rest) = some ([value], 1)) :
    stringBody '\x27' 0 ('\\' :: e :: rest)
      = (stringBody '\x27' 0 rest).map fun (us, n) => (value :: us, n + 2) := by
  simp only [stringBody, hescape]
  exact Option.map_map _ _ _

theorem stringBody_quotedLetter (c : Char) (rest : List Char) :
    stringBody '\x27' 0 (quotedLetter c ++ rest) = if c = '\r' then none
      else (stringBody '\x27' 0 rest).map fun (us, n) =>
        (c.toNat :: us, n + (quotedLetter c).length) := by
  by_cases hslash : c = '\\'
  · subst hslash
    exact stringBody_escaped rfl
  by_cases hquote : c = '\x27'
  · subst hquote
    exact stringBody_escaped rfl
  by_cases hbreak : c = '\n'
  · subst hbreak
    exact stringBody_escaped rfl
  have hletter : quotedLetter c = [c] := by simp [quotedLetter, hslash, hquote, hbreak]
  by_cases hreturn : c = '\r'
  · subst hreturn
    rfl
  · simp [hletter, stringBody, hslash, hquote, hbreak, hreturn]

theorem stringBody_quotedLetters (text rest : List Char) :
    stringBody '\x27' 0 (quotedLetters text ++ '\x27' :: rest)
      = if text.contains '\r' then none
        else some (text.map Char.toNat, (quotedLetters text).length + 1) := by
  induction text with
  | nil => rfl
  | cons c text ih =>
      unfold quotedLetters at ih ⊢
      rw [List.flatMap_cons, List.append_assoc, stringBody_quotedLetter, ih, List.contains_cons]
      by_cases hreturn : c = '\r'
      · rw [if_pos hreturn, hreturn]
        rfl
      · have hc : ('\r' == c) = false := by simpa using Ne.symm hreturn
        rw [if_neg hreturn, hc, Bool.false_or]
        split
        · rfl
        · have hlength : (text.flatMap quotedLetter).length + 1 + (quotedLetter c).length
              = (quotedLetter c ++ text.flatMap quotedLetter).length + 1 := by
            rw [List.length_append]
            omega
          rw [Option.map_some, ← hlength]
          rfl

theorem literalsFrom_quote (text : String) (rest : List Char) :
    literalsFrom 0 ((Text.quote text).toList ++ rest) = if isQuotable text
      then (literalsFrom 0 rest).map (points text :: ·) else none := by
  have hquote : (Text.quote text).toList ++ rest
      = '\x27' :: (quotedLetters text.toList ++ '\x27' :: rest) := by
    simp [Text.quote]
  rw [hquote, literalsFrom, if_pos (by decide), stringBody_quotedLetters, isQuotable]
  cases text.toList.contains '\r' with
  | true => rfl
  | false =>
      change (literalsFrom _ _).map _ = (literalsFrom 0 rest).map _
      rw [literalsFrom_skip (by simp), joinSurrogates_toNat]
      simp [points]

theorem token_quote (text : String) : token (Text.quote text).toList = if isQuotable text
    then (.string text, (Text.quote text).toList.length) else (.invalid, 0) := by
  have hquote : (Text.quote text).toList = '\x27' :: (quotedLetters text.toList ++ ['\x27']) := by
    simp [Text.quote]
  rw [hquote, token, string, stringBody_quotedLetters, isQuotable]
  cases text.toList.contains '\r' with
  | true => rfl
  | false =>
      rw [if_neg (by decide), if_pos (by decide)]
      simp [joinSurrogates_toNat, pointsText_toNat]

/-- The literals that a text adds to those behind it are quoted texts, which are all to be
quotable. -/
def Holds (text : List Char) (quoted : List String) : Prop :=
  ∀ rest, literalsFrom 0 (text ++ rest) = if quoted.all isQuotable
    then (literalsFrom 0 rest).map (quoted.map points ++ ·) else none

variable {more : List Char} {xs ys : List String}

theorem holds_of_unquoted (h : Unquoted text) : Holds text [] := by
  intro rest
  rw [literalsFrom_append h]
  simp

theorem holds_quote (text : String) : Holds (Text.quote text).toList [text] := by
  intro rest
  rw [literalsFrom_quote]
  simp

theorem Holds.append (h : Holds text xs) (h' : Holds more ys) :
    Holds (text ++ more) (xs ++ ys) := by
  intro rest
  rw [List.append_assoc, h, h', List.all_append]
  cases xs.all isQuotable with
  | false => rfl
  | true =>
      cases ys.all isQuotable with
      | false => rfl
      | true => simp [Function.comp_def]

theorem Holds.literals {text : String} (h : Holds text.toList xs) :
    literals text = if xs.all isQuotable then some (xs.map points) else none := by
  have hall := h []
  rw [List.append_nil] at hall
  rw [Scan.literals, hall]
  simp [literalsFrom]

inductive HoldEach : List String → List String → Prop
  | nil : HoldEach [] []
  | cons {text : String} {texts : List String} {xs ys : List String} :
      Holds text.toList xs → HoldEach texts ys → HoldEach (text :: texts) (xs ++ ys)

variable {texts others : List String}

theorem HoldEach.append (h : HoldEach texts xs) (h' : HoldEach others ys) :
    HoldEach (texts ++ others) (xs ++ ys) := by
  induction h with
  | nil => exact h'
  | cons htext _ ih =>
      rw [List.append_assoc]
      exact .cons htext ih

theorem holdEach_flatMap {α : Type} {as : List α} {texts quoted : α → List String}
    (h : ∀ a ∈ as, HoldEach (texts a) (quoted a)) :
    HoldEach (as.flatMap texts) (as.flatMap quoted) := by
  induction as with
  | nil => exact .nil
  | cons a as ih =>
      obtain ⟨ha, has⟩ := List.forall_mem_cons.1 h
      exact ha.append (ih has)

theorem HoldEach.single {text : String} (h : Holds text.toList xs) : HoldEach [text] xs := by
  simpa using HoldEach.cons h .nil

theorem holdEach_map {α : Type} {as : List α} {text : α → String} {quoted : α → List String}
    (h : ∀ a ∈ as, Holds (text a).toList (quoted a)) :
    HoldEach (as.map text) (as.flatMap quoted) := by
  have heach := holdEach_flatMap fun a ha => HoldEach.single (h a ha)
  rwa [← List.map_eq_flatMap] at heach

theorem holdEach_of_unquoted (h : ∀ text ∈ texts, Unquoted text.toList) : HoldEach texts [] := by
  induction texts with
  | nil => exact .nil
  | cons text texts ih =>
      obtain ⟨htext, htexts⟩ := List.forall_mem_cons.1 h
      exact .cons (holds_of_unquoted htext) (ih htexts)

theorem HoldEach.intercalate (h : HoldEach texts xs) (separator : String)
    (hseparator : Unquoted separator.toList) :
    Holds (String.intercalate separator texts).toList xs := by
  rw [String.toList_intercalate]
  induction h with
  | nil => exact holds_of_unquoted rfl
  | @cons text texts xs ys htext hrest ih =>
      cases hrest with
      | nil => simpa using htext
      | cons hnext hmore =>
          rw [List.map_cons, List.map_cons, List.intercalate_cons_cons]
          simpa using (htext.append (holds_of_unquoted hseparator)).append ih

end Scan

end ElementBridge
