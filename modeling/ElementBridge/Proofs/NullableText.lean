import Mathlib.Logic.Basic
import ElementBridge.Proofs.PrintedText

namespace ElementBridge.ClosureType

/-- A mark decides about null, whatever the name behind it stands for. -/
inductive AdmitsNull : List Char → Prop where
  | any : AdmitsNull "*".toList
  | null : AdmitsNull "null".toList
  | nullable (text : List Char) : AdmitsNull ('?' :: text)
  | union {inside alternative : List Char} : alternative ∈ alternatives 0 inside →
      AdmitsNull alternative → AdmitsNull ('(' :: (inside ++ [')']))

variable {text : List Char}

theorem admitsNull_iff : AdmitsNull text ↔ text = "*".toList ∨ text = "null".toList ∨
    (∃ rest, text = '?' :: rest) ∨ ∃ inside, text = '(' :: (inside ++ [')']) ∧
      ∃ alternative ∈ alternatives 0 inside, AdmitsNull alternative := by
  constructor
  · intro h
    cases h with
    | any => exact .inl rfl
    | null => exact .inr (.inl rfl)
    | nullable rest => exact .inr (.inr (.inl ⟨rest, rfl⟩))
    | union hmem halternative => exact .inr (.inr (.inr ⟨_, rfl, _, hmem, halternative⟩))
  · rintro (rfl | rfl | ⟨rest, rfl⟩ | ⟨inside, rfl, alternative, hmem, halternative⟩)
    · exact .any
    · exact .null
    · exact .nullable rest
    · exact .union hmem halternative

theorem toList_star : "*".toList = ['*'] := rfl

theorem toList_null : "null".toList = ['n', 'u', 'l', 'l'] := rfl

theorem not_admitsNull_cons {c : Char} (h : c ∉ ['*', 'n', '?', '(']) (rest : List Char) :
    ¬ AdmitsNull (c :: rest) := by
  simp only [List.mem_cons, List.not_mem_nil, or_false, not_or] at h
  obtain ⟨hstar, hn, hmark, hparen⟩ := h
  rw [admitsNull_iff, toList_star, toList_null]
  rintro (heq | heq | ⟨_, heq⟩ | ⟨_, heq, -⟩)
  · exact hstar (List.cons.inj heq).1
  · exact hn (List.cons.inj heq).1
  · exact hmark (List.cons.inj heq).1
  · exact hparen (List.cons.inj heq).1

theorem not_admitsNull_nil : ¬ AdmitsNull [] := by
  rw [admitsNull_iff, toList_star, toList_null]
  simp

theorem admitsNull_name (h : text.all isNameLetter = true) :
    AdmitsNull text ↔ text = "null".toList := by
  refine ⟨fun hnull => ?_, fun hnull => hnull ▸ .null⟩
  have hletter {c : Char} (hc : c ∈ text) : isNameLetter c = true := List.all_eq_true.1 h c hc
  rcases admitsNull_iff.1 hnull with rfl | hnull | ⟨rest, rfl⟩ | ⟨inside, rfl, -⟩
  · exact absurd h (by decide)
  · exact hnull
  · exact absurd (hletter List.mem_cons_self) (by decide)
  · exact absurd (hletter List.mem_cons_self) (by decide)

theorem admitsNull_parentheses {texts : List (List Char)} (h : ∀ t ∈ texts, Sealed t) :
    AdmitsNull ('(' :: (['|'].intercalate texts ++ [')'])) ↔ ∃ t ∈ texts, AdmitsNull t := by
  constructor
  · intro hnull
    rw [admitsNull_iff, toList_star, toList_null] at hnull
    rcases hnull with heq | heq | ⟨rest, heq⟩ | ⟨inside, heq, t, ht, hnull⟩
    · exact absurd (List.cons.inj heq).1 (by decide)
    · exact absurd (List.cons.inj heq).1 (by decide)
    · exact absurd (List.cons.inj heq).1 (by decide)
    · obtain rfl := List.append_cancel_right (List.cons.inj heq).2
      cases texts with
      | nil =>
          obtain rfl : t = [] := by simpa [alternatives] using ht
          exact absurd hnull not_admitsNull_nil
      | cons first rest =>
          rw [alternatives_intercalate (List.cons_ne_nil _ _) h] at ht
          exact ⟨t, ht, hnull⟩
  · rintro ⟨t, ht, hnull⟩
    refine .union ?_ hnull
    rwa [alternatives_intercalate (List.ne_nil_of_mem ht) h]

theorem admitsNull_union {texts : List String} (h : ∀ t ∈ texts, Sealed t.toList) :
    AdmitsNull (union texts).toList ↔ ∃ t ∈ texts, AdmitsNull t.toList := by
  have hmem (t : String) : t ∈ texts ↔ t ∈ texts.eraseDups := List.mem_eraseDups.symm
  simp only [hmem] at h ⊢
  unfold union
  generalize texts.eraseDups = distinct at h
  have hjoined : AdmitsNull ("(" ++ String.intercalate "|" distinct ++ ")").toList
      ↔ ∃ t ∈ distinct, AdmitsNull t.toList := by
    have htexts : ∀ t ∈ distinct.map String.toList, Sealed t := by simpa using h
    have hparts := admitsNull_parentheses htexts
    simpa [String.toList_intercalate] using hparts
  simp only
  split
  · next hstar => exact iff_of_true .any ⟨"*", by simpa using hstar, .any⟩
  · rcases distinct with - | ⟨t, - | ⟨u, rest⟩⟩
    · exact hjoined
    · simp
    · exact hjoined

theorem admitsNull_nullable (t : String) : AdmitsNull (nullable t).toList := by
  unfold nullable
  split
  · next hstar => exact (beq_iff_eq.1 hstar) ▸ .any
  · simpa using AdmitsNull.nullable _

theorem admitsNull_orUndefined {t : String} (h : Sealed t.toList) :
    AdmitsNull (orUndefined t).toList ↔ AdmitsNull t.toList := by
  have hname : "undefined".toList.all isNameLetter = true := by decide
  have hundefined : ¬ AdmitsNull "undefined".toList := by
    rw [admitsNull_name hname]
    decide
  have hparts : ∀ text ∈ [t.toList, "undefined".toList], Sealed text :=
    List.forall_mem_cons.2 ⟨h, List.forall_mem_cons.2
      ⟨sealed_of_name hname, fun text htext => absurd htext List.not_mem_nil⟩⟩
  have htext : (orUndefined t).toList
      = '(' :: (['|'].intercalate [t.toList, "undefined".toList] ++ [')']) := by
    simp [orUndefined, List.intercalate_cons_cons]
  rw [htext, admitsNull_parentheses hparts]
  constructor
  · rintro ⟨text, hmem, hnull⟩
    rcases List.mem_cons.1 hmem with rfl | hmem
    · exact hnull
    · exact absurd (List.mem_singleton.1 hmem ▸ hnull) hundefined
  · exact fun hnull => ⟨_, List.mem_cons_self, hnull⟩

end ElementBridge.ClosureType
