import ElementBridge.Proofs.EmittedTypes

namespace ElementBridge

namespace ClosureType

variable {t : String} {texts : List String} {name : List Char}

theorem typeNames_snoc {c : Char} (hc : isNameLetter c = false ∧ c ≠ ':' ∧ c ≠ '(')
    (text : List Char) : typeNames (text ++ [c]) = typeNames text := by
  rw [typeNames_then hc]
  exact List.append_nil _

theorem typeNames_commas (texts : List String) :
    typeNames (commas texts).toList = texts.flatMap (typeNames ·.toList) := by
  have hcomma : ", ".toList = [',', ' '] := by simp
  rw [commas, String.toList_intercalate, hcomma, typeNames_intercalate (by decide) (by decide),
    List.flatMap_map]

theorem typeNames_generic (base : String) (args : List String) :
    typeNames (generic base args).toList = typeNames base.toList ++ typeNames (commas args).toList := by
  unfold generic
  split
  · next hnone =>
      rw [List.isEmpty_iff.1 hnone]
      exact (List.append_nil _).symm
  · have htext : (base ++ "<" ++ commas args ++ ">").toList
        = base.toList ++ '<' :: ((commas args).toList ++ ['>']) := by simp
    rw [htext, typeNames_then (by decide), typeNames_snoc (by decide)]

theorem typeNames_dropBang (text : List Char) :
    typeNames (text.dropWhile (· == '!')) = typeNames text := by
  induction text with
  | nil => rfl
  | cons c text ih =>
      by_cases hc : c = '!'
      · rw [hc, typeNames_cons (by decide)]
        exact ih
      · rw [List.dropWhile_cons_of_neg (by simpa using hc)]

theorem typeNames_nullable (t : String) : typeNames (nullable t).toList = typeNames t.toList := by
  unfold nullable
  split
  · rfl
  · have htext : ("?" ++ String.ofList (t.toList.dropWhile (· == '!'))).toList
        = '?' :: t.toList.dropWhile (· == '!') := by simp
    rw [htext, typeNames_cons (by decide), typeNames_dropBang]

theorem typeNames_orUndefined (t : String) :
    typeNames (orUndefined t).toList = typeNames t.toList ++ ["undefined".toList] := by
  have htext : (orUndefined t).toList = '(' :: (t.toList ++ '|' :: ("undefined".toList ++ [')'])) := by
    simp [orUndefined]
  have hname : typeNames "undefined".toList = ["undefined".toList] :=
    typeNames_name (by simp) (by decide)
  rw [htext, typeNames_cons (by decide), typeNames_then (by decide), typeNames_snoc (by decide),
    hname]

theorem union_eq_any : union texts = "*" ↔ "*" ∈ texts := by
  unfold union
  constructor
  · intro h
    by_contra hnone
    have hcontains : texts.eraseDups.contains "*" = false := by simpa using hnone
    simp only [hcontains, Bool.false_eq_true, if_false] at h
    split at h
    · next u hone =>
        have hu : u ∈ texts.eraseDups := by simp [hone]
        exact hnone (h ▸ List.mem_eraseDups.1 hu)
    · simpa using congrArg (·.toList.head?) h
  · intro h
    have hcontains : texts.eraseDups.contains "*" = true := by simpa using h
    simp only [hcontains, if_true]

theorem nullable_eq_any : nullable t = "*" ↔ t = "*" := by
  unfold nullable
  split
  · exact Iff.rfl
  · next hne =>
      constructor
      · intro h
        simpa using congrArg (·.toList.head?) h
      · intro h
        exact absurd h (by simpa using hne)

theorem mem_typeNames_union (h : union texts ≠ "*") (ht : t ∈ texts)
    (hname : name ∈ typeNames t.toList) : name ∈ typeNames (union texts).toList := by
  have hcontains : texts.eraseDups.contains "*" = false := by
    simpa using mt union_eq_any.2 h
  have hdistinct : t ∈ texts.eraseDups := List.mem_eraseDups.2 ht
  unfold union
  simp only [hcontains, Bool.false_eq_true, if_false]
  split
  · next u hone =>
      rw [hone, List.mem_singleton] at hdistinct
      rwa [← hdistinct]
  · have htext (ts : List String) : ("(" ++ String.intercalate "|" ts ++ ")").toList
        = '(' :: (['|'].intercalate (ts.map String.toList) ++ [')']) := by
      simp [String.toList_intercalate]
    rw [htext, typeNames_cons (by decide), typeNames_snoc (by decide),
      typeNames_intercalate (by decide) (by decide), List.flatMap_map]
    exact List.mem_flatMap.2 ⟨t, hdistinct, hname⟩

end ClosureType

namespace Surface

open ClosureType

variable {s : Surface} {globals : List String} {t : TypeExpr} {ts : List TypeExpr} {name : String}

theorem closureType_union_eq_any :
    s.closureType globals (.union ts) = "*" ↔ ∃ t ∈ ts, s.closureType globals t = "*" := by
  rw [closureType]
  split
  · next u _ hone =>
      rw [closureTypesButNull_eq] at hone
      rw [nullable_eq_any]
      constructor
      · rintro rfl
        have hmem : "*" ∈ (ts.filter (!·.isNull)).map (s.closureType globals) := by simp [hone]
        obtain ⟨t, ht, htext⟩ := List.mem_map.1 hmem
        exact ⟨t, List.mem_of_mem_filter ht, htext⟩
      · rintro ⟨t, ht, htext⟩
        have hnull : (!t.isNull) = true := by
          rw [Bool.not_eq_true', ← Bool.not_eq_true]
          intro hnull
          rw [TypeExpr.eq_null_of_isNull hnull] at htext
          exact absurd htext (by simp [closureType, Primitive.closureType])
        have hmem : s.closureType globals t ∈ (ts.filter (!·.isNull)).map (s.closureType globals) :=
          List.mem_map_of_mem (List.mem_filter.2 ⟨ht, hnull⟩)
        rw [hone, List.mem_singleton] at hmem
        exact hmem.symm.trans htext
  · rw [union_eq_any, closureTypes_eq_map]
    exact List.mem_map

theorem mem_typeNames_reference (hs : ∃ name : Name, s.component.name = name.text)
    {n : DottedName} (h : name ∈ s.shownName globals n.text) :
    name.toList ∈ typeNames (s.nameType globals n.text).toList := by
  have bang {text : List Char} (hne : text ≠ []) (hall : text.all isNameLetter = true) :
      typeNames ('!' :: text) = [text] := by
    rw [typeNames_cons (by decide), typeNames_name hne hall]
  rcases s.nameType_cases globals n.text with
    ⟨mark, hmark, hprinted, hnames⟩ | ⟨hprinted, hnames⟩ | ⟨p, -, hnames⟩
  · rw [hnames, List.mem_singleton] at h
    subst h
    rw [hprinted]
    rcases hmark with rfl | rfl
    · simp [typeNames_name n.toList_ne_nil n.all_isNameLetter]
    · simp [bang n.toList_ne_nil n.all_isNameLetter]
  · rw [hnames, List.mem_singleton] at h
    have hne : s.component.facadeName.toList ≠ [] := by simp [Component.facadeName]
    subst h
    rw [hprinted]
    simp [bang hne (facadeName_isName hs)]
  · rw [hnames] at h
    exact absurd h List.not_mem_nil

theorem IsPrinted.mem_typeNames {text : String} {name : List Char}
    (hp : s.IsPrinted globals t text) (h : name ∈ typeNames (s.closureType globals t).toList) :
    name ∈ typeNames text.toList := by
  rcases hp with rfl | rfl
  · exact h
  · rw [typeNames_orUndefined]
    exact List.mem_append_left _ h

theorem typeNames_array (t : TypeExpr) : typeNames (s.closureType globals (.array t)).toList
    = typeNames "Array".toList ++ typeNames (s.closureType globals t).toList := by
  have htext : (s.closureType globals (.array t)).toList
      = '!' :: ("Array".toList ++ '<' :: ((s.closureType globals t).toList ++ ['>'])) := by
    simp [closureType]
  rw [htext, typeNames_cons (by decide), typeNames_then (by decide), typeNames_snoc (by decide)]

theorem typeNames_function (params : List TypeExpr) (result : TypeExpr) :
    typeNames (s.closureType globals (.function params result)).toList
      = typeNames (commas (s.closureTypes globals params)).toList
        ++ typeNames (s.closureType globals result).toList := by
  have htext : (s.closureType globals (.function params result)).toList
      = "function".toList ++ '(' :: ((commas (s.closureTypes globals params)).toList
        ++ ')' :: (':' :: ' ' :: (s.closureType globals result).toList)) := by
    simp [closureType]
  rw [htext, typeNames_label (by decide) (.inr rfl), typeNames_then (by decide),
    typeNames_cons (by decide), typeNames_cons (by decide)]

theorem typeNames_record {fields : List Field}
    (hnames : ∀ f ∈ fields, Text.isBareKey f.name = true) :
    typeNames (s.closureType globals (.record fields)).toList
      = fields.flatMap fun f => typeNames (s.fieldType globals f).toList := by
  have htext : (s.closureType globals (.record fields)).toList
      = '\x7b' :: ((commas (s.fieldTypes globals fields)).toList ++ ['\x7d']) := by
    simp [closureType, braces]
  rw [htext, typeNames_cons (by decide), typeNames_snoc (by decide), typeNames_commas,
    fieldTypes_eq_map, List.flatMap_map]
  refine List.flatMap_congr fun f hf => ?_
  have hfield : (f.name ++ ": " ++ s.fieldType globals f).toList
      = f.name.toList ++ ':' :: (' ' :: (s.fieldType globals f).toList) := by simp
  rw [hfield, typeNames_label (Text.all_isNameLetter_of_isBareKey (hnames f hf)) (.inl rfl),
    typeNames_cons (by decide)]

theorem mem_typeNames_member (hany : s.closureType globals (.union ts) ≠ "*") (ht : t ∈ ts)
    (h : name ∈ s.shown globals t)
    (hname : name.toList ∈ typeNames (s.closureType globals t).toList) :
    name.toList ∈ typeNames (s.closureType globals (.union ts)).toList := by
  rw [closureType] at hany ⊢
  split at hany
  · next u hnull hone =>
      -- null shows nothing, so the name is in the one member beside it
      have hother : (!t.isNull) = true := by
        rw [Bool.not_eq_true', ← Bool.not_eq_true]
        intro hnull
        rw [TypeExpr.eq_null_of_isNull hnull] at h
        exact absurd h List.not_mem_nil
      have hmem : s.closureType globals t ∈ s.closureTypesButNull globals ts := by
        rw [closureTypesButNull_eq]
        exact List.mem_map_of_mem (List.mem_filter.2 ⟨ht, hother⟩)
      rw [hone, List.mem_singleton] at hmem
      rwa [typeNames_nullable, ← hmem]
  · refine mem_typeNames_union hany ?_ hname
    rw [closureTypes_eq_map]
    exact List.mem_map_of_mem ht

theorem mem_typeNames_of_shown (hs : ∃ name : Name, s.component.name = name.text)
    (ht : t.WellNamed) (h : name ∈ s.shown globals t) :
    name.toList ∈ typeNames (s.closureType globals t).toList := by
  have inList {ts : List TypeExpr}
      (ih : ∀ t ∈ ts, name ∈ s.shown globals t →
        name.toList ∈ typeNames (s.closureType globals t).toList)
      (h : name ∈ s.shownAll globals ts) :
      name.toList ∈ typeNames (commas (s.closureTypes globals ts)).toList := by
    rw [shownAll_eq_flatMap] at h
    obtain ⟨t, ht, h⟩ := List.mem_flatMap.1 h
    rw [typeNames_commas, closureTypes_eq_map, List.flatMap_map]
    exact List.mem_flatMap.2 ⟨t, ht, ih t ht h⟩
  induction ht with
  | primitive p => exact absurd h List.not_mem_nil
  | reference n _ ih =>
      rw [shown, List.mem_append] at h
      rw [closureType, typeNames_generic, List.mem_append]
      exact h.imp (mem_typeNames_reference hs) (inList ih)
  | array _ ih =>
      rw [typeNames_array]
      exact List.mem_append_right _ (ih h)
  | union _ ih =>
      rw [shown] at h
      split at h
      · exact absurd h List.not_mem_nil
      · next hany =>
          rw [shownAll_eq_flatMap] at h
          obtain ⟨t, ht, h⟩ := List.mem_flatMap.1 h
          exact mem_typeNames_member hany ht h (ih t ht h)
  | function _ _ ih ih' =>
      rw [shown, List.mem_append] at h
      rw [typeNames_function, List.mem_append]
      exact h.imp (inList ih) ih'
  | record hnames _ ih =>
      rw [shown, shownFields_eq_flatMap] at h
      obtain ⟨f, hf, h⟩ := List.mem_flatMap.1 h
      rw [typeNames_record hnames]
      exact List.mem_flatMap.2 ⟨f, hf, (isPrinted_fieldType f).mem_typeNames (ih f hf h)⟩

theorem exists_union_of_not_shown (ht : t.WellNamed) {n : String} (hn : n ∈ t.references)
    (hname : name ∈ s.shownName globals n) (h : name ∉ s.shown globals t) :
    ∃ ts u, TypeExpr.IsPart (.union ts) t ∧ n ∈ TypeExpr.referencesAll ts ∧ u ∈ ts ∧
      s.closureType globals u = "*" := by
  have inAll {ts : List TypeExpr} (hn : n ∈ TypeExpr.referencesAll ts)
      (h : name ∉ s.shownAll globals ts) :
      ∃ t ∈ ts, n ∈ t.references ∧ name ∉ s.shown globals t := by
    rw [TypeExpr.referencesAll_eq_flatMap] at hn
    obtain ⟨t, ht, hn⟩ := List.mem_flatMap.1 hn
    rw [shownAll_eq_flatMap] at h
    exact ⟨t, ht, hn, fun hshown => h (List.mem_flatMap.2 ⟨t, ht, hshown⟩)⟩
  induction ht with
  | primitive p => exact absurd hn List.not_mem_nil
  | reference m _ ih =>
      rw [TypeExpr.references] at hn
      rw [shown, List.mem_append, not_or] at h
      rcases List.mem_cons.1 hn with rfl | hn
      · exact absurd hname h.1
      · obtain ⟨t, ht, hn, h⟩ := inAll hn h.2
        obtain ⟨ts, u, hpart, hrest⟩ := ih t ht hn h
        exact ⟨ts, u, .argument ht hpart, hrest⟩
  | array _ ih =>
      obtain ⟨ts, u, hpart, hrest⟩ := ih hn h
      exact ⟨ts, u, .element hpart, hrest⟩
  | @union members _ ih =>
      rw [shown] at h
      split at h
      · next hany =>
          obtain ⟨u, hu, hany⟩ := closureType_union_eq_any.1 hany
          exact ⟨members, u, .self, hn, hu, hany⟩
      · obtain ⟨t, ht, hn, h⟩ := inAll hn h
        obtain ⟨ts, u, hpart, hrest⟩ := ih t ht hn h
        exact ⟨ts, u, .member ht hpart, hrest⟩
  | function _ _ ih ih' =>
      rw [TypeExpr.references] at hn
      rw [shown, List.mem_append, not_or] at h
      rcases List.mem_append.1 hn with hn | hn
      · obtain ⟨t, ht, hn, h⟩ := inAll hn h.1
        obtain ⟨ts, u, hpart, hrest⟩ := ih t ht hn h
        exact ⟨ts, u, .parameter ht hpart, hrest⟩
      · obtain ⟨ts, u, hpart, hrest⟩ := ih' hn h.2
        exact ⟨ts, u, .result hpart, hrest⟩
  | record _ _ ih =>
      rw [TypeExpr.references, TypeExpr.referencesFields_eq_flatMap] at hn
      obtain ⟨f, hf, hn⟩ := List.mem_flatMap.1 hn
      rw [shown, shownFields_eq_flatMap] at h
      have hfield : name ∉ s.shown globals f.type := fun hshown =>
        h (List.mem_flatMap.2 ⟨f, hf, hshown⟩)
      obtain ⟨ts, u, hpart, hrest⟩ := ih f hf hn hfield
      exact ⟨ts, u, .field hf hpart, hrest⟩

end Surface

end ElementBridge
