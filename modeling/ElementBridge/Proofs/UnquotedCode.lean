import ElementBridge.Proofs.ParameterNames
import ElementBridge.Proofs.QuotedText
import ElementBridge.Proofs.TopLevelNames

namespace ElementBridge

open Scan Text

namespace Scan

variable {a b : List Char}

@[simp]
theorem unquoted_nil : Unquoted [] := rfl

@[simp]
theorem unquoted_cons {c : Char} : Unquoted (c :: a) ↔ (c ≠ '\x27' ∧ c ≠ '"') ∧ Unquoted a := by
  simp [Unquoted, isQuoteMark]

@[simp]
theorem unquoted_append : Unquoted (a ++ b) ↔ Unquoted a ∧ Unquoted b := by
  rw [Unquoted, List.all_append, Bool.and_eq_true, Unquoted, Unquoted]

theorem unquoted_iff : Unquoted a ↔ ∀ c ∈ a, c ≠ '\x27' ∧ c ≠ '"' := by
  simp [Unquoted, isQuoteMark]

theorem unquoted_of_name (h : a.all ClosureType.isNameLetter = true) : Unquoted a := by
  refine unquoted_iff.2 fun c hc => ?_
  have hletter := List.all_eq_true.1 h c hc
  constructor <;> exact fun heq => absurd (heq ▸ hletter) (by decide)

theorem unquoted_of_isIdentifier {name : String} (h : isIdentifier name = true) :
    Unquoted name.toList :=
  unquoted_of_name (Word.all_isNameLetter ⟨name, h⟩)

theorem unquoted_intercalate {separator : List Char} (hseparator : Unquoted separator)
    {texts : List (List Char)} (h : ∀ text ∈ texts, Unquoted text) :
    Unquoted (separator.intercalate texts) :=
  of_intercalate unquoted_nil (fun ha hb => unquoted_append.2 ⟨ha, hb⟩) hseparator h

theorem unquoted_joined {separator : String} (hseparator : Unquoted separator.toList)
    {texts : List String} (h : ∀ text ∈ texts, Unquoted text.toList) :
    Unquoted (String.intercalate separator texts).toList := by
  rw [String.toList_intercalate]
  exact unquoted_intercalate hseparator (List.forall_mem_map.2 h)

theorem composes_unquoted : ClosureType.Composes Unquoted where
  nil := rfl
  append ha hb := unquoted_append.2 ⟨ha, hb⟩
  name := unquoted_of_name
  mark {c} hc := by
    have hmarks : ∀ c ∈ ['*', '!', '?', ':', ' '], Unquoted [c] := by simp [Unquoted, isQuoteMark]
    exact hmarks c hc
  bracket {o c separator texts} hkind h := by
    have hmarks : ∀ kind ∈ [('(', ')', ['|']), ('(', ')', [',', ' ']), ('<', '>', [',', ' ']),
        ('\x7b', '\x7d', [',', ' '])], Unquoted [kind.1] ∧ Unquoted [kind.2.1] ∧
          Unquoted kind.2.2 := by
      simp [Unquoted, isQuoteMark]
    obtain ⟨ho, hc, hseparator⟩ := hmarks _ hkind
    have hinside := unquoted_intercalate hseparator h
    exact unquoted_append.2 ⟨ho, unquoted_append.2 ⟨hinside, hc⟩⟩

variable {text : String} {xs : List String}

theorem Holds.inside (h : Holds text.toList xs) (before after : String)
    (hbefore : Unquoted before.toList) (hafter : Unquoted after.toList) :
    Holds (before ++ text ++ after).toList xs := by
  rw [String.toList_append, String.toList_append]
  simpa using ((holds_of_unquoted hbefore).append h).append (holds_of_unquoted hafter)

theorem unquoted_capitalize {name : String} (h : Unquoted name.toList) :
    Unquoted (capitalize name).toList := by
  unfold capitalize
  split
  · rfl
  · next c rest heq =>
      rw [heq, unquoted_cons] at h
      rw [String.toList_ofList, unquoted_append]
      refine ⟨unquoted_iff.2 fun d hd => ?_, h.2⟩
      rcases mem_capital hd with rfl | ⟨n, hn, rfl⟩
      · exact h.1
      · have hcode := toNat_ofNat n
        -- The marks have codes below that of `A`, and the code of a letter that is none is zero.
        have hne {mark : Char} (hmark : 0 < mark.toNat ∧ mark.toNat < 65) :
            Char.ofNat n ≠ mark := by
          rintro rfl
          omega
        exact ⟨hne (by decide), hne (by decide)⟩

end Scan

theorem Name.unquoted (name : Name) : Unquoted name.text.toList :=
  unquoted_of_isIdentifier name.word.isIdentifier

namespace Surface

variable {s : Surface} (globals : List String)

theorem unquoted_closureType (hs : ∃ name : Name, s.component.name = name.text) {t : TypeExpr}
    (ht : t.WellNamed) : Unquoted (s.closureType globals t).toList :=
  composes_closureType composes_unquoted hs ht

theorem unquoted_orUndefined {text : String} (h : Unquoted text.toList) :
    Unquoted (ClosureType.orUndefined text).toList := by
  simp [ClosureType.orUndefined, h]

theorem unquoted_fieldType (hs : ∃ name : Name, s.component.name = name.text) {f : Field}
    (hf : f.type.WellNamed) : Unquoted (s.fieldType globals f).toList := by
  have htype := unquoted_closureType globals hs hf
  unfold fieldType
  cases f.optional with
  | false => exact htype
  | true => exact unquoted_orUndefined htype

theorem unquoted_paramType (hs : ∃ name : Name, s.component.name = name.text) {p : Param}
    (hp : p.type.WellNamed) : Unquoted (s.paramType globals p).toList := by
  have htype := unquoted_closureType globals hs hp
  unfold paramType
  dsimp only
  split
  · exact htype
  · split
    · simp [htype]
    · simp [unquoted_orUndefined htype]

end Surface

namespace Bridge

variable {s : Surface} (globals : List String) {d : Interface} {m : Member}

theorem unquoted_paramTag {type name : String} (htype : Unquoted type.toList)
    (hname : Unquoted name.toList) : Unquoted (paramTag type name).toList := by
  simp [paramTag, ClosureType.braces, htype, hname]

theorem unquoted_returnTag {type : String} (htype : Unquoted type.toList) :
    Unquoted (returnTag type).toList := by
  simp [returnTag, ClosureType.braces, htype]

theorem unquoted_paramTags (hs : ∃ name : Name, s.component.name = name.text) {params : List Param}
    (hnames : AreNamed params) (htypes : ∀ p ∈ params, p.type.WellNamed) :
    ∀ tag ∈ paramTags s globals params, Unquoted tag.toList :=
  List.forall_mem_map.2 fun p hp =>
    unquoted_paramTag (Surface.unquoted_paramType globals hs (htypes p hp))
      (unquoted_of_isIdentifier (hnames p hp))

theorem unquoted_paramNames {params : List Param} (h : AreNamed params) :
    Unquoted (paramNames params).toList := by
  refine unquoted_joined (by simp) (List.forall_mem_map.2 fun p hp => ?_)
  exact unquoted_of_isIdentifier (h p hp)

theorem unquoted_docBlock {tags : List String} (h : ∀ tag ∈ tags, Unquoted tag.toList) :
    ∀ line ∈ docBlock tags, Unquoted line.toList := by
  unfold docBlock
  split
  · exact fun line hline => absurd hline List.not_mem_nil
  · intro line hline
    simp only [List.mem_append, List.mem_cons, List.mem_map, List.not_mem_nil, or_false] at hline
    rcases hline with (rfl | ⟨tag, htag, rfl⟩) | rfl
    · simp
    · simp [h tag htag]
    · simp

theorem unquoted_typedef (hs : s.Has TypeExpr.WellNamed) (hd : d ∈ s.interfaces) :
    ∀ line ∈ typedef s globals d, Unquoted line.toList := by
  obtain ⟨⟨name, hname⟩, hshape⟩ := hs.interfaces d hd
  have hbody : ∀ line ∈ typedefBody s globals d, Unquoted line.toList := by
    unfold typedefBody
    split
    · intro line hline
      simp only [List.mem_append, List.mem_cons, List.mem_map, List.not_mem_nil, or_false] at hline
      rcases hline with (rfl | ⟨f, hf, rfl⟩) | rfl
      · simp
      · obtain ⟨hkey, htype⟩ := hs.flatten hd hf
        have hletters := unquoted_of_name (all_isNameLetter_of_isBareKey hkey)
        simp [hletters, Surface.unquoted_fieldType globals hs.component htype]
      · simp
    · next t htype =>
        rw [htype] at hshape
        refine List.forall_mem_singleton.2 ?_
        have htext := Surface.unquoted_closureType globals hs.component hshape
        simp [ClosureType.braces, htext]
  intro line hline
  simp only [typedef, List.mem_cons, List.mem_append, List.not_mem_nil, or_false] at hline
  rcases hline with (rfl | hline) | rfl | rfl | rfl
  · simp
  · exact hbody line hline
  · simp
  · simp
  · simp [hname, name.unquoted]

theorem unquoted_resultTags (hs : ∃ name : Name, s.component.name = name.text)
    {result : Option TypeExpr} (h : ∀ t, result = some t → t.WellNamed) :
    ∀ tag ∈ resultTags s globals result, Unquoted tag.toList := by
  unfold resultTags
  split
  · exact fun tag htag => absurd htag List.not_mem_nil
  · next t =>
      split
      · exact fun tag htag => absurd htag List.not_mem_nil
      · exact List.forall_mem_singleton.2
          (unquoted_returnTag (Surface.unquoted_closureType globals hs (h t rfl)))

theorem unquoted_accessorType (hs : ∃ name : Name, s.component.name = name.text)
    (hm : m.Has TypeExpr.WellNamed) : Unquoted (accessorType s globals m).toList := by
  have htype : Unquoted ((m.valueType.map (s.closureType globals)).getD "*").toList := by
    cases hvalue : m.valueType with
    | none => simp
    | some t => exact Surface.unquoted_closureType globals hs (hm.valueType hvalue)
  unfold accessorType
  dsimp only
  split
  · exact Surface.unquoted_orUndefined htype
  · exact htype

theorem unquoted_setterParam (h : AreNamed m.params) : Unquoted (setterParam m).toList := by
  unfold setterParam
  split
  · next p rest hkind hparams =>
      exact unquoted_of_isIdentifier (h p (by rw [hparams]; exact List.mem_cons_self))
  · simp

theorem unquoted_facadeName (hs : ∃ name : Name, s.component.name = name.text) :
    Unquoted s.component.facadeName.toList := by
  obtain ⟨name, hname⟩ := hs
  simp [Component.facadeName, hname, name.unquoted]

theorem unquoted_creatorName (hs : ∃ name : Name, s.component.name = name.text) :
    Unquoted (creatorName s.component).toList := by
  obtain ⟨name, hname⟩ := hs
  simp [creatorName, hname, unquoted_capitalize name.unquoted]

end Bridge

end ElementBridge
