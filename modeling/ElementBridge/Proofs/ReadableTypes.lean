import ElementBridge.Proofs.TypeReader

namespace ElementBridge

namespace ClosureType

def closing? : Char → Option Char
  | '(' => some ')'
  | '<' => some '>'
  | '\x7b' => some '\x7d'
  | _ => none

/-- The brackets that are awaited behind a text, those that were awaited before it among them. -/
def awaited : List Char → List Char → Option (List Char)
  | stack, [] => some stack
  | stack, c :: rest =>
      match closing? c with
      | some d => awaited (d :: stack) rest
      | none =>
          if closes c then
            match stack with
            | d :: stack => if c = d then awaited stack rest else none
            | [] => none
          else awaited stack rest

def Matched (text : List Char) : Prop := awaited [] text = some []

def Settles (text : List Char) : Prop :=
  ∀ stack rest, awaited stack (text ++ rest) = awaited stack rest

theorem Settles.matched {text : List Char} (h : Settles text) : Matched text := by
  have hread := h [] []
  rwa [List.append_nil] at hread

theorem Settles.append {a b : List Char} (ha : Settles a) (hb : Settles b) : Settles (a ++ b) := by
  intro stack rest
  rw [List.append_assoc, ha, hb]

def isNoBracket (c : Char) : Bool := (closing? c).isNone && !closes c

theorem settles_of_noBrackets {text : List Char} (h : text.all isNoBracket = true) :
    Settles text := by
  intro stack rest
  induction text with
  | nil => rfl
  | cons c text ih =>
      rw [List.all_cons, Bool.and_eq_true] at h
      obtain ⟨hc, htext⟩ := h
      rw [isNoBracket, Bool.and_eq_true, Option.isNone_iff_eq_none, Bool.not_eq_true'] at hc
      simp only [List.cons_append, awaited, hc, Bool.false_eq_true, if_false]
      exact ih htext

theorem Settles.bracket {o c : Char} (ho : closing? o = some c)
    (hc : closing? c = none ∧ closes c = true) {text : List Char} (h : Settles text) :
    Settles (o :: (text ++ [c])) := by
  intro stack rest
  simp only [List.cons_append, awaited, ho, List.append_assoc, h (c :: stack),
    List.nil_append, hc.1, hc.2, if_true]

theorem isNoBracket_of_isNameLetter {c : Char} (h : isNameLetter c = true) :
    isNoBracket c = true := by
  have hquiet := isQuiet_of_isNameLetter h
  simp only [isQuiet, opens, Bool.and_eq_true, Bool.not_eq_true', Bool.or_eq_false_iff,
    beq_eq_false_iff_ne] at hquiet
  have hopen : closing? c = none := by
    unfold closing?
    split <;> simp_all
  rw [isNoBracket, hopen, hquiet.1.2]
  rfl

theorem composes_settles : Composes Settles where
  nil := fun _ _ => rfl
  append := Settles.append
  name h := settles_of_noBrackets <| List.all_eq_true.2 fun c hc =>
    isNoBracket_of_isNameLetter (List.all_eq_true.1 h c hc)
  mark {c} hc := by
    have hall : ∀ c ∈ ['*', '!', '?', ':', ' '], isNoBracket c = true :=
      List.all_eq_true.1 (by decide)
    exact settles_of_noBrackets (by simp [hall c hc])
  bracket {o c separator texts} hkind h := by
    have hlist {separator : List Char} (hs : separator.all isNoBracket = true) :=
      of_intercalate (fun _ _ => rfl) Settles.append (settles_of_noBrackets hs) h
    simp only [List.mem_cons, List.not_mem_nil, or_false, Prod.mk.injEq] at hkind
    rcases hkind with ⟨rfl, rfl, rfl⟩ | ⟨rfl, rfl, rfl⟩ | ⟨rfl, rfl, rfl⟩ | ⟨rfl, rfl, rfl⟩
    · exact (hlist (by decide)).bracket rfl (by decide)
    · exact (hlist (by decide)).bracket rfl (by decide)
    · exact (hlist (by decide)).bracket rfl (by decide)
    · exact (hlist (by decide)).bracket rfl (by decide)

def lineEnds : List Char := ['\n', '\r', '\u2028', '\u2029']

def isInline (c : Char) : Bool := c != '/' && !lineEnds.contains c

/-- A text that can stand in a comment without ending it, and on one line. -/
def Inline (text : List Char) : Prop := text.all isInline = true

theorem Inline.append {a b : List Char} (ha : Inline a) (hb : Inline b) : Inline (a ++ b) := by
  rw [Inline, List.all_append, ha, hb, Bool.and_self]

theorem isInline_of_isNameLetter {c : Char} (h : isNameLetter c = true) : isInline c = true := by
  have hother : ∀ d ∈ '/' :: lineEnds, (!isNameLetter d) = true :=
    List.all_eq_true.1 (by decide +kernel)
  have hmem : c ∉ '/' :: lineEnds := by
    intro hmem
    have hc := hother c hmem
    rw [h] at hc
    cases hc
  simpa [isInline] using hmem

theorem composes_inline : Composes Inline where
  nil := rfl
  append := Inline.append
  name h := List.all_eq_true.2 fun c hc => isInline_of_isNameLetter (List.all_eq_true.1 h c hc)
  mark {c} hc := by
    have hall : ∀ c ∈ ['*', '!', '?', ':', ' '], isInline c = true := List.all_eq_true.1 (by decide)
    simp [Inline, hall c hc]
  bracket {o c separator texts} hkind h := by
    have hbracket {o c : Char} (ho : isInline o = true) (hc : isInline c = true)
        {separator : List Char} (hs : separator.all isInline = true) :
        Inline (o :: (separator.intercalate texts ++ [c])) := by
      have hnil : Inline [] := rfl
      have hlist := (of_intercalate hnil Inline.append hs h).append (b := [c]) (by simp [Inline, hc])
      rw [Inline, List.all_cons, ho, Bool.true_and]
      exact hlist
    simp only [List.mem_cons, List.not_mem_nil, or_false, Prod.mk.injEq] at hkind
    rcases hkind with ⟨rfl, rfl, rfl⟩ | ⟨rfl, rfl, rfl⟩ | ⟨rfl, rfl, rfl⟩ | ⟨rfl, rfl, rfl⟩
    · exact hbracket (by decide) (by decide) (by decide)
    · exact hbracket (by decide) (by decide) (by decide)
    · exact hbracket (by decide) (by decide) (by decide)
    · exact hbracket (by decide) (by decide) (by decide)

structure Prints (component : Component) (text : List Char) (t : TypeExpr) : Prop where
  typed : TypeText (fun _ => True) text
  spells : Spells component text t
  bare : Spells component (text.dropWhile (· == '!')) t

variable {component : Component} {text : List Char} {t : TypeExpr}

theorem prints_of_head (htyped : TypeText (fun _ => True) text) (h : Spells component text t)
    (hhead : text.head? ≠ some '!') : Prints component text t := by
  refine ⟨htyped, h, ?_⟩
  cases text with
  | nil => exact h
  | cons c text =>
      have hc : (c == '!') = false := by simpa using hhead
      rwa [List.dropWhile_cons, hc, if_neg Bool.false_ne_true]

theorem Spells.unique {u : TypeExpr} (h : Spells component text t) (h' : Spells component text u) :
    t = u := by
  have hends : Ends [] := fun c hc => by simp at hc
  have hread := h text.length (Nat.le_refl _) [] hends
  rw [h' text.length (Nat.le_refl _) [] hends] at hread
  exact (Prod.mk.inj (Option.some.inj hread)).1.symm

theorem typeText_named {β : Type} {xs : List β} {print : β → List Char} {value : β → TypeExpr}
    (h : ∀ x ∈ xs, Prints component (print x) (value x)) {mark name : List Char}
    (hmark : mark = [] ∨ mark = ['!']) (hne : name ≠ []) (hname : name.all isNameLetter = true) :
    TypeText (fun _ => True) (mark ++ (name ++ arguments (xs.map print))) := by
  refine .named hmark hne hname trivial fun a ha => ?_
  obtain ⟨x, hx, rfl⟩ := List.mem_map.1 ha
  exact (h x hx).typed

section Names

variable {β : Type} {xs : List β} {print : β → List Char} {value : β → TypeExpr}

theorem prints_named (h : ∀ x ∈ xs, Prints component (print x) (value x)) {mark name : String}
    (hmark : mark = "" ∨ mark = "!") (hne : name.toList ≠ [])
    (hletters : name.toList.all isNameLetter = true) (hfree : name ∉ reservedWords) :
    Prints component ((mark ++ name).toList ++ arguments (xs.map print))
      (TypeExpr.canonicalReference (meant component name) (xs.map value)) := by
  have hspells := spells_named hne hletters hfree fun x hx => (h x hx).spells
  have hhead : (name.toList ++ arguments (xs.map print)).head? ≠ some '!' := by
    obtain ⟨c, rest, hname⟩ := List.exists_cons_of_ne_nil hne
    rw [hname, List.all_cons, Bool.and_eq_true] at hletters
    rw [hname, List.cons_append, List.head?_cons]
    intro heq
    rw [Option.some.inj heq] at hletters
    exact absurd hletters.1 (by decide)
  rcases hmark with rfl | rfl
  · rw [String.empty_append]
    exact prints_of_head (typeText_named h (.inl rfl) hne hletters) hspells hhead
  · have hbare : ("!".toList ++ (name.toList ++ arguments (xs.map print))).dropWhile (· == '!')
        = name.toList ++ arguments (xs.map print) := by
      cases hlist : name.toList ++ arguments (xs.map print) with
      | nil => rfl
      | cons c rest =>
          have hc : (c == '!') = false := by simpa [hlist] using hhead
          simp [hc]
    rw [String.toList_append, List.append_assoc]
    refine ⟨typeText_named h (.inr rfl) hne hletters, hspells.marked, ?_⟩
    rw [hbare]
    exact hspells

theorem prints_any (h : ∀ x ∈ xs, Prints component (print x) (value x)) :
    Prints component ("*".toList ++ arguments (xs.map print))
      (TypeExpr.canonicalReference "any" (xs.map value)) := by
  refine prints_of_head (.any fun a ha => ?_) (spells_any fun x hx => (h x hx).spells) (by simp)
  obtain ⟨x, hx, rfl⟩ := List.mem_map.1 ha
  exact (h x hx).typed

end Names

end ClosureType

namespace Surface

open ClosureType

variable {s : Surface} {globals : List String}

/-- No name in a type is a word of the syntax or the name of the generated class. -/
def Readable (s : Surface) (t : TypeExpr) : Prop :=
  ∀ name ∈ t.references, name ∉ reservedWords ∧ name ≠ s.component.facadeName

theorem not_mem_reservedWords_facadeName (c : Component) : c.facadeName ∉ reservedWords := by
  intro hmem
  have hshort : ∀ word ∈ reservedWords, word.length < 16 := by decide
  have hlength := hshort _ hmem
  rw [Component.facadeName, String.length_append] at hlength
  have hsuffix : "ClosureInterface".length = 16 := rfl
  omega

theorem ne_facadeName_of_length {word : String} (h : word.length < 16) (c : Component) :
    word ≠ c.facadeName := by
  rintro rfl
  rw [Component.facadeName, String.length_append] at h
  have hsuffix : "ClosureInterface".length = 16 := rfl
  omega

theorem spelling_of_resolve {name : String} {m : Meaning} (h : s.resolve globals name = some m) :
    (m = .component → s.component.name = name) ∧ ∀ p, m = .primitive p → p.keyword = name := by
  rcases Option.or_eq_some_iff.1 h with hlocal | ⟨-, h⟩
  · unfold localMeaning at hlocal
    split at hlocal
    · cases hlocal
      simp
    · cases hlocal
      simp
    · split at hlocal
      · next hname =>
          cases hlocal
          simpa using hname
      · cases hlocal
  · rcases Option.or_eq_some_iff.1 h with hbuiltin | ⟨-, himport⟩
    · unfold builtinMeaning at hbuiltin
      split at hbuiltin
      · next q hq =>
          cases hbuiltin
          simpa using List.find?_some hq
      · split at hbuiltin
        · cases hbuiltin
          simp
        · split at hbuiltin
          · cases hbuiltin
            simp
          · cases hbuiltin
    · obtain ⟨symbol, -, rfl⟩ := Option.map_eq_some_iff.1 himport
      simp

section References

variable {β : Type} {xs : List β} {print : β → List Char} {value : β → TypeExpr}

theorem prints_primitive_name (h : ∀ x ∈ xs, Prints s.component (print x) (value x)) {p : Primitive}
    (hfree : p.keyword ∉ reservedWords) :
    Prints s.component (p.closureType.toList ++ arguments (xs.map print))
      (TypeExpr.canonicalReference p.keyword (xs.map value)) := by
  cases p with
  | any => exact prints_any h
  | unknown => exact prints_any h
  | never => exact prints_any h
  | object =>
      have hobject := prints_named h (.inr rfl) (by decide : "Object".toList ≠ []) (by decide)
        (by decide)
      rwa [meant, if_neg (ne_facadeName_of_length (by decide) _)] at hobject
  | _ => exact absurd (by decide) hfree

theorem prints_reference (h : ∀ x ∈ xs, Prints s.component (print x) (value x)) {name : DottedName}
    (hfree : name.text ∉ reservedWords) (hother : name.text ≠ s.component.facadeName) :
    Prints s.component ((s.nameType globals name.text).toList ++ arguments (xs.map print))
      (TypeExpr.canonicalReference name.text (xs.map value)) := by
  have hplain {mark : String} (hmark : mark = "" ∨ mark = "!") :
      Prints s.component ((mark ++ name.text).toList ++ arguments (xs.map print))
        (TypeExpr.canonicalReference name.text (xs.map value)) := by
    have hname := prints_named h hmark name.toList_ne_nil name.all_isNameLetter hfree
    rwa [meant, if_neg hother] at hname
  have hbare := hplain (.inl rfl)
  rw [String.empty_append] at hbare
  unfold nameType
  rcases hr : s.resolve globals name.text with - | ⟨d | d | - | p | - | - | ⟨module, symbol⟩⟩
  · exact hplain (.inr rfl)
  · exact hplain (.inr rfl)
  · exact hbare
  · have hcomponent := (spelling_of_resolve hr).1 rfl
    have hletters : s.component.facadeName.toList.all isNameLetter = true := by
      rw [Component.facadeName, hcomponent, String.toList_append, List.all_append,
        name.all_isNameLetter]
      decide
    have hne : s.component.facadeName.toList ≠ [] := by simp [Component.facadeName]
    have hfacade := prints_named h (.inr rfl) hne hletters
      (not_mem_reservedWords_facadeName s.component)
    rwa [meant, if_pos rfl, hcomponent] at hfacade
  · have hkeyword := (spelling_of_resolve hr).2 p rfl
    rw [← hkeyword] at hfree ⊢
    exact prints_primitive_name h hfree
  · exact hplain (.inr rfl)
  · exact hplain (.inr rfl)
  · exact hplain (.inr rfl)

end References

theorem spells_everything (c : Component) : Spells c ['*'] TypeExpr.any := by
  have hnone : ∀ x ∈ ([] : List Unit), Spells c [] TypeExpr.any := by simp
  exact spells_any hnone

theorem exists_map_eq {ts : List TypeExpr} {print : TypeExpr → String} {texts : List String}
    (h : ∀ text ∈ texts, ∃ t ∈ ts, print t = text) :
    ∃ us : List TypeExpr, (∀ u ∈ us, u ∈ ts) ∧ us.map print = texts := by
  induction texts with
  | nil => exact ⟨[], by simp, rfl⟩
  | cons text texts ih =>
      obtain ⟨⟨t, ht, htext⟩, htexts⟩ := List.forall_mem_cons.1 h
      obtain ⟨us, hus, rfl⟩ := ih htexts
      exact ⟨t :: us, List.forall_mem_cons.2 ⟨ht, hus⟩, by rw [List.map_cons, htext]⟩

section Unions

variable {c : Component} {ts : List TypeExpr} {print : TypeExpr → String}

theorem choice_of_distinct (h : ∀ t ∈ ts, Prints c (print t).toList t.canonical)
    {us : List TypeExpr} (hus : ∀ u ∈ us, u ∈ ts) (hmap : us.map print = (ts.map print).eraseDups) :
    TypeExpr.choice (us.map TypeExpr.canonical) = TypeExpr.choice (ts.map TypeExpr.canonical) := by
  refine TypeExpr.choice_congr fun v => ⟨fun hv => ?_, fun hv => ?_⟩
  · obtain ⟨u, hu, rfl⟩ := List.mem_map.1 hv
    exact List.mem_map_of_mem (hus u hu)
  · obtain ⟨t, ht, rfl⟩ := List.mem_map.1 hv
    have hprint : print t ∈ us.map print := by
      rw [hmap, List.mem_eraseDups]
      exact List.mem_map_of_mem ht
    obtain ⟨u, hu, hsame⟩ := List.mem_map.1 hprint
    have hspells := (h u (hus u hu)).spells
    rw [hsame] at hspells
    rw [(h t ht).spells.unique hspells]
    exact List.mem_map_of_mem hu

theorem canonical_of_everything {t : TypeExpr} (h : Prints c (print t).toList t.canonical)
    (ht : print t = "*") : t.canonical = TypeExpr.any := by
  have hspells := h.spells
  rw [ht] at hspells
  exact hspells.unique (spells_everything c)

theorem prints_union (h : ∀ t ∈ ts, Prints c (print t).toList t.canonical) :
    Prints c (ClosureType.union (ts.map print)).toList
      (TypeExpr.choice (ts.map TypeExpr.canonical)) := by
  have htyped : TypeText (fun _ => True) (ClosureType.union (ts.map print)).toList :=
    typeText_union (List.forall_mem_map.2 fun t ht => (h t ht).typed)
  obtain ⟨us, hus, hmap⟩ : ∃ us : List TypeExpr, (∀ u ∈ us, u ∈ ts)
      ∧ us.map print = (ts.map print).eraseDups :=
    exists_map_eq fun text htext => List.mem_map.1 (List.mem_eraseDups.1 htext)
  have hall : ∀ u ∈ us, Prints c (print u).toList u.canonical := fun u hu => h u (hus u hu)
  rw [← choice_of_distinct h hus hmap]
  unfold ClosureType.union at htyped ⊢
  simp only [← hmap] at htyped ⊢
  split
  · next hany =>
      obtain ⟨u, hu, htext⟩ := List.mem_map.1 (List.contains_iff_mem.1 hany)
      have hmem : TypeExpr.any ∈ us.map TypeExpr.canonical :=
        List.mem_map.2 ⟨u, hu, canonical_of_everything (hall u hu) htext⟩
      rw [TypeExpr.choice_of_any hmem]
      exact htext ▸ canonical_of_everything (hall u hu) htext ▸ hall u hu
  · next hany =>
      rw [if_neg hany] at htyped
      rcases us with - | ⟨u, - | ⟨v, rest⟩⟩
      · refine prints_of_head htyped ?_ (by simp)
        have hspells := spells_union fun x hx => (hall x hx).spells
        simpa using hspells
      · rw [List.map_singleton, List.map_singleton, TypeExpr.choice_singleton]
        exact hall u List.mem_cons_self
      · refine prints_of_head htyped ?_ (by simp)
        have hspells := spells_union fun x hx => (hall x hx).spells
        simpa [String.toList_intercalate, Function.comp_def] using hspells

theorem prints_nullable (h : ∀ t ∈ ts, Prints c (print t).toList t.canonical)
    (hnull : ts.any TypeExpr.isNull = true) {t : TypeExpr}
    (hone : ts.filter (fun t => !t.isNull) = [t]) : Prints c (nullable (print t)).toList
      (TypeExpr.choice (ts.map TypeExpr.canonical)) := by
  have ht : t ∈ ts := List.mem_of_mem_filter (hone ▸ List.mem_singleton_self t)
  have hchoice : TypeExpr.choice (ts.map TypeExpr.canonical)
      = TypeExpr.choice [t.canonical, .primitive .null] := by
    refine TypeExpr.choice_congr fun v => ?_
    rw [List.mem_map, List.mem_pair]
    constructor
    · rintro ⟨u, hu, rfl⟩
      cases hu' : u.isNull with
      | true => exact .inr (by rw [TypeExpr.eq_null_of_isNull hu']; rfl)
      | false =>
          have hmem : u ∈ ts.filter fun t => !t.isNull := List.mem_filter.2 ⟨hu, by simp [hu']⟩
          rw [hone] at hmem
          exact .inl (List.mem_singleton.1 hmem ▸ rfl)
    · rintro (rfl | rfl)
      · exact ⟨t, ht, rfl⟩
      · obtain ⟨u, hu, hu'⟩ := List.any_eq_true.1 hnull
        exact ⟨u, hu, by rw [TypeExpr.eq_null_of_isNull hu']; rfl⟩
  have htyped : TypeText (fun _ => True) (nullable (print t)).toList := typeText_nullable (h t ht).typed
  rw [hchoice]
  unfold nullable at htyped ⊢
  split
  · next hany =>
      have heverything := canonical_of_everything (h t ht) (beq_iff_eq.1 hany)
      have hmem : TypeExpr.any ∈ [t.canonical, .primitive .null] := by simp [heverything]
      rw [TypeExpr.choice_of_any hmem, ← heverything]
      exact h t ht
  · next hany =>
      rw [if_neg hany] at htyped
      refine prints_of_head htyped ?_ (by simp)
      simpa using (h t ht).bare.nullable

end Unions

theorem prints_optional {t : TypeExpr} (h : Prints s.component (s.closureType globals t).toList
    t.canonical) : Prints s.component (orUndefined (s.closureType globals t)).toList
      (TypeExpr.choice [t.canonical, .primitive .undefined]) := by
  refine prints_of_head (typeText_orUndefined trivial h.typed) ?_ (by simp [orUndefined])
  have hundefined : Spells s.component "undefined".toList (.primitive .undefined) :=
    spells_keyword (p := .undefined) (by decide)
  have hspells : ∀ u ∈ [t, .primitive .undefined],
      Spells s.component (s.closureType globals u).toList u.canonical := by
    intro u hu
    rcases List.mem_pair.1 hu with rfl | rfl
    · exact h.spells
    · exact hundefined
  have hunion := spells_union hspells
  simpa [orUndefined, closureType, Primitive.closureType, TypeExpr.canonical] using hunion

theorem prints_keyword {p : Primitive} (hp : p ∈ keywords) :
    Prints s.component p.closureType.toList (TypeExpr.primitive p).canonical := by
  have hwords : ∀ p ∈ keywords, p.closureType = p.keyword ∧ p.keyword.toList.head? ≠ some '!'
      ∧ (TypeExpr.primitive p).canonical = .primitive p := by
    decide
  obtain ⟨htext, hhead, hcanonical⟩ := hwords p hp
  have htyped := typeText_primitive (P := fun _ => True) (fun _ _ => trivial) p [] (by simp)
  rw [arguments, List.isEmpty_nil, if_pos rfl, List.append_nil] at htyped
  rw [hcanonical]
  rw [htext] at htyped ⊢
  exact prints_of_head htyped (spells_keyword hp) hhead

theorem prints_primitive (p : Primitive) :
    Prints s.component p.closureType.toList (TypeExpr.primitive p).canonical := by
  have hnone : ∀ x ∈ ([] : List Unit), Prints s.component [] TypeExpr.any := by simp
  cases p with
  | any => exact prints_any hnone
  | unknown => exact prints_any hnone
  | never => exact prints_any hnone
  | object =>
      have hobject := prints_primitive_name (p := .object) hnone (by decide)
      have hcanonical : TypeExpr.canonicalReference Primitive.object.keyword []
          = (TypeExpr.primitive .object).canonical := TypeExpr.canonicalReference_object
      rw [List.map_nil, List.map_nil, hcanonical] at hobject
      simpa [arguments] using hobject
  | _ => exact prints_keyword (by decide)

theorem readable_of_mem {t : TypeExpr} {ts : List TypeExpr}
    (hn : ∀ name ∈ TypeExpr.referencesAll ts, name ∉ reservedWords ∧ name ≠ s.component.facadeName)
    (ht : t ∈ ts) : s.Readable t := by
  intro name hname
  rw [TypeExpr.referencesAll_eq_flatMap] at hn
  exact hn name (List.mem_flatMap.2 ⟨t, ht, hname⟩)

theorem prints_array {t : TypeExpr}
    (h : Prints s.component (s.closureType globals t).toList t.canonical) :
    Prints s.component (s.closureType globals (.array t)).toList (TypeExpr.array t).canonical := by
  have hargs : ∀ u ∈ [t], Prints s.component (s.closureType globals u).toList u.canonical :=
    List.forall_mem_singleton.2 h
  have harray := prints_named hargs (.inr rfl) (by decide : "Array".toList ≠ []) (by decide)
    (by decide)
  rw [meant, if_neg (ne_facadeName_of_length (by decide) _), List.map_singleton,
    List.map_singleton, TypeExpr.canonicalReference_array] at harray
  rw [closureType, TypeExpr.canonical]
  simpa [arguments] using harray

theorem prints_function {params : List TypeExpr} {result : TypeExpr}
    (hparams : ∀ t ∈ params, Prints s.component (s.closureType globals t).toList t.canonical)
    (hresult : Prints s.component (s.closureType globals result).toList result.canonical) :
    Prints s.component (s.closureType globals (.function params result)).toList
      (TypeExpr.function params result).canonical := by
  have hspells := spells_function (fun t ht => (hparams t ht).spells) hresult.spells
  have htyped := TypeText.function (P := fun _ => True)
    (List.forall_mem_map.2 fun t ht => (hparams t ht).typed) hresult.typed
  have htext : (s.closureType globals (.function params result)).toList = "function".toList
      ++ '(' :: ([',', ' '].intercalate (params.map fun t => (s.closureType globals t).toList)
        ++ ')' :: ':' :: ' ' :: (s.closureType globals result).toList) := by
    rw [closureType, closureTypes_eq_map]
    simp [commas, String.toList_intercalate, Function.comp_def]
  rw [htext, TypeExpr.canonical, TypeExpr.canonicals_eq_map]
  exact prints_of_head (by simpa using htyped) hspells (by simp)

theorem prints_fieldType {f : Field}
    (h : Prints s.component (s.closureType globals f.type).toList f.type.canonical) :
    Prints s.component (s.fieldType globals f).toList (TypeExpr.canonicalField f).type := by
  unfold fieldType TypeExpr.canonicalField
  cases f.optional with
  | false => exact h
  | true => exact prints_optional h

theorem prints_record {fields : List Field}
    (hletters : ∀ f ∈ fields, f.name.toList.all isNameLetter = true)
    (hfields : ∀ f ∈ fields,
      Prints s.component (s.fieldType globals f).toList (TypeExpr.canonicalField f).type) :
    Prints s.component (s.closureType globals (.record fields)).toList
      (TypeExpr.record fields).canonical := by
  have hspells := spells_record hletters fun f hf => (hfields f hf).spells
  have htyped := @TypeText.record (fun _ => True)
    (fields.map fun f => (f.name.toList, (s.fieldType globals f).toList))
    (List.forall_mem_map.2 hletters) (List.forall_mem_map.2 fun f hf => (hfields f hf).typed)
  have htext : (s.closureType globals (.record fields)).toList = '\x7b' :: ([',', ' '].intercalate
      (fields.map fun f => fieldText (f.name.toList, (s.fieldType globals f).toList))
        ++ ['\x7d']) := by
    rw [closureType, fieldTypes_eq_map]
    simp [braces, commas, String.toList_intercalate, fieldText, Function.comp_def]
  rw [htext, TypeExpr.canonical, TypeExpr.canonicalFields_eq_map]
  rw [List.map_map] at htyped
  exact prints_of_head htyped hspells (by simp)

theorem prints_closureType {t : TypeExpr} (ht : t.WellNamed) (hn : s.Readable t) :
    Prints s.component (s.closureType globals t).toList t.canonical := by
  induction ht with
  | primitive p =>
      rw [closureType]
      exact prints_primitive p
  | @reference name args _ ih =>
      obtain ⟨⟨hfree, hother⟩, hargs⟩ := List.forall_mem_cons.1 hn
      have hall : ∀ t ∈ args, Prints s.component (s.closureType globals t).toList t.canonical :=
        fun t ht => ih t ht (readable_of_mem hargs ht)
      have hname : Prints s.component ((s.nameType globals name.text).toList
          ++ arguments (args.map fun t => (s.closureType globals t).toList))
          (TypeExpr.canonicalReference name.text (args.map TypeExpr.canonical)) :=
        prints_reference hall hfree hother
      rw [closureType, toList_generic, closureTypes_eq_map, TypeExpr.canonical,
        TypeExpr.canonicals_eq_map, List.map_map]
      exact hname
  | array _ ih => exact prints_array (ih hn)
  | @union ts _ ih =>
      have hall : ∀ t ∈ ts, Prints s.component (s.closureType globals t).toList t.canonical :=
        fun t ht => ih t ht (readable_of_mem hn ht)
      rw [closureType, TypeExpr.canonical, TypeExpr.canonicals_eq_map, closureTypes_eq_map]
      split
      · next text hnull hone =>
          rw [closureTypesButNull_eq, List.map_eq_singleton_iff] at hone
          obtain ⟨t, hone, rfl⟩ := hone
          exact prints_nullable hall hnull hone
      · exact prints_union hall
  | function _ _ ih ih' =>
      obtain ⟨hparams, hresult⟩ := List.forall_mem_append.1 hn
      exact prints_function (fun t ht => ih t ht (readable_of_mem hparams ht)) (ih' hresult)
  | record hnames _ ih =>
      rw [Readable, TypeExpr.references, TypeExpr.referencesFields_eq_flatMap] at hn
      refine prints_record (fun f hf => Text.all_isNameLetter_of_isBareKey (hnames f hf)) fun f hf => ?_
      exact prints_fieldType (ih f hf fun name hname => hn name (List.mem_flatMap.2 ⟨f, hf, hname⟩))

/-- The text of a type from a source stands on one line of a comment, its brackets match, and it is
read as the canonical form of the type. So two types that print alike have one canonical form. -/
theorem read_closureType {node : Tree.TypeNode} {t : TypeExpr} (h : TypeExpr.ofNode node = .ok t)
    (hn : s.Readable t) : Inline (s.closureType globals t).toList
      ∧ Matched (s.closureType globals t).toList
      ∧ readWhole s.component (s.closureType globals t) = some t.canonical
      ∧ ∀ (other : Tree.TypeNode) (u : TypeExpr), TypeExpr.ofNode other = .ok u → s.Readable u →
        s.closureType globals u = s.closureType globals t → u.canonical = t.canonical := by
  have hprints {node : Tree.TypeNode} {t : TypeExpr} (h : TypeExpr.ofNode node = .ok t)
      (hn : s.Readable t) : Prints s.component (s.closureType globals t).toList t.canonical :=
    prints_closureType (TypeExpr.wellNamed_kept.ofNode node h) hn
  have ht := hprints h hn
  refine ⟨ht.typed.composes composes_inline, (ht.typed.composes composes_settles).matched, ?_, ?_⟩
  · have hends : Ends [] := fun c hc => by simp at hc
    have hread := ht.spells (s.closureType globals t).length (Nat.le_refl _) [] hends
    rw [List.append_nil] at hread
    rw [readWhole, hread]
  · intro other u hu hun hsame
    have hspells := (hprints hu hun).spells
    rw [hsame] at hspells
    exact hspells.unique ht.spells

def emptySurface : Surface := ⟨"a", [], [], ⟨"A", "HTMLElement", .named, none, none⟩, [], [], []⟩

def boxOrNull (again : Bool) : Tree.TypeNode :=
  let box : Tree.TypeNode := .reference ⟨⟨"Box", by decide⟩, []⟩ [.keyword .string]
  if again then .union [.keyword .null, box, .keyword .null] else .union [box, .keyword .null]

theorem read_boxOrNull : ∃ t u, TypeExpr.ofNode (boxOrNull false) = .ok t
    ∧ TypeExpr.ofNode (boxOrNull true) = .ok u ∧ t ≠ u
    ∧ emptySurface.closureType [] t = "?Box<string>"
    ∧ readWhole emptySurface.component "?Box<string>" = some t.canonical ∧ u.canonical = t.canonical := by
  let box : TypeExpr := .reference "Box" [.primitive .string]
  have ht : TypeExpr.ofNode (boxOrNull false) = .ok (.union [box, .primitive .null]) := by decide
  have hu : TypeExpr.ofNode (boxOrNull true)
      = .ok (.union [.primitive .null, box, .primitive .null]) := by decide
  have htext : emptySurface.closureType [] (.union [box, .primitive .null]) = "?Box<string>" := by
    decide
  have hsame : emptySurface.closureType [] (.union [.primitive .null, box, .primitive .null])
      = emptySurface.closureType [] (.union [box, .primitive .null]) := by decide
  have hreadable : emptySurface.Readable (.union [box, .primitive .null]) := by
    unfold Readable
    decide
  obtain ⟨-, -, hread, hother⟩ := @read_closureType emptySurface [] _ _ ht hreadable
  refine ⟨_, _, ht, hu, by decide, htext, htext ▸ hread, hother _ _ hu ?_ hsame⟩
  unfold Readable
  decide

end Surface

end ElementBridge
