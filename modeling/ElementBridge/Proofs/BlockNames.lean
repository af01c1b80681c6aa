import ElementBridge.Proofs.DocTypes

namespace ElementBridge.Bridge

open ClosureType Text

variable {Q : String → Prop} {line : String} {block : Lines}

def Clear (Q : String → Prop) (block : Lines) : Prop := ∀ name ∈ docNames block, Q name

theorem clear_iff : Clear Q block ↔ ∀ line ∈ block, Clear Q [line] := by
  constructor
  · intro h line hline name hname
    refine h name (List.mem_flatMap.2 ⟨line, hline, ?_⟩)
    simpa [docNames] using hname
  · intro h name hname
    obtain ⟨line, hline, hname⟩ := List.mem_flatMap.1 hname
    exact h line hline name (by simpa [docNames] using hname)

theorem Clear.append {more : Lines} (h : Clear Q block) (h' : Clear Q more) :
    Clear Q (block ++ more) := by
  rw [clear_iff] at h h' ⊢
  exact fun line hline => (List.mem_append.1 hline).elim (h line) (h' line)

theorem Clear.cons (h : Clear Q [line]) (h' : Clear Q block) : Clear Q (line :: block) := h.append h'

theorem clear_nil : Clear Q [] := fun _ hname => absurd hname List.not_mem_nil

def Reads (Q : String → Prop) (text : List Char) : Prop := Q (String.ofList text)

theorem forall_typeNames {text : List Char} (h : Mentions (Reads Q) text) :
    ∀ name ∈ (typeNames text).map String.ofList, Q name := by
  intro name hname
  obtain ⟨letters, hletters, rfl⟩ := List.mem_map.1 hname
  exact h.typeNames letters hletters

theorem clear_of_docType (h : Mentions (Reads Q) (docType line)) : Clear Q [line] := by
  intro name hname
  exact forall_typeNames h name (by simpa [docNames] using hname)

theorem clear_code {indent : Nat} {c : Char} (h : Begins indent c line) (hc : c ≠ ' ' ∧ c ≠ '*') :
    Clear Q [line] := by
  refine clear_of_docType ?_
  rw [docType_code h hc]
  exact mentions_nil

variable {s : Surface} {globals : List String}

def Tagged (Q : String → Prop) (text : String) : Prop :=
  ∃ t mark : List Char, TypeText (Reads Q) t ∧ (mark = [] ∨ mark = ['=']) ∧ text.toList = t ++ mark

theorem Tagged.nested {text : String} (h : Tagged Q text) : Nested text.toList := by
  obtain ⟨t, mark, ht, hmark, htext⟩ := h
  rw [htext]
  rcases hmark with rfl | rfl
  · exact ht.nested.append nested_nil
  · exact ht.nested.append (nested_of_all (by decide))

theorem Tagged.mentions {text : String} (h : Tagged Q text) : Mentions (Reads Q) text.toList := by
  obtain ⟨t, mark, ht, hmark, htext⟩ := h
  rw [htext]
  rcases hmark with rfl | rfl
  · rw [List.append_nil]
    exact ht.mentions
  · exact ht.mentions.then mentions_nil (by decide)

theorem tagged_of_typeText {text : String} (h : TypeText (Reads Q) text.toList) : Tagged Q text :=
  ⟨text.toList, [], h, .inl rfl, (List.append_nil _).symm⟩

def Carries (tag text : String) : Prop :=
  ∃ word more : List Char, '\x7b' ∉ word ∧
    tag.toList = '@' :: (word ++ '\x7b' :: (text.toList ++ '\x7d' :: more))

variable {tag text : String}

theorem Carries.docType (h : Carries tag text) (hn : Nested text.toList) (indent : Nat)
    {leader : String} (hleader : leader.toList = List.replicate indent ' ' ++ ['*', ' ']) :
    docType (leader ++ tag) = text.toList := by
  obtain ⟨word, more, hword, htag⟩ := h
  have hline : (leader ++ tag).toList = List.replicate indent ' '
      ++ '*' :: ' ' :: '@' :: (word ++ '\x7b' :: (text.toList ++ '\x7d' :: more)) := by
    simp [hleader, htag]
  exact docType_tag hline hword hn

theorem carries_paramTag (type name : String) : Carries (paramTag type name) type :=
  ⟨"param ".toList, ' ' :: name.toList, by simp, by simp [paramTag, braces]⟩

theorem carries_returnTag (type : String) : Carries (returnTag type) type :=
  ⟨"return ".toList, [], by simp, by simp [returnTag, braces]⟩

theorem carries_typedef (type : String) : Carries ("@typedef " ++ braces type) type :=
  ⟨"typedef ".toList, [], by simp, by simp [braces]⟩

def IsTag (Q : String → Prop) (tag : String) : Prop :=
  ∃ (word more : List Char) (text : String), Tagged Q text ∧ '\x7b' ∉ word ∧
    tag.toList = '@' :: (word ++ '\x7b' :: (text.toList ++ '\x7d' :: more))

theorem Carries.isTag (h : Carries tag text) (ht : Tagged Q text) : IsTag Q tag := by
  obtain ⟨word, more, hword, htag⟩ := h
  exact ⟨word, more, text, ht, hword, htag⟩

theorem IsTag.clear (h : IsTag Q tag) (indent : Nat) (leader : String)
    (hleader : leader.toList = List.replicate indent ' ' ++ ['*', ' ']) :
    Clear Q [leader ++ tag] := by
  obtain ⟨word, more, text, htagged, hword, htag⟩ := h
  have hcarries : Carries tag text := ⟨word, more, hword, htag⟩
  refine clear_of_docType ?_
  rw [hcarries.docType htagged.nested indent hleader]
  exact htagged.mentions

theorem isTag_paramTag {type : String} (h : Tagged Q type) (name : String) :
    IsTag Q (paramTag type name) :=
  (carries_paramTag type name).isTag h

theorem isTag_returnTag {type : String} (h : Tagged Q type) : IsTag Q (returnTag type) :=
  (carries_returnTag type).isTag h

theorem clear_open : Clear Q ["/**"] := clear_of_docType mentions_nil

theorem clear_close : Clear Q ["*/"] := clear_of_docType mentions_nil

theorem clear_brace : Clear Q ["\x7d"] := clear_of_docType mentions_nil

theorem clear_docBlock {tags : List String} (h : ∀ tag ∈ tags, IsTag Q tag) :
    Clear Q (docBlock tags) := by
  have hlines : Clear Q (tags.map ("  * " ++ ·)) := by
    rw [clear_iff]
    intro line hline
    obtain ⟨tag, htag, rfl⟩ := List.mem_map.1 hline
    exact (h tag htag).clear 2 "  * " rfl
  unfold docBlock
  split
  · exact clear_nil
  · exact (Clear.cons (clear_of_docType mentions_nil) hlines).append (clear_of_docType mentions_nil)

theorem exists_objectKey (name : String) :
    ∃ c, Begins 0 c (objectKey name) ∧ c ≠ ' ' ∧ c ≠ '*' := by
  unfold objectKey
  split
  · next hkey =>
      have hletters := all_isNameLetter_of_isBareKey hkey
      unfold isBareKey at hkey
      split at hkey
      · exact absurd hkey (by simp)
      · next c rest htext =>
          rw [htext, List.all_cons, Bool.and_eq_true] at hletters
          refine ⟨c, ⟨rest, htext⟩, ?_, ?_⟩
          · rintro rfl
            exact absurd hletters.1 (by decide)
          · rintro rfl
            exact absurd hletters.1 (by decide)
  · exact ⟨'\x27', ⟨_, String.toList_ofList⟩, by decide, by decide⟩

theorem clear_key (name more : String) : Clear Q ["  " ++ objectKey name ++ more] := by
  obtain ⟨c, ⟨rest, hkey⟩, hc⟩ := exists_objectKey name
  have hline : Begins 2 c ("  " ++ objectKey name) := ⟨rest, by simp [hkey]⟩
  exact clear_code (hline.append more) hc

variable {m : Member}

def SignsOver (Q : String → Prop) (s : Surface) (globals : List String) : Prop :=
  ∀ t text, s.Signs globals t text → TypeText (Reads Q) text.toList

theorem tagged_paramType {p : Param}
    (h : ∀ text, s.paramType globals p = text ++ (if p.optional then "=" else "") →
      TypeText (Reads Q) text.toList) : Tagged Q (s.paramType globals p) := by
  obtain ⟨text, htext⟩ := s.exists_paramType globals p
  refine ⟨text.toList, (if p.optional then "=" else "").toList, h text htext, ?_, ?_⟩
  · cases p.optional with
    | false => exact .inl rfl
    | true => exact .inr rfl
  · rw [htext, String.toList_append]

theorem isTag_paramTags {params : List Param}
    (h : ∀ p ∈ params, ∀ text, s.paramType globals p = text ++ (if p.optional then "=" else "") →
      TypeText (Reads Q) text.toList) :
    ∀ tag ∈ paramTags s globals params, IsTag Q tag := by
  intro tag htag
  obtain ⟨p, hp, rfl⟩ := List.mem_map.1 htag
  exact isTag_paramTag (tagged_paramType (h p hp)) p.name

theorem clear_methodStub (h : SignsOver Q s globals) (hm : m ∈ s.members)
    (hkind : m.kind = .method) : Clear Q (methodStub s globals m) := by
  have htags : ∀ tag ∈ paramTags s globals m.params ++ resultTags s globals m.result,
      IsTag Q tag := by
    intro tag htag
    rcases List.mem_append.1 htag with htag | htag
    · refine isTag_paramTags (fun p hp text htext => ?_) tag htag
      exact h _ _ (.param hm hkind hp htext)
    · unfold resultTags at htag
      split at htag
      · exact absurd htag List.not_mem_nil
      · next t hresult =>
          split at htag
          · exact absurd htag List.not_mem_nil
          · rw [List.mem_singleton.1 htag]
            exact isTag_returnTag (tagged_of_typeText (h _ _ (.result hm hkind hresult)))
  have hkey := clear_key (Q := Q) m.name ("(" ++ paramNames m.params ++ ")" ++ emptyBody)
  simp only [← String.append_assoc] at hkey
  exact (clear_docBlock htags).append hkey

theorem tagged_accessorType (h : SignsOver Q s globals)
    (hundefined : Q "undefined") (hm : m ∈ s.members) (hkind : m.kind ≠ .method) :
    Tagged Q (accessorType s globals m) := by
  refine tagged_of_typeText ?_
  cases hvalue : m.valueType with
  | some t => exact h _ _ (.accessor hm hkind hvalue)
  | none =>
      have hnone : ∀ a ∈ [], TypeText (Reads Q) a := fun a ha => absurd ha List.not_mem_nil
      have hany : TypeText (Reads Q) "*".toList := .any hnone
      unfold accessorType
      rw [hvalue]
      exact Surface.typeText_optional (by simpa [Reads] using hundefined) hany

theorem clear_accessorStub (h : SignsOver Q s globals) (hundefined : Q "undefined")
    (hm : m ∈ s.members) (hkind : m.kind ≠ .method) :
    Clear Q (setterStub s globals m) ∧ Clear Q (getterStub s globals m) := by
  have htype := tagged_accessorType h hundefined hm hkind
  have one {tag : String} (htag : IsTag Q tag) : Clear Q (docBlock [tag]) :=
    clear_docBlock fun other hother => List.mem_singleton.1 hother ▸ htag
  have hset : Begins 2 's' "  set " := ⟨_, rfl⟩
  have hget : Begins 2 'g' "  get " := ⟨_, rfl⟩
  constructor
  · refine (one (isTag_paramTag htype _)).append ?_
    exact clear_code ((((hset.append _).append _).append _).append _ |>.append _) (by decide)
  · refine (one (isTag_returnTag htype)).append ?_
    exact clear_code (((hget.append _).append _).append _) (by decide)

theorem clear_stubs (h : SignsOver Q s globals) (hundefined : Q "undefined")
    (hm : m ∈ s.members) : Clear Q (stubs s globals m) := by
  unfold stubs
  cases hkind : m.kind with
  | method => exact clear_methodStub h hm hkind
  | property =>
      have hboth := clear_accessorStub h hundefined hm (by simp [hkind])
      dsimp only
      split
      · exact hboth.2
      · exact hboth.1.append hboth.2
  | getter => exact (clear_accessorStub h hundefined hm (by simp [hkind])).2
  | setter => exact (clear_accessorStub h hundefined hm (by simp [hkind])).1

theorem clear_facadeClass (h : SignsOver Q s globals) (hundefined : Q "undefined") :
    Clear Q (facadeClass s globals) := by
  have hmembers : Clear Q (s.members.flatMap (stubs s globals)) := by
    rw [clear_iff]
    intro line hline
    obtain ⟨m, hm, hline⟩ := List.mem_flatMap.1 hline
    exact clear_iff.1 (clear_stubs h hundefined hm) line hline
  have hhead : Clear Q ["// eslint-disable-next-line no-unused-vars"] :=
    clear_of_docType (by rw [show docType _ = [] by decide]; exact mentions_nil)
  have hstart : Begins 0 'c' "class " := ⟨_, rfl⟩
  have hclass : Clear Q ["class " ++ s.component.facadeName ++ " extends " ++ s.component.hostBase
      ++ " \x7b"] := clear_code ((((hstart.append _).append _).append _).append _) (by decide)
  exact ((hhead.append hclass).append hmembers).append clear_brace

theorem typeText_name {name : String} {mark : List Char} (hmark : mark = [] ∨ mark = ['!'])
    (hne : name.toList ≠ []) (hall : name.toList.all isNameLetter = true) (h : Q name) :
    TypeText (Reads Q) (mark ++ name.toList) := by
  have hnone : ∀ a ∈ [], TypeText (Reads Q) a := fun a ha => absurd ha List.not_mem_nil
  have hread : Reads Q name.toList := by simpa [Reads] using h
  simpa [arguments] using TypeText.named hmark hne hall hread hnone

def DefinesOver (Q : String → Prop) (s : Surface) (globals : List String) (d : Interface) : Prop :=
  ∀ t text, s.Defines globals d t text → TypeText (Reads Q) text.toList

variable {d : Interface}

theorem isTag_typedef {text : String} (h : TypeText (Reads Q) text.toList) :
    IsTag Q ("@typedef " ++ braces text) :=
  (carries_typedef text).isTag (tagged_of_typeText h)

theorem clear_field {f : Field} (hname : isBareKey f.name = true)
    (h : TypeText (Reads Q) (s.fieldType globals f).toList) :
    Clear Q ["* " ++ f.name ++ ":" ++ s.fieldType globals f] := by
  have hline : ("* " ++ f.name ++ ":" ++ s.fieldType globals f).toList
      = '*' :: ' ' :: (f.name.toList ++ ':' :: (s.fieldType globals f).toList) := by
    simp
  refine clear_of_docType ?_
  rw [docType_field hline (all_isNameLetter_of_isBareKey hname)]
  exact h.mentions

theorem clear_typedef (h : DefinesOver Q s globals d)
    (hnames : ∀ f ∈ s.flatten d, isBareKey f.name = true) : Clear Q (typedef s globals d) := by
  have hbody : Clear Q (typedefBody s globals d) := by
    unfold typedefBody
    split
    · have hfields : Clear Q ((s.flatten d).map
          fun f => "* " ++ f.name ++ ":" ++ s.fieldType globals f) := by
        rw [clear_iff]
        intro line hline
        obtain ⟨f, hf, rfl⟩ := List.mem_map.1 hline
        exact clear_field (hnames f hf) (h _ _ (.field hf))
      have hopen : Clear Q ["* @typedef \x7b\x7b"] :=
        clear_of_docType (Mentions.cons (c := '\x7b') (by decide) mentions_nil)
      have hclose : Clear Q ["* \x7d\x7d"] := clear_of_docType mentions_nil
      exact (hopen.append hfields).append hclose
    · next t hshape =>
        have htag := (isTag_typedef (h _ _ (.alias hshape))).clear 0 "* " rfl
        rwa [← String.append_assoc] at htag
  have hcomment : Clear Q ["// @ts-ignore we export this for Closure not TS"] :=
    clear_of_docType (by rw [show docType _ = [] by decide]; exact mentions_nil)
  have hstart : Begins 0 'e' "export let " := ⟨_, rfl⟩
  have hexport : Clear Q ["export let " ++ d.name ++ "; // eslint-disable-line no-unused-vars"] :=
    clear_code ((hstart.append _).append _) (by decide)
  exact clear_open.cons (hbody.append (clear_close.append (hcomment.append hexport)))

theorem clear_enumObject (hstring : Q "string") (hnumber : Q "number") (d : Enumeration) :
    Clear Q (enumObject d) := by
  have hkind : TypeText (Reads Q) (enumKind d).toList := by
    unfold enumKind
    split
    · exact typeText_name (.inl rfl) (by decide) (by decide) hstring
    · exact typeText_name (.inl rfl) (by decide) (by decide) hnumber
  have htag : IsTag Q ("@enum " ++ braces (enumKind d)) :=
    ⟨"enum ".toList, [], enumKind d, tagged_of_typeText hkind, by simp, by simp [braces]⟩
  have hdoc := htag.clear 0 "* " rfl
  rw [← String.append_assoc] at hdoc
  have hmembers : Clear Q (d.members.map
      fun m => "  " ++ objectKey m.name ++ ": " ++ valueText m.value ++ ",") := by
    rw [clear_iff]
    intro line hline
    obtain ⟨m, -, rfl⟩ := List.mem_map.1 hline
    simpa [String.append_assoc] using clear_key (Q := Q) m.name (": " ++ valueText m.value ++ ",")
  have hstart : Begins 0 'e' "export const " := ⟨_, rfl⟩
  have hexport : Clear Q ["export const " ++ d.name ++ " = \x7b"] :=
    clear_code ((hstart.append _).append _) (by decide)
  have hend : Clear Q ["\x7d;"] := clear_of_docType mentions_nil
  exact ((clear_open.append (hdoc.append (clear_close.append hexport))).append hmembers).append hend

theorem typeText_facade (hs : ∃ name : Name, s.component.name = name.text)
    (h : Q s.component.facadeName) :
    TypeText (Reads Q) ("!" ++ s.component.facadeName).toList := by
  rw [String.toList_append]
  exact typeText_name (.inr rfl) (by simp [Component.facadeName]) (Surface.facadeName_isName hs) h

def returnLine (c : Component) : String :=
  "  return /** @type " ++ braces ("!" ++ c.facadeName) ++ " */  (" ++ construction c ++ ");"

theorem toList_returnLine (c : Component) : (returnLine c).toList = "  return /** @type ".toList
    ++ '\x7b' :: (("!" ++ c.facadeName).toList
      ++ '\x7d' :: (" */  ".toList ++ '(' :: ((construction c).toList ++ ");".toList))) := by
  have hmiddle : " */  (".toList = " */  ".toList ++ ['('] := by simp
  unfold returnLine braces
  simp only [String.toList_append, List.append_assoc, hmiddle]
  rfl

theorem clear_creatorFunction (hs : ∃ name : Name, s.component.name = name.text)
    (h : SignsOver Q s globals) (hfacade : Q s.component.facadeName) :
    Clear Q (creatorFunction s globals) := by
  have hparams : Clear Q ((paramTags s globals s.component.params).map ("* " ++ ·)) := by
    rw [clear_iff]
    intro line hline
    obtain ⟨tag, htag, rfl⟩ := List.mem_map.1 hline
    have htag := isTag_paramTags (fun p hp text htext => h _ _ (.creatorParam hp htext)) tag htag
    exact htag.clear 0 "* " rfl
  have htagged := tagged_of_typeText (typeText_facade hs hfacade)
  have hreturn := (isTag_returnTag htagged).clear 0 "* " rfl
  have hstart : Begins 0 'e' "export function " := ⟨_, rfl⟩
  have hfunction : Clear Q ["export function " ++ creatorName s.component ++ "("
      ++ paramNames s.component.params ++ ") \x7b"] :=
    clear_code ((((hstart.append _).append _).append _).append _) (by decide)
  have hreturns : Begins 2 'r' "  return /** @type " := ⟨_, rfl⟩
  have hcast : Clear Q [returnLine s.component] :=
    clear_code ((((hreturns.append _).append _).append _).append _) (by decide)
  rw [returnTag, ← String.append_assoc] at hreturn
  exact clear_open.cons (hparams.append
    (hreturn.append (clear_close.append (hfunction.append (hcast.append clear_brace)))))

theorem eq_returnLine {line : String} (hline : line ∈ creatorFunction s globals)
    (hcast : "  return /** @type ".toList.isPrefixOf line.toList = true) :
    line = returnLine s.component := by
  have hspace : line.toList.head? = some ' ' := by
    obtain ⟨rest, hrest⟩ := List.isPrefixOf_iff_prefix.1 hcast
    rw [← hrest]
    rfl
  have other {c : Char} (h : Begins 0 c line) (hc : c ≠ ' ') : False := by
    obtain ⟨rest, htext⟩ := h
    rw [htext] at hspace
    exact hc (Option.some.inj hspace)
  have hstar : Begins 0 '*' "* " := ⟨_, rfl⟩
  have hreturn : Begins 0 '*' "* @return " := ⟨_, rfl⟩
  have hexport : Begins 0 'e' "export function " := ⟨_, rfl⟩
  rcases List.mem_append.1 hline with hline | hline
  · rcases List.mem_cons.1 hline with rfl | hline
    · exact (other ⟨_, rfl⟩ (by decide)).elim
    · obtain ⟨tag, -, rfl⟩ := List.mem_map.1 hline
      exact (other (hstar.append tag) (by decide)).elim
  · simp only [List.mem_cons, List.not_mem_nil, or_false] at hline
    rcases hline with rfl | rfl | rfl | rfl | rfl
    · exact (other (hreturn.append _) (by decide)).elim
    · exact (other ⟨_, rfl⟩ (by decide)).elim
    · exact (other ((((hexport.append _).append _).append _).append _) (by decide)).elim
    · rfl
    · exact (other ⟨_, rfl⟩ (by decide)).elim

theorem forall_castNames (hs : ∃ name : Name, s.component.name = name.text)
    (hfacade : Q s.component.facadeName) :
    ∀ name ∈ castNames (creatorFunction s globals), Q name := by
  intro name hname
  obtain ⟨line, hline, hname⟩ := List.mem_flatMap.1 hname
  have htext := typeText_facade hs hfacade
  refine forall_typeNames ?_ name hname
  unfold castType
  split
  · next hcast =>
      have hread : tagType (returnLine s.component).toList
          = ("!" ++ s.component.facadeName).toList := by
        have hword : '\x7b' ∉ "  return /** @type ".toList := by simp
        rw [toList_returnLine]
        exact tagType_eq hword htext.nested
      rw [eq_returnLine hline hcast, hread]
      exact htext.mentions
  · exact mentions_nil

theorem dropWhile_returnLine (hs : ∃ name : Name, s.component.name = name.text) :
    (returnLine s.component).toList.dropWhile (· != '(')
      = '(' :: ((construction s.component).toList ++ ");".toList) := by
  have hname : ∀ c ∈ s.component.facadeName.toList, (c != '(') = true := by
    intro c hc
    refine bne_iff_ne.2 ?_
    rintro rfl
    exact absurd (List.all_eq_true.1 (Surface.facadeName_isName hs) _ hc) (by decide)
  have hbefore : ∀ c ∈ "  return /** @type ".toList ++ '\x7b' ::
      (("!" ++ s.component.facadeName).toList ++ '\x7d' :: " */  ".toList), (c != '(') = true := by
    simp only [String.toList_append, List.forall_mem_append, List.forall_mem_cons]
    exact ⟨List.all_eq_true.1 (by simp), by decide,
      ⟨List.all_eq_true.1 (by simp), hname⟩, by decide,
      List.all_eq_true.1 (by simp)⟩
  rw [toList_returnLine]
  simpa only [List.append_assoc, List.cons_append] using
    @dropWhile_append_of (· != '(') _ ((construction s.component).toList ++ ");".toList) '('
      hbefore (by decide)

theorem construction_cases (c : Component) :
    (∃ rest, (construction c).toList = 'd' :: rest) ∨ c.isConstructed = true ∧
      ∃ rest, (construction c).toList = 'n' :: 'e' :: 'w' :: ' ' :: (c.name.toList ++ '(' :: rest) := by
  unfold construction
  split
  · exact .inl ⟨_, by simp; rfl⟩
  · next hnone =>
      refine .inr ⟨?_, (paramNames c.params).toList ++ [')'], by simp⟩
      unfold Component.isConstructed at hnone ⊢
      cases htag : c.tag with
      | none => simp
      | some tag => simpa [htag] using hnone tag

theorem constructedClass_creator (hs : ∃ name : Name, s.component.name = name.text) {name : String}
    (h : name ∈ (creatorFunction s globals).filterMap constructedClass?) :
    s.component.isConstructed = true ∧ name = s.component.name := by
  obtain ⟨line, hline, hname⟩ := List.mem_filterMap.1 h
  unfold constructedClass? at hname
  split at hname
  · next hcast =>
      rw [eq_returnLine hline hcast, dropWhile_returnLine hs] at hname
      rcases construction_cases s.component with ⟨rest, hrest⟩ | ⟨hconstructed, rest, hrest⟩
      · simp [hrest] at hname
      · refine ⟨hconstructed, ?_⟩
        obtain ⟨componentName, hcomponent⟩ := hs
        have hletters : ∀ c ∈ s.component.name.toList, isNameLetter c = true := by
          rw [hcomponent]
          exact List.all_eq_true.1 componentName.word.all_isNameLetter
        have hread : (s.component.name.toList ++ '(' :: (rest ++ ");".toList)).takeWhile isNameLetter
            = s.component.name.toList := by
          rw [List.takeWhile_append_of_pos hletters,
            List.takeWhile_cons_of_neg (by decide), List.append_nil]
        simp only [hrest, List.cons_append, List.append_assoc, hread, Option.some.injEq] at hname
        rw [← hname, String.ofList_toList]
  · exact absurd hname (by simp)

end ElementBridge.Bridge
