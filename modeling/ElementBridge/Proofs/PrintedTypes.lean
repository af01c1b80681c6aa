import ElementBridge.Proofs.PrintedText
import ElementBridge.Proofs.SurfaceTypes

namespace ElementBridge

namespace TypeExpr

theorem eq_null_of_isNull {t : TypeExpr} (h : t.isNull = true) : t = .primitive .null := by
  unfold isNull at h
  split at h
  · rfl
  · cases h

/-- Types whose references are names with dots and whose fields are bare keys. -/
inductive WellNamed : TypeExpr → Prop where
  | primitive (p : Primitive) : WellNamed (.primitive p)
  | reference (name : DottedName) {args : List TypeExpr} :
      (∀ t ∈ args, WellNamed t) → WellNamed (.reference name.text args)
  | array {t : TypeExpr} : WellNamed t → WellNamed (.array t)
  | union {ts : List TypeExpr} : (∀ t ∈ ts, WellNamed t) → WellNamed (.union ts)
  | function {params : List TypeExpr} {result : TypeExpr} : (∀ t ∈ params, WellNamed t) →
      WellNamed result → WellNamed (.function params result)
  | record {fields : List Field} : (∀ f ∈ fields, Text.isBareKey f.name = true) →
      (∀ f ∈ fields, WellNamed f.type) → WellNamed (.record fields)

theorem WellNamed.alternatives {t : TypeExpr} (h : WellNamed t) :
    ∀ u ∈ t.alternatives, WellNamed u := by
  cases h with
  | union hts => exact hts
  | primitive p => exact fun u hu => List.mem_singleton.1 hu ▸ .primitive p
  | reference name hargs => exact fun u hu => List.mem_singleton.1 hu ▸ .reference name hargs
  | array ht => exact fun u hu => List.mem_singleton.1 hu ▸ .array ht
  | function hps hr => exact fun u hu => List.mem_singleton.1 hu ▸ .function hps hr
  | record hnames hfields => exact fun u hu => List.mem_singleton.1 hu ▸ .record hnames hfields

theorem wellNamed_kept : Kept WellNamed where
  primitive := .primitive
  named {name args} hargs := by
    unfold named
    split
    · next element _ => exact .array (hargs element List.mem_cons_self)
    · exact .reference name hargs
  array := .array
  union {ts} hts := .union fun u hu => by
    obtain ⟨t, ht, hu⟩ := List.mem_flatMap.1 hu
    exact (hts t ht).alternatives u hu
  function := .function
  record hfields := .record (fun f hf => (hfields f hf).1) fun f hf => (hfields f hf).2
  unionOf {ts} hts := by
    have hall : ∀ u ∈ (ts.flatMap TypeExpr.alternatives).eraseDups, WellNamed u := by
      intro u hu
      obtain ⟨t, ht, hu⟩ := List.mem_flatMap.1 (List.mem_eraseDups.1 hu)
      exact (hts t ht).alternatives u hu
    unfold unionOf
    split
    · next t hone => exact hall t (by simp [hone])
    · exact .union hall

inductive IsPart (u : TypeExpr) : TypeExpr → Prop where
  | self : IsPart u u
  | argument {name : String} {args : List TypeExpr} {t : TypeExpr} :
      t ∈ args → IsPart u t → IsPart u (.reference name args)
  | element {t : TypeExpr} : IsPart u t → IsPart u (.array t)
  | member {ts : List TypeExpr} {t : TypeExpr} : t ∈ ts → IsPart u t → IsPart u (.union ts)
  | parameter {params : List TypeExpr} {result t : TypeExpr} :
      t ∈ params → IsPart u t → IsPart u (.function params result)
  | result {params : List TypeExpr} {t : TypeExpr} :
      IsPart u t → IsPart u (.function params t)
  | field {fields : List Field} {f : Field} :
      f ∈ fields → IsPart u f.type → IsPart u (.record fields)

theorem IsPart.trans {t u v : TypeExpr} (h : IsPart t u) (h' : IsPart u v) : IsPart t v := by
  induction h' with
  | self => exact h
  | argument hmem _ ih => exact .argument hmem ih
  | element _ ih => exact .element ih
  | member hmem _ ih => exact .member hmem ih
  | parameter hmem _ ih => exact .parameter hmem ih
  | result _ ih => exact .result ih
  | field hmem _ ih => exact .field hmem ih

theorem WellNamed.part {t u : TypeExpr} (h : WellNamed t) (hu : IsPart u t) : WellNamed u := by
  induction hu with
  | self => exact h
  | argument hmem _ ih =>
      cases h with
      | reference _ hargs => exact ih (hargs _ hmem)
  | element _ ih =>
      cases h with
      | array ht => exact ih ht
  | member hmem _ ih =>
      cases h with
      | union hts => exact ih (hts _ hmem)
  | parameter hmem _ ih =>
      cases h with
      | function hps _ => exact ih (hps _ hmem)
  | result _ ih =>
      cases h with
      | function _ hr => exact ih hr
  | field hmem _ ih =>
      cases h with
      | record _ hfields => exact ih (hfields _ hmem)

end TypeExpr

namespace ClosureType

def arguments (args : List (List Char)) : List Char :=
  if args.isEmpty then [] else '<' :: ([',', ' '].intercalate args ++ ['>'])

def fieldText (field : List Char × List Char) : List Char := field.1 ++ ':' :: ' ' :: field.2

/-- The syntax of printed types over names of which `P` holds. -/
inductive TypeText (P : List Char → Prop) : List Char → Prop where
  | any {args : List (List Char)} : (∀ a ∈ args, TypeText P a) → TypeText P ('*' :: arguments args)
  | named {mark name : List Char} {args : List (List Char)} : mark = [] ∨ mark = ['!'] →
      name ≠ [] → name.all isNameLetter = true → P name → (∀ a ∈ args, TypeText P a) →
      TypeText P (mark ++ (name ++ arguments args))
  | nullable {t : List Char} : TypeText P t → TypeText P ('?' :: t)
  | union {ts : List (List Char)} : (∀ t ∈ ts, TypeText P t) →
      TypeText P ('(' :: (['|'].intercalate ts ++ [')']))
  | function {params : List (List Char)} {result : List Char} : (∀ t ∈ params, TypeText P t) →
      TypeText P result → TypeText P ("function".toList
        ++ ('(' :: ([',', ' '].intercalate params ++ [')']) ++ (':' :: ' ' :: result)))
  | record {fields : List (List Char × List Char)} : (∀ f ∈ fields, f.1.all isNameLetter = true) →
      (∀ f ∈ fields, TypeText P f.2) →
      TypeText P ('\x7b' :: ([',', ' '].intercalate (fields.map fieldText) ++ ['\x7d']))

variable {P : List Char → Prop} {text : List Char}

/-- Properties of texts that carry over from the parts of a printed type to the whole. -/
structure Composes (R : List Char → Prop) : Prop where
  nil : R []
  append {a b : List Char} : R a → R b → R (a ++ b)
  name {text : List Char} : text.all isNameLetter = true → R text
  mark {c : Char} : c ∈ ['*', '!', '?', ':', ' '] → R [c]
  bracket {o c : Char} {separator : List Char} {texts : List (List Char)} :
    (o, c, separator) ∈ [('(', ')', ['|']), ('(', ')', [',', ' ']), ('<', '>', [',', ' ']),
      ('\x7b', '\x7d', [',', ' '])] →
    (∀ t ∈ texts, R t) → R (o :: (separator.intercalate texts ++ [c]))

theorem TypeText.composes {R : List Char → Prop} (hR : Composes R) (h : TypeText P text) :
    R text := by
  have mark {c : Char} {rest : List Char} (hc : c ∈ ['*', '!', '?', ':', ' ']) (h : R rest) :
      R (c :: rest) := hR.append (hR.mark hc) h
  have arguments {args : List (List Char)} (h : ∀ a ∈ args, R a) : R (arguments args) := by
    unfold ClosureType.arguments
    split
    · exact hR.nil
    · exact hR.bracket (by decide) h
  have typed {rest : List Char} (h : R rest) : R (':' :: ' ' :: rest) :=
    mark (by decide) (mark (by decide) h)
  induction h with
  | any _ ih => exact mark (by decide) (arguments ih)
  | named hmark _ hname _ _ ih =>
      have hbody := hR.append (hR.name hname) (arguments ih)
      rcases hmark with rfl | rfl
      · exact hbody
      · exact mark (by decide) hbody
  | nullable _ ih => exact mark (by decide) ih
  | union _ ih => exact hR.bracket (by decide) ih
  | @function params result _ _ ih ih' =>
      have hparams : R ('(' :: ([',', ' '].intercalate params ++ [')'])) :=
        hR.bracket (by decide) ih
      exact hR.append (hR.name (by decide)) (hR.append hparams (typed ih'))
  | @record fields hnames _ ih =>
      refine hR.bracket (by decide) fun t ht => ?_
      obtain ⟨f, hf, rfl⟩ := List.mem_map.1 ht
      exact hR.append (hR.name (hnames f hf)) (typed (ih f hf))

theorem composes_sealed : Composes Sealed where
  nil := sealed_nil
  append := Sealed.append
  name := sealed_of_name
  mark {c} hc := by
    have hall : ∀ c ∈ ['*', '!', '?', ':', ' '], isQuiet c = true := List.all_eq_true.1 (by decide)
    exact sealed_nil.cons (hall c hc)
  bracket {o c separator texts} hkind h := by
    have hbalanced (t : List Char) (ht : t ∈ texts) : Balanced t := (h t ht).balanced
    have hcomma : Balanced [',', ' '] := (sealed_of_quiet rfl).balanced
    simp only [List.mem_cons, List.not_mem_nil, or_false, Prod.mk.injEq] at hkind
    rcases hkind with ⟨rfl, rfl, rfl⟩ | ⟨rfl, rfl, rfl⟩ | ⟨rfl, rfl, rfl⟩ | ⟨rfl, rfl, rfl⟩
    · exact (balanced_intercalate hbalanced balanced_bar).bracket rfl rfl
    · exact (balanced_intercalate hbalanced hcomma).bracket rfl rfl
    · exact (balanced_intercalate hbalanced hcomma).bracket rfl rfl
    · exact (balanced_intercalate hbalanced hcomma).bracket rfl rfl

theorem mentions_list {texts : List (List Char)} (h : ∀ t ∈ texts, Mentions P t) :
    Mentions P ([',', ' '].intercalate texts) :=
  mentions_intercalate h (by decide) (by decide)

theorem Mentions.bracket {o c : Char} (ho : isNameLetter o = false)
    (hc : isNameLetter c = false ∧ c ≠ ':' ∧ c ≠ '(') (h : Mentions P text) :
    Mentions P (o :: (text ++ [c])) :=
  Mentions.cons ho (h.then mentions_nil hc)

theorem TypeText.mentions (h : TypeText P text) : Mentions P text := by
  have arguments {name : List Char} {args : List (List Char)} (hname : Mentions P name)
      (hargs : ∀ a ∈ args, Mentions P a) : Mentions P (name ++ arguments args) := by
    unfold ClosureType.arguments
    split
    · simpa using hname
    · exact hname.then ((mentions_list hargs).then mentions_nil (by decide)) (by decide)
  induction h with
  | any _ ih => exact Mentions.cons (by decide) (by simpa using arguments mentions_nil ih)
  | named hmark hne hname hP _ ih =>
      have hbody := arguments (mentions_name hne hname hP) ih
      rcases hmark with rfl | rfl
      · exact hbody
      · exact Mentions.cons (by decide) hbody
  | nullable _ ih => exact Mentions.cons (by decide) ih
  | union _ ih =>
      exact (mentions_intercalate ih (by decide) (by decide)).bracket (by decide) (by decide)
  | @function params result _ _ ih ih' =>
      have hresult := Mentions.cons (c := ':') rfl (Mentions.cons (c := ' ') rfl ih')
      have hbody := (mentions_list ih).then (c := ')') hresult (by decide)
      have hlabel : "function".toList.all isNameLetter = true := by decide
      simpa using Mentions.label hlabel (.inr rfl) hbody
  | @record fields hnames _ ih =>
      refine (mentions_list fun t ht => ?_).bracket (by decide) (by decide)
      obtain ⟨f, hf, rfl⟩ := List.mem_map.1 ht
      exact Mentions.label (hnames f hf) (.inl rfl) (Mentions.cons (by decide) (ih f hf))

theorem TypeText.dropBang (h : TypeText P text) : TypeText P (text.dropWhile (· == '!')) := by
  have other {c : Char} {rest : List Char} (hc : c ≠ '!') (h : TypeText P (c :: rest)) :
      TypeText P ((c :: rest).dropWhile (· == '!')) := by
    simpa [hc] using h
  cases h with
  | any hargs => exact other (by decide) (.any hargs)
  | @named mark name args hmark hne hname hP hargs =>
      obtain ⟨c, rest, rfl⟩ := List.exists_cons_of_ne_nil hne
      have hc : c ≠ '!' := by
        rintro rfl
        exact absurd hname (by simp [show isNameLetter '!' = false by decide])
      have hbare := other hc (.named (.inl rfl) hne hname hP hargs)
      rcases hmark with rfl | rfl
      · exact hbare
      · simpa using hbare
  | nullable ht => exact other (by decide) (.nullable ht)
  | union hts => exact other (by decide) (.union hts)
  | function hps hr => exact other (by decide) (.function hps hr)
  | record hnames hfields => exact other (by decide) (.record hnames hfields)

end ClosureType

namespace Surface

open ClosureType

variable {s : Surface} {globals : List String} {P : List Char → Prop}

def builtinNames : List String :=
  ["string", "number", "boolean", "void", "undefined", "null", "Object", "Array"]

def shownName (s : Surface) (globals : List String) (name : String) : List String :=
  match s.resolve globals name with
  | some .component => [s.component.facadeName]
  | some (.primitive _) => []
  | _ => [name]

section Shown

variable (s : Surface) (globals : List String)

mutual

/-- The names that a type is printed with, those of built-in types apart. A union that admits
everything is printed without any. -/
def shown : TypeExpr → List String
  | .primitive _ => []
  | .reference name args => s.shownName globals name ++ shownAll args
  | .array element => shown element
  | .union members =>
      if s.closureType globals (.union members) = "*" then [] else shownAll members
  | .function params result => shownAll params ++ shown result
  | .record fields => shownFields fields

def shownAll : List TypeExpr → List String
  | [] => []
  | t :: ts => shown t ++ shownAll ts

def shownFields : List (Slot TypeExpr) → List String
  | [] => []
  | ⟨_, t, _⟩ :: fs => shown t ++ shownFields fs

end

theorem shownAll_eq_flatMap (ts : List TypeExpr) :
    shownAll s globals ts = ts.flatMap (shown s globals) := by
  induction ts with
  | nil => rfl
  | cons t ts ih => simp [shownAll, ih]

theorem shownFields_eq_flatMap (fs : List Field) :
    shownFields s globals fs = fs.flatMap (shown s globals ·.type) := by
  induction fs with
  | nil => rfl
  | cons f fs ih => cases f; simp [shownFields, ih]

end Shown

theorem exists_of_mem_shown {t : TypeExpr} (ht : t.WellNamed) {name : String}
    (h : name ∈ s.shown globals t) : ∃ n ∈ t.references, name ∈ s.shownName globals n := by
  have inAll {ts : List TypeExpr}
      (ih : ∀ t ∈ ts, name ∈ s.shown globals t →
        ∃ n ∈ t.references, name ∈ s.shownName globals n)
      (h : name ∈ s.shownAll globals ts) :
      ∃ n ∈ TypeExpr.referencesAll ts, name ∈ s.shownName globals n := by
    rw [shownAll_eq_flatMap] at h
    obtain ⟨t, ht, h⟩ := List.mem_flatMap.1 h
    obtain ⟨n, hn, hname⟩ := ih t ht h
    rw [TypeExpr.referencesAll_eq_flatMap]
    exact ⟨n, List.mem_flatMap.2 ⟨t, ht, hn⟩, hname⟩
  induction ht with
  | primitive p => exact absurd h List.not_mem_nil
  | reference n _ ih =>
      rw [shown, List.mem_append] at h
      rw [TypeExpr.references]
      rcases h with h | h
      · exact ⟨n.text, List.mem_cons_self, h⟩
      · obtain ⟨m, hm, hname⟩ := inAll ih h
        exact ⟨m, List.mem_cons_of_mem _ hm, hname⟩
  | array _ ih => exact ih h
  | union _ ih =>
      rw [shown] at h
      split at h
      · exact absurd h List.not_mem_nil
      · exact inAll ih h
  | function _ _ ih ih' =>
      rw [shown, List.mem_append] at h
      rw [TypeExpr.references]
      rcases h with h | h
      · obtain ⟨n, hn, hname⟩ := inAll ih h
        exact ⟨n, List.mem_append_left _ hn, hname⟩
      · obtain ⟨n, hn, hname⟩ := ih' h
        exact ⟨n, List.mem_append_right _ hn, hname⟩
  | record _ _ ih =>
      rw [shown, shownFields_eq_flatMap] at h
      obtain ⟨f, hf, h⟩ := List.mem_flatMap.1 h
      obtain ⟨n, hn, hname⟩ := ih f hf h
      rw [TypeExpr.references, TypeExpr.referencesFields_eq_flatMap]
      exact ⟨n, List.mem_flatMap.2 ⟨f, hf, hn⟩, hname⟩

theorem facadeName_isName (hs : ∃ name : Name, s.component.name = name.text) :
    s.component.facadeName.toList.all isNameLetter = true := by
  obtain ⟨name, hname⟩ := hs
  rw [Component.facadeName, hname, String.toList_append, List.all_append, Name.text,
    name.word.all_isNameLetter]
  decide

theorem toList_generic (base : String) (args : List String) :
    (generic base args).toList = base.toList ++ arguments (args.map String.toList) := by
  unfold generic arguments commas
  cases args with
  | nil => simp
  | cons a args => simp [String.toList_intercalate]

theorem typeText_primitive (hP : ∀ name ∈ builtinNames, P name.toList) (p : Primitive)
    (args : List (List Char)) (hargs : ∀ a ∈ args, TypeText P a) :
    TypeText P (p.closureType.toList ++ arguments args) := by
  have plain (name : String) (hname : name ∈ builtinNames) {mark : List Char}
      (hmark : mark = [] ∨ mark = ['!']) :
      TypeText P (mark ++ (name.toList ++ arguments args)) := by
    have hall : ∀ name ∈ builtinNames, name.toList ≠ [] ∧ name.toList.all isNameLetter = true := by
      decide
    exact .named hmark (hall name hname).1 (hall name hname).2 (hP name hname) hargs
  cases p with
  | string => exact plain "string" (by decide) (.inl rfl)
  | number => exact plain "number" (by decide) (.inl rfl)
  | boolean => exact plain "boolean" (by decide) (.inl rfl)
  | void => exact plain "void" (by decide) (.inl rfl)
  | undefined => exact plain "undefined" (by decide) (.inl rfl)
  | null => exact plain "null" (by decide) (.inl rfl)
  | any => exact .any hargs
  | unknown => exact .any hargs
  | never => exact .any hargs
  | object => exact plain "Object" (by decide) (.inr rfl)

theorem typeText_toLists {texts : List String} (h : ∀ t ∈ texts, TypeText P t.toList) :
    ∀ t ∈ texts.map String.toList, TypeText P t := by
  intro t ht
  obtain ⟨u, hu, rfl⟩ := List.mem_map.1 ht
  exact h u hu

theorem typeText_union {texts : List String} (h : ∀ t ∈ texts, TypeText P t.toList) :
    TypeText P (ClosureType.union texts).toList := by
  have hdistinct : ∀ t ∈ texts.eraseDups, TypeText P t.toList := fun t ht =>
    h t (List.mem_eraseDups.1 ht)
  unfold ClosureType.union
  generalize texts.eraseDups = distinct at hdistinct ⊢
  have htexts := typeText_toLists hdistinct
  simp only
  split
  · exact .any fun a ha => absurd ha List.not_mem_nil
  · rcases distinct with - | ⟨t, - | ⟨u, rest⟩⟩
    · exact TypeText.union htexts
    · exact hdistinct t List.mem_cons_self
    · simpa [String.toList_intercalate] using TypeText.union htexts

theorem typeText_nullable {t : String} (h : TypeText P t.toList) :
    TypeText P (nullable t).toList := by
  unfold nullable
  split
  · exact h
  · simpa using TypeText.nullable h.dropBang

theorem nameType_cases (s : Surface) (globals : List String) (name : String) :
    (∃ mark, (mark = "" ∨ mark = "!") ∧ s.nameType globals name = mark ++ name ∧
      s.shownName globals name = [name]) ∨
    (s.nameType globals name = "!" ++ s.component.facadeName ∧
      s.shownName globals name = [s.component.facadeName]) ∨
    ∃ p : Primitive, s.nameType globals name = p.closureType ∧
      s.shownName globals name = [] := by
  unfold nameType shownName
  rcases s.resolve globals name with - | ⟨d | d | - | p | - | - | ⟨module, symbol⟩⟩
  · exact .inl ⟨"!", .inr rfl, rfl, rfl⟩
  · exact .inl ⟨"!", .inr rfl, rfl, rfl⟩
  · exact .inl ⟨"", .inl rfl, by rw [String.empty_append]; rfl, rfl⟩
  · exact .inr (.inl ⟨rfl, rfl⟩)
  · exact .inr (.inr ⟨p, rfl, rfl⟩)
  · exact .inl ⟨"!", .inr rfl, rfl, rfl⟩
  · exact .inl ⟨"!", .inr rfl, rfl, rfl⟩
  · exact .inl ⟨"!", .inr rfl, rfl, rfl⟩

theorem typeText_reference (hs : ∃ name : Name, s.component.name = name.text) {name : DottedName}
    (hbuiltin : ∀ name ∈ builtinNames, P name.toList)
    (hP : ∀ printed ∈ s.shownName globals name.text, P printed.toList)
    {args : List (List Char)} (hargs : ∀ a ∈ args, TypeText P a) :
    TypeText P ((s.nameType globals name.text).toList ++ arguments args) := by
  rcases s.nameType_cases globals name.text with
    ⟨mark, hmark, hprinted, hnames⟩ | ⟨hprinted, hnames⟩ | ⟨p, hprinted, -⟩
  · rw [hnames] at hP
    have hmark' : mark.toList = [] ∨ mark.toList = ['!'] :=
      hmark.imp (fun h => by rw [h]; rfl) fun h => by rw [h]; rfl
    have htext := TypeText.named hmark' name.toList_ne_nil name.all_isNameLetter
      (hP _ List.mem_cons_self) hargs
    rwa [hprinted, String.toList_append, List.append_assoc]
  · rw [hnames] at hP
    have hne : s.component.facadeName.toList ≠ [] := by
      simp [Component.facadeName]
    have htext := TypeText.named (P := P) (.inr rfl) hne (facadeName_isName hs)
      (hP _ List.mem_cons_self) hargs
    rwa [hprinted, String.toList_append, List.append_assoc]
  · rw [hprinted]
    exact typeText_primitive hbuiltin p args hargs

theorem typeText_orUndefined (hP : P "undefined".toList) {t : String} (h : TypeText P t.toList) :
    TypeText P (orUndefined t).toList := by
  have hundefined : TypeText P "undefined".toList := by
    have hname := TypeText.named (.inl rfl) (by simp) (by decide) hP
      fun a (ha : a ∈ []) => absurd ha List.not_mem_nil
    simpa [arguments] using hname
  have hunion : TypeText P ('(' :: (['|'].intercalate [t.toList, "undefined".toList] ++ [')'])) :=
    .union fun u hu => by
      rcases List.mem_pair.1 hu with rfl | rfl
      · exact h
      · exact hundefined
  simpa [orUndefined, List.intercalate_cons_cons] using hunion

theorem typeText_optional (hP : P "undefined".toList) {t : String} (h : TypeText P t.toList)
    {optional : Bool} : TypeText P (if optional then orUndefined t else t).toList := by
  cases optional with
  | false => exact h
  | true => exact typeText_orUndefined hP h

theorem typeText_array (hbuiltin : ∀ name ∈ builtinNames, P name.toList) {t : TypeExpr}
    (h : TypeText P (s.closureType globals t).toList) :
    TypeText P (s.closureType globals (.array t)).toList := by
  have hname : "Array".toList ≠ [] ∧ "Array".toList.all isNameLetter = true := by
    decide
  have hargs : ∀ a ∈ [(s.closureType globals t).toList], TypeText P a := fun a ha =>
    List.mem_singleton.1 ha ▸ h
  have htext := TypeText.named (.inr rfl) hname.1 hname.2 (hbuiltin "Array" (by decide)) hargs
  rw [closureType]
  simpa [arguments] using htext

theorem typeText_unionType {ts : List TypeExpr}
    (h : ∀ text ∈ s.closureTypes globals ts, TypeText P text.toList) :
    TypeText P (s.closureType globals (.union ts)).toList := by
  rw [closureType]
  split
  · next t _ hone =>
      have htext : t ∈ s.closureTypesButNull globals ts := by simp [hone]
      rw [closureTypesButNull_eq] at htext
      obtain ⟨u, hu, rfl⟩ := List.mem_map.1 htext
      refine typeText_nullable (h _ ?_)
      rw [closureTypes_eq_map]
      exact List.mem_map_of_mem (List.mem_of_mem_filter hu)
  · exact typeText_union h

theorem typeText_record {fields : List Field} (hnames : ∀ f ∈ fields, Text.isBareKey f.name = true)
    (htypes : ∀ f ∈ fields, TypeText P (s.fieldType globals f).toList) :
    TypeText P (s.closureType globals (.record fields)).toList := by
  have hrecord := @TypeText.record P
    (fields.map fun f => (f.name.toList, (s.fieldType globals f).toList)) ?_ ?_
  · rw [closureType, fieldTypes_eq_map]
    simpa [braces, commas, String.toList_intercalate, fieldText, Function.comp_def] using hrecord
  · intro field hfield
    obtain ⟨f, hf, rfl⟩ := List.mem_map.1 hfield
    exact Text.all_isNameLetter_of_isBareKey (hnames f hf)
  · intro field hfield
    obtain ⟨f, hf, rfl⟩ := List.mem_map.1 hfield
    exact htypes f hf

theorem typeText_of_shown (hs : ∃ name : Name, s.component.name = name.text) {t : TypeExpr}
    (ht : t.WellNamed) (hbuiltin : ∀ name ∈ builtinNames, P name.toList)
    (hP : ∀ name ∈ s.shown globals t, P name.toList) :
    TypeText P (s.closureType globals t).toList := by
  have texts {ts : List TypeExpr}
      (ih : ∀ t ∈ ts, (∀ name ∈ s.shown globals t, P name.toList) →
        TypeText P (s.closureType globals t).toList)
      (hP : ∀ name ∈ s.shownAll globals ts, P name.toList) :
      ∀ text ∈ s.closureTypes globals ts, TypeText P text.toList := by
    intro text htext
    rw [closureTypes_eq_map] at htext
    obtain ⟨t, ht, rfl⟩ := List.mem_map.1 htext
    rw [shownAll_eq_flatMap] at hP
    exact ih t ht fun name hname => hP name (List.mem_flatMap.2 ⟨t, ht, hname⟩)
  induction ht with
  | primitive p =>
      rw [closureType]
      simpa [arguments] using typeText_primitive hbuiltin p [] fun a ha => absurd ha List.not_mem_nil
  | @reference name args _ ih =>
      rw [shown, List.forall_mem_append] at hP
      rw [closureType, toList_generic]
      exact typeText_reference hs hbuiltin hP.1 (typeText_toLists (texts ih hP.2))
  | @array t _ ih => exact typeText_array hbuiltin (ih hP)
  | @union ts _ ih =>
      -- a union that is printed as `*` shows no name of its members
      rw [shown] at hP
      by_cases hany : s.closureType globals (.union ts) = "*"
      · rw [hany]
        exact .any fun a ha => absurd ha List.not_mem_nil
      · rw [if_neg hany] at hP
        exact typeText_unionType (texts ih hP)
  | @function params result _ _ ih ih' =>
      rw [shown, List.forall_mem_append] at hP
      have hparams := typeText_toLists (texts ih hP.1)
      have hresult := ih' hP.2
      rw [closureType]
      simpa [commas, String.toList_intercalate] using TypeText.function hparams hresult
  | @record fields hnames _ ih =>
      rw [shown, shownFields_eq_flatMap] at hP
      refine typeText_record hnames fun f hf => ?_
      have htype := ih f hf fun name hname => hP name (List.mem_flatMap.2 ⟨f, hf, hname⟩)
      exact typeText_optional (hbuiltin "undefined" (by decide)) htype

theorem composes_closureType {R : List Char → Prop} (hR : Composes R)
    (hs : ∃ name : Name, s.component.name = name.text) {t : TypeExpr} (ht : t.WellNamed) :
    R (s.closureType globals t).toList :=
  (typeText_of_shown (P := fun _ => True) hs ht (fun _ _ => trivial) fun _ _ => trivial).composes hR

end Surface

end ElementBridge
