import ElementBridge.Proofs.CopiedText
import ElementBridge.Proofs.ImportStatements
import ElementBridge.Proofs.ImportedWords
import ElementBridge.Proofs.StubLines
import ElementBridge.Proofs.UnquotedCode
import ElementBridge.Proofs.WrittenSources

namespace ElementBridge

open Scan Text

namespace Bridge

def keyTexts (name : String) : List String := if isBareKey name then [] else [name]

end Bridge

def EnumValue.quoted : EnumValue → List String
  | .text value => [value]
  | .number _ _ => []

def EnumMember.quoted (m : EnumMember) : List String := Bridge.keyTexts m.name ++ m.value.quoted

def Enumeration.quoted (d : Enumeration) : List String := d.members.flatMap EnumMember.quoted

def Member.quoted (m : Member) : List String :=
  m.capabilities.flatMap fun _ => Bridge.keyTexts m.name

def Component.quoted (c : Component) : List String :=
  match c.tag, c.isConstructed with
  | some tag, false => [tag]
  | _, _ => []

/-- All that is quoted in a bridge, in its order. -/
def Surface.quoted (s : Surface) : List String :=
  (s.enums.filter (s.isReferenced ·.name)).flatMap Enumeration.quoted
    ++ s.members.flatMap Member.quoted ++ s.component.quoted

/-- What a bridge takes over as it is, from the configuration or from where the source may have
it in quotes, has no quote marks. -/
structure Surface.TakesUnquoted (s : Surface) (config : Config) : Prop where
  header : ∀ line ∈ config.headerLines, Unquoted line.toList
  exports : ∀ entry ∈ s.imports, Unquoted entry.2.imported.toList

namespace Bridge

variable {s : Surface} (globals : List String) {d : Enumeration} {m : Member} {c : Component}
  {before : String}

theorem holds_objectKey (name : String) : Holds (objectKey name).toList (keyTexts name) := by
  unfold objectKey keyTexts
  split
  · next h => exact holds_of_unquoted (unquoted_of_name (all_isNameLetter_of_isBareKey h))
  · exact holds_quote name

theorem holds_valueText {value : EnumValue}
    (h : value.Plain) : Holds (valueText value).toList value.quoted := by
  cases value with
  | text text => exact holds_quote text
  | number value numeral => exact holds_of_unquoted (h value numeral rfl)

theorem holdEach_enumObject (hname : ∃ name : Name, d.name = name.text)
    (hplain : ∀ m ∈ d.members, m.value.Plain) :
    HoldEach (enumObject d) d.quoted := by
  obtain ⟨name, hname⟩ := hname
  have hkind : Unquoted (enumKind d).toList := by
    unfold enumKind
    split <;> simp
  have hhead : HoldEach ["/**", "* @enum " ++ ClosureType.braces (enumKind d), "*/",
      "export const " ++ d.name ++ " = \x7b"] [] := by
    refine holdEach_of_unquoted ?_
    simp [ClosureType.braces, hkind, hname, name.unquoted]
  have hmembers : HoldEach (d.members.map
      fun m => "  " ++ objectKey m.name ++ ": " ++ valueText m.value ++ ",") d.quoted := by
    refine holdEach_map fun m hm => ?_
    have hkey := (holds_objectKey m.name).inside "  " ": "
      (by simp) (by simp)
    have hvalue := (holds_valueText (hplain m hm)).inside "" ","
      (by simp) (by simp)
    simpa [EnumMember.quoted] using hkey.append hvalue
  have hend : HoldEach ["\x7d;"] [] := holdEach_of_unquoted (by simp)
  rw [← List.append_nil d.quoted]
  exact (hhead.append hmembers).append hend

theorem holdEach_stub {tags : List String} (htags : ∀ tag ∈ tags, Unquoted tag.toList)
    (name before after : String) (hbefore : Unquoted before.toList)
    (hafter : Unquoted after.toList) :
    HoldEach (docBlock tags ++ [before ++ objectKey name ++ after]) (keyTexts name) :=
  (holdEach_of_unquoted (unquoted_docBlock htags)).append
    (.single ((holds_objectKey name).inside before after hbefore hafter))

theorem holdEach_methodStub (hs : ∃ name : Name, s.component.name = name.text)
    (hm : m.Has TypeExpr.WellNamed) (hnames : AreNamed m.params) :
    HoldEach (methodStub s globals m) (keyTexts m.name) := by
  have htags := List.forall_mem_append.2
    ⟨unquoted_paramTags globals hs hnames fun p hp => hm.param hp,
      unquoted_resultTags globals hs fun t ht => hm.result ht⟩
  have hstub := holdEach_stub htags m.name "  "
    ("(" ++ paramNames m.params ++ ")" ++ emptyBody) (by simp)
    (by simp [unquoted_paramNames hnames, emptyBody])
  simpa only [String.append_assoc, methodStub] using hstub

theorem holdEach_setterStub (hs : ∃ name : Name, s.component.name = name.text)
    (hm : m.Has TypeExpr.WellNamed) (hnames : AreNamed m.params) :
    HoldEach (setterStub s globals m) (keyTexts m.name) := by
  have hparam := unquoted_setterParam hnames
  have htags : ∀ tag ∈ [paramTag (accessorType s globals m) (setterParam m)],
      Unquoted tag.toList := by
    simpa using unquoted_paramTag (unquoted_accessorType globals hs hm) hparam
  have hstub := holdEach_stub htags m.name "  set "
    ("(" ++ setterParam m ++ ")" ++ emptyBody) (by simp) (by simp [hparam, emptyBody])
  simpa only [String.append_assoc, setterStub] using hstub

theorem holdEach_getterStub (hs : ∃ name : Name, s.component.name = name.text)
    (hm : m.Has TypeExpr.WellNamed) : HoldEach (getterStub s globals m) (keyTexts m.name) := by
  have htags : ∀ tag ∈ [returnTag (accessorType s globals m)], Unquoted tag.toList := by
    simpa using unquoted_returnTag (unquoted_accessorType globals hs hm)
  have hstub := holdEach_stub htags m.name "  get " ("()" ++ emptyBody)
    (by simp) (by simp [emptyBody])
  simpa only [String.append_assoc, getterStub] using hstub

theorem holdEach_stubs (hs : ∃ name : Name, s.component.name = name.text)
    (hm : m.Has TypeExpr.WellNamed) (hnames : AreNamed m.params) :
    HoldEach (stubs s globals m) m.quoted := by
  have hset := holdEach_setterStub globals hs hm hnames
  have hget := holdEach_getterStub globals hs hm
  unfold stubs Member.quoted Member.capabilities
  cases m.kind with
  | method => simpa using holdEach_methodStub globals hs hm hnames
  | property =>
      cases m.readonly with
      | true => simpa using hget
      | false => simpa using hset.append hget
  | getter => simpa using hget
  | setter => simpa using hset

theorem holdEach_facadeClass (hs : s.Has TypeExpr.WellNamed)
    (hbase : Unquoted s.component.hostBase.toList) (hnames : ∀ m ∈ s.members, AreNamed m.params) :
    HoldEach (facadeClass s globals) (s.members.flatMap Member.quoted) := by
  have hhead : HoldEach ["// eslint-disable-next-line no-unused-vars",
      "class " ++ s.component.facadeName ++ " extends " ++ s.component.hostBase ++ " \x7b"] [] := by
    refine holdEach_of_unquoted ?_
    simp [unquoted_facadeName hs.component, hbase]
  have hstubs : HoldEach (s.members.flatMap (stubs s globals)) (s.members.flatMap Member.quoted) :=
    holdEach_flatMap fun m hm => holdEach_stubs globals hs.component (hs.members m hm) (hnames m hm)
  have hend : HoldEach ["\x7d"] [] := holdEach_of_unquoted (by simp)
  rw [← List.append_nil (s.members.flatMap Member.quoted)]
  exact (hhead.append hstubs).append hend

theorem holds_construction (hname : ∃ name : Name, c.name = name.text)
    (hnames : AreNamed c.params) : Holds (construction c).toList c.quoted := by
  obtain ⟨name, hname⟩ := hname
  have hnew : Holds ("new " ++ c.name ++ "(" ++ paramNames c.params ++ ")").toList [] :=
    holds_of_unquoted (by simp [hname, name.unquoted, unquoted_paramNames hnames])
  unfold construction Component.quoted
  cases c.tag with
  | none => exact hnew
  | some tag =>
      cases c.isConstructed with
      | true => exact hnew
      | false =>
          exact (holds_quote tag).inside "document.createElement(" ")" (by simp) (by simp)

theorem holdEach_creatorFunction (hs : s.Has TypeExpr.WellNamed)
    (hnames : AreNamed s.component.params) :
    HoldEach (creatorFunction s globals) s.component.quoted := by
  have hfacade := unquoted_facadeName hs.component
  have htags : ∀ tag ∈ (paramTags s globals s.component.params).map ("* " ++ ·),
      Unquoted tag.toList := by
    refine List.forall_mem_map.2 fun tag htag => ?_
    simp [unquoted_paramTags globals hs.component hnames hs.params tag htag]
  have hhead : HoldEach ("/**" :: (paramTags s globals s.component.params).map ("* " ++ ·)
      ++ ["* @return " ++ ClosureType.braces ("!" ++ s.component.facadeName), "*/",
        "export function " ++ creatorName s.component ++ "(" ++ paramNames s.component.params
          ++ ") \x7b"]) [] := by
    refine holdEach_of_unquoted
      (List.forall_mem_append.2 ⟨List.forall_mem_cons.2 ⟨by simp, htags⟩, ?_⟩)
    simp [ClosureType.braces, hfacade, unquoted_creatorName hs.component,
      unquoted_paramNames hnames]
  have hreturn := (holds_construction hs.component hnames).inside
    ("  return /** @type " ++ ClosureType.braces ("!" ++ s.component.facadeName) ++ " */  (") ");"
    (by simp [ClosureType.braces, hfacade]) (by simp)
  have hend : HoldEach ["\x7d"] [] := holdEach_of_unquoted (by simp)
  rw [← List.nil_append s.component.quoted, ← List.append_nil ([] ++ s.component.quoted)]
  have hall := (hhead.append (.single hreturn)).append hend
  simpa [creatorFunction] using hall

namespace ModuleImports

variable {module line : String} {m : ModuleImports}

def NamesUnquoted (m : ModuleImports) : Prop := ∀ name exported, m.Gives name exported →
  Unquoted name.toList ∧ ∀ imported ∈ exported, Unquoted imported.toList

theorem NamesUnquoted.clauses (h : m.NamesUnquoted) :
    ∀ clause ∈ m.clauses, Unquoted clause.toList := by
  intro clause hclause
  rw [clauses_eq] at hclause
  rcases List.mem_append.1 hclause with hfirst | hbraces
  · exact (h clause (some "default") (.inl ⟨rfl, Option.mem_toList.1 hfirst⟩)).1
  · have hentry : ∀ entry ∈ m.named.map namedText, Unquoted entry.toList := by
      refine List.forall_mem_map.2 fun pair hpair => ?_
      obtain ⟨hname, hexport⟩ := h pair.1 (some pair.2) (.inr hpair)
      unfold namedText
      split
      · exact hname
      · simp [hname, hexport pair.2 rfl]
    split at hbraces
    · exact absurd hbraces List.not_mem_nil
    · obtain rfl := List.mem_singleton.1 hbraces
      have hjoined : Unquoted (String.intercalate ", " (m.named.map namedText)).toList :=
        unquoted_joined (by simp) hentry
      simpa [braces] using hjoined

theorem NamesUnquoted.exists_before (h : m.NamesUnquoted) (hline : line ∈ m.lines module) :
    ∃ before : String, Unquoted before.toList ∧ line = before ++ fromText module := by
  rw [lines_eq] at hline
  obtain ⟨form, hform, rfl⟩ := List.mem_map.1 hline
  rcases mem_forms hform with ⟨name, hname, rfl⟩ | ⟨rfl, -⟩ | ⟨rfl, -⟩
  · refine ⟨"import * as " ++ name ++ " from ", ?_, rfl⟩
    simp [(h name none hname).1]
  · exact ⟨"import ", by simp, rfl⟩
  · refine ⟨"import " ++ String.intercalate ", " m.clauses ++ " from ", ?_, rfl⟩
    have hjoined : Unquoted (String.intercalate ", " m.clauses).toList :=
      unquoted_joined (by simp) h.clauses
    simpa using hjoined

end ModuleImports

open ModuleImports

variable {config : Config} {module line : String}

/-- A line denotes its specifier if and only if the letters of the specifier stand for themselves
between quotes. -/
theorem literals_fromText (h : Unquoted before.toList) :
    literals (before ++ fromText module) = some [points module] ↔
      module.toList.all (isPlain '\x27') = true := by
  have hread : literals (before ++ fromText module)
      = literalsFrom 0 ('\x27' :: (module.toList ++ '\x27' :: [';'])) := by
    rw [literals, String.toList_append, literalsFrom_append h]
    simp [fromText]
  rw [hread, literalsFrom, if_pos (by decide)]
  constructor
  · intro hvalue
    refine (read_specifier (by decide : '\x27' ∉ [';'])).1 ?_
    split at hvalue
    · cases hvalue
    · next units length hbody =>
        obtain ⟨rest, -, hrest⟩ := Option.map_eq_some_iff.1 hvalue
        exact ⟨units, length, hbody, (List.cons.inj hrest).1⟩
  · intro hplain
    rw [stringBody_plain hplain]
    change (literalsFrom _ _).map _ = _
    rw [literalsFrom_skip (by simp), joinSurrogates_toNat]
    simp [points, literalsFrom, isQuoteMark]

theorem isQuotable_of_plain (h : module.toList.all (isPlain '\x27') = true) :
    isQuotable module = true := by
  rw [isQuotable, Bool.not_eq_true', ← Bool.not_eq_true, List.contains_iff_mem]
  exact fun hreturn => absurd (List.all_eq_true.1 h _ hreturn) (by decide)

theorem quote_of_plain (h : module.toList.all (isPlain '\x27') = true) :
    (Text.quote module).toList = '\x27' :: (module.toList ++ ['\x27']) := by
  have hletters : quotedLetters module.toList = module.toList := by
    refine (List.flatMap_congr fun c hc => ?_).trans (List.flatMap_pure_eq_map id _ |>.trans
      (List.map_id _))
    have hplain := List.all_eq_true.1 h c hc
    simp only [isPlain, Bool.and_eq_true, bne_iff_ne] at hplain
    simp [quotedLetter, hplain]
  simp [Text.quote, hletters]

theorem holds_fromText (h : Unquoted before.toList)
    (hplain : module.toList.all (isPlain '\x27') = true) :
    Holds (before ++ fromText module).toList [module] := by
  have hline := (holds_quote module).inside before ";" h (by simp)
  rw [String.toList_append, String.toList_append, quote_of_plain hplain] at hline
  simpa [fromText] using hline

def specifiers (s : Surface) (config : Config) : List String :=
  (moduleImports s config).flatMap fun entry => (entry.2.lines entry.1).map fun _ => entry.1

theorem namesUnquoted_of_mem {m : ModuleImports}
    (hnames : ∀ entry ∈ s.imports, isIdentifier entry.1 = true)
    (hcomponent : ∃ name : Name, s.component.name = name.text)
    (hreachable : s.component.isConstructed = true → s.component.export ≠ .unexported)
    (hm : (module, m) ∈ moduleImports s config)
    (hexports : ∀ pair ∈ m.named, Unquoted pair.2.toList) : m.NamesUnquoted := by
  have hbound {name : String} {exported : Option String} (hgives : m.Gives name exported) :
      Unquoted name.toList := by
    rcases gives_of_mem hreachable hm hgives with ⟨symbol, hsymbol, -⟩ | ⟨rfl, -⟩
    · exact unquoted_of_isIdentifier (hnames _ hsymbol)
    · obtain ⟨letters, hletters⟩ := hcomponent
      rw [hletters]
      exact letters.unquoted
  intro name exported hgives
  refine ⟨hbound hgives, fun imported himported => ?_⟩
  subst himported
  rcases hgives with ⟨rfl, -⟩ | hnamed
  · simp
  · exact hexports _ hnamed

theorem unquoted_named_of_mem {m : ModuleImports}
    (hcomponent : ∃ name : Name, s.component.name = name.text)
    (hreachable : s.component.isConstructed = true → s.component.export ≠ .unexported)
    (hm : (module, m) ∈ moduleImports s config)
    (hexports : ∀ entry ∈ s.imports, Unquoted entry.2.imported.toList) :
    ∀ pair ∈ m.named, Unquoted pair.2.toList := by
  intro pair hpair
  have hgives : m.Gives pair.1 (some pair.2) := .inr hpair
  rcases gives_of_mem hreachable hm hgives with
    ⟨symbol, hsymbol, -, hexport⟩ | ⟨-, hexport⟩
  · exact (export?_eq_some.1 hexport).2 ▸ hexports _ hsymbol
  · rw [Option.some.inj hexport]
    unfold Component.exportName
    split
    · simp
    · obtain ⟨letters, hletters⟩ := hcomponent
      rw [hletters]
      exact letters.unquoted

theorem holds_joinLines {lines : Lines} {xs : List String} (h : HoldEach lines xs) :
    Holds (joinLines lines).toList xs := h.intercalate "\n" (by simp)

theorem literals_render {b : Bridge} {header : Lines} {xs ys : List String}
    (hheader : ∀ line ∈ header, Unquoted line.toList) (himports : HoldEach b.imports xs)
    (hcode : HoldEach ((b.types ++ [b.facade, b.creator]).map joinLines) ys) :
    literals (b.render header) = if (xs ++ ys).all isQuotable then some ((xs ++ ys).map points)
      else none := by
  have hjoined {lines : Lines} {zs : List String} (h : HoldEach lines zs) :
      HoldEach (([lines].filter (!·.isEmpty)).map joinLines) zs := by
    cases h with
    | nil => exact .nil
    | cons htext hmore => exact .single (holds_joinLines (.cons htext hmore))
  have hblocks := ((hjoined (holdEach_of_unquoted hheader)).append (hjoined himports)).append hcode
  have hall := (hblocks.intercalate "\n\n" (by simp)).append
    (holds_of_unquoted (by simp : Unquoted ['\n']))
  have hfilter : [header, b.imports].filter (!·.isEmpty)
      = [header].filter (!·.isEmpty) ++ [b.imports].filter (!·.isEmpty) :=
    List.filter_append [header] [b.imports]
  refine Holds.literals ?_
  simpa [render, blocks, hfilter] using hall

end Bridge

namespace Registration

theorem isQuotable_of_isTag {tag : String} (h : isTag tag = true) : isQuotable tag = true := by
  have hplain : ∀ c ∈ tag.toList, isTagLetter c = true ∨ c = '-' := by
    unfold isTag at h
    split at h
    · cases h
    · next c rest heq =>
        obtain ⟨hfirst, hmore⟩ := Bool.and_eq_true_iff.1 h
        rw [heq]
        refine List.forall_mem_cons.2 ⟨.inl (by simp [isTagLetter, hfirst]), ?_⟩
        split at hmore
        · next more hdash =>
            rw [← List.takeWhile_append_dropWhile (p := isTagLetter) (l := rest), hdash]
            intro d hd
            rcases List.mem_append.1 hd with hd | hd
            · exact .inl (List.all_eq_true.1 List.all_takeWhile d hd)
            · rcases List.mem_cons.1 hd with rfl | hd
              · exact .inr rfl
              · simpa using List.all_eq_true.1 hmore d hd
        · cases hmore
  rw [isQuotable, Bool.not_eq_true', ← Bool.not_eq_true, List.contains_iff_mem]
  intro hreturn
  rcases hplain _ hreturn with hletter | hletter
  · exact absurd hletter (by decide)
  · exact absurd hletter (by decide)

theorem isTag_of_tagOf {name tag : String} {rs : List Registration}
    (h : tagOf name rs = some tag) : isTag tag = true := by
  obtain ⟨r, hr, rfl⟩ := Option.map_eq_some_iff.1 h
  have hfound : (r.className == name && isTag r.tag) = true :=
    List.find?_some (p := fun r : Registration => r.className == name && isTag r.tag) hr
  exact (Bool.and_eq_true_iff.1 hfound).2

end Registration

namespace Surface

open Bridge

variable {config : Config} {disk : Disk} {file : SourceFile} {s : Surface}

theorem holdEach_types (globals : List String) (hs : s.Has TypeExpr.WellNamed)
    (hplain : ∀ d ∈ s.enums, ∀ m ∈ d.members, m.value.Plain) :
    HoldEach ((typeBlocks s globals).map joinLines)
      ((s.enums.filter (s.isReferenced ·.name)).flatMap Enumeration.quoted) := by
  have htypedefs : HoldEach (((s.interfaces.filter (s.isReferenced ·.name)).map
      (typedef s globals)).map joinLines) [] := by
    refine holdEach_of_unquoted (List.forall_mem_map.2 (List.forall_mem_map.2 fun d hd => ?_))
    rw [joinLines]
    exact unquoted_joined (by simp)
      (unquoted_typedef globals hs (List.mem_of_mem_filter hd))
  have henums : HoldEach (((s.enums.filter (s.isReferenced ·.name)).map enumObject).map joinLines)
      ((s.enums.filter (s.isReferenced ·.name)).flatMap Enumeration.quoted) := by
    rw [List.map_map]
    refine holdEach_map fun d hd => ?_
    have hmem := List.mem_of_mem_filter hd
    exact holds_joinLines (holdEach_enumObject (hs.enums d hmem) (hplain d hmem))
  rw [typeBlocks, List.map_append]
  exact htypedefs.append henums

theorem isQuotable_tag (hs : file.surface config disk = .ok s) {tag : String}
    (h : s.component.tag = some tag) : isQuotable tag = true := by
  obtain ⟨m, ⟨o⟩⟩ := origin_of_ok hs
  rw [o.progress.same.component] at h
  exact Registration.isQuotable_of_isTag (Registration.isTag_of_tagOf h)

theorem holdEach_code (hs : file.surface config disk = .ok s) :
    HoldEach (((ofSurface config s).types ++ [(ofSurface config s).facade,
      (ofSurface config s).creator]).map joinLines) s.quoted := by
  have hnamed := has_of_surface TypeExpr.wellNamed_kept hs
  obtain ⟨hparams, hmembers⟩ := areNamed_of_surface hs
  have hfacade := holds_joinLines
    (holdEach_facadeClass config.globalTypes hnamed (unquoted_hostBase hs) hmembers)
  have hcreator := holds_joinLines (holdEach_creatorFunction config.globalTypes hnamed hparams)
  have htypes := holdEach_types config.globalTypes hnamed (plain_values hs)
  have hall := (htypes.append (.single hfacade)).append (.single hcreator)
  simpa [quoted, ofSurface] using hall

theorem export_of_isConstructed (hs : file.surface config disk = .ok s)
    (hconstructed : s.component.isConstructed = true) : s.component.export ≠ .unexported := by
  obtain ⟨m, ⟨o⟩⟩ := origin_of_ok hs
  have hreachable := o.reachable
  intro hkind
  simp [hconstructed, hkind] at hreachable

theorem exists_before_of_mem (hs : file.surface config disk = .ok s)
    {entry : String × ModuleImports} (hentry : entry ∈ moduleImports s config)
    (hexports : ∀ pair ∈ entry.2.named, Unquoted pair.2.toList) {line : String}
    (hline : line ∈ entry.2.lines entry.1) : ∃ before : String, Unquoted before.toList ∧
      line = before ++ ModuleImports.fromText entry.1 :=
  (namesUnquoted_of_mem (isIdentifier_of_mem_imports hs)
    (has_of_surface TypeExpr.wellNamed_kept hs).component (export_of_isConstructed hs) hentry
    hexports).exists_before hline

theorem holdEach_imports (hs : file.surface config disk = .ok s) (hu : s.TakesUnquoted config)
    (hplain : ∀ entry ∈ moduleImports s config, entry.1.toList.all (isPlain '\x27') = true) :
    HoldEach (ofSurface config s).imports (specifiers s config) := by
  have hexports {entry : String × ModuleImports} (hentry : entry ∈ moduleImports s config) :
      ∀ pair ∈ entry.2.named, Unquoted pair.2.toList :=
    unquoted_named_of_mem (has_of_surface TypeExpr.wellNamed_kept hs).component
      (export_of_isConstructed hs) hentry hu.exports
  refine holdEach_flatMap fun entry hentry => ?_
  have hlist : HoldEach ((entry.2.lines entry.1).map id)
      ((entry.2.lines entry.1).flatMap fun _ => [entry.1]) := by
    refine holdEach_map fun line hline => ?_
    obtain ⟨before, hbefore, rfl⟩ := exists_before_of_mem hs hentry (hexports hentry) hline
    exact holds_fromText hbefore (hplain entry hentry)
  simpa [← List.map_eq_flatMap] using hlist

theorem isQuotable_specifiers
    (hplain : ∀ entry ∈ moduleImports s config, entry.1.toList.all (isPlain '\x27') = true) :
    (specifiers s config).all isQuotable = true := by
  refine List.all_eq_true.2 fun module hmodule => ?_
  obtain ⟨entry, hentry, hmodule⟩ := List.mem_flatMap.1 hmodule
  obtain ⟨line, -, rfl⟩ := List.mem_map.1 hmodule
  exact isQuotable_of_plain (hplain entry hentry)

/-- What is quoted in a bridge is read as what it was made from, as long as it has no carriage
return, and a tag never has one. Import specifiers are not quoted: a line denotes its own only
if nothing in it has to be escaped. The lines of the configuration and the names of exports are
all that could bring quote marks of their own. -/
theorem literals_of_surface (hs : file.surface config disk = .ok s) :
    (∀ text, literals (Text.quote text)
      = if isQuotable text then some [points text] else none) ∧
    (∀ tag ∈ s.component.tag, isQuotable tag = true) ∧
    (∀ entry ∈ moduleImports s config, (∀ pair ∈ entry.2.named, Unquoted pair.2.toList) →
      ∀ line ∈ entry.2.lines entry.1,
        literals line = some [points entry.1] ↔ entry.1.toList.all (isPlain '\x27') = true) ∧
    ((∀ line ∈ config.headerLines, Unquoted line.toList) →
      literals ({ ofSurface config s with imports := [] }.render config.headerLines)
        = if s.quoted.all isQuotable then some (s.quoted.map points) else none) ∧
    (s.TakesUnquoted config →
      (∀ entry ∈ moduleImports s config, entry.1.toList.all (isPlain '\x27') = true) →
      literals ((ofSurface config s).render config.headerLines) = if s.quoted.all isQuotable
        then some ((specifiers s config ++ s.quoted).map points) else none) := by
  have hcode := holdEach_code hs
  refine ⟨fun text => ?_, fun tag htag => isQuotable_tag hs htag,
    fun entry hentry hexports line hline => ?_, fun hheader => ?_, fun hu hplain => ?_⟩
  · simpa using (holds_quote text).literals
  · obtain ⟨before, hbefore, rfl⟩ := exists_before_of_mem hs hentry hexports hline
    exact literals_fromText hbefore
  · have himports : HoldEach ({ ofSurface config s with imports := [] } : Bridge).imports [] := .nil
    have hread := literals_render hheader himports hcode
    exact hread
  · rw [literals_render hu.header (holdEach_imports hs hu hplain) hcode, List.all_append,
      isQuotable_specifiers hplain, Bool.true_and]

def quotingSource : SourceFile where
  path := ⟨"a.ts"⟩
  text := "import \x7bX\x7d from './x.js';enum E\x7b'a b'='it\\'s',B='\\\\'\x7d"
    ++ "customElements.define('my-a',A);export class A extends HTMLElement"
    ++ "\x7b'\"m\"'(e:E,x:X)\x7b\x7d\x7d"

def quotingSurface : Surface where
  fileName := "a"
  interfaces := []
  enums := [⟨"E", [⟨"a b", .text "it's"⟩, ⟨"B", .text "\\"⟩]⟩]
  component := ⟨"A", "HTMLElement", .named, none, some "my-a"⟩
  members := [⟨"\"m\"", .method, [⟨"e", .reference "E" [], false⟩, ⟨"x", .reference "X" [], false⟩],
    none, .implied, false, false⟩]
  imports := [("X", ⟨"./x.js", "X", false⟩)]
  referenced := ["E"]

theorem literals_quotingSource : quotingSource.surface .standard ⟨[], []⟩ = .ok quotingSurface ∧
    quotingSurface.TakesUnquoted .standard ∧
    literals ((ofSurface .standard quotingSurface).render Config.standard.headerLines)
      = some (["./a.js", "./x.js", "a b", "it's", "\\", "\"m\"", "my-a"].map points) := by
  have hs : quotingSource.surface .standard ⟨[], []⟩ = .ok quotingSurface := by
    have hsome : (quotingSource.surface .standard ⟨[], []⟩).toOption = some quotingSurface := by
      rw [SourceFile.surface,
        quotingSource.parse_eq_elim (ofList_append (ofList_append rfl rfl) rfl)]
      decide +kernel
    exact eq_ok_of_toOption hsome
  have hu : quotingSurface.TakesUnquoted .standard :=
    ⟨by simp [Config.standard], by simp [quotingSurface]⟩
  have hplain : ∀ entry ∈ moduleImports quotingSurface .standard,
      entry.1.toList.all (isPlain '\x27') = true := by
    decide +kernel
  have hquotable : quotingSurface.quoted.all isQuotable = true := by decide +kernel
  have htexts : specifiers quotingSurface .standard ++ quotingSurface.quoted
      = ["./a.js", "./x.js", "a b", "it's", "\\", "\"m\"", "my-a"] := by
    decide +kernel
  obtain ⟨-, -, -, -, hread⟩ := literals_of_surface hs
  refine ⟨hs, hu, ?_⟩
  rw [hread hu hplain, if_pos hquotable, htexts]

def crackedSource : SourceFile where
  path := ⟨"it's.ts"⟩
  text := "import \x7bX\x7d from \"it's.js\";enum E\x7bB='a\\rb'\x7d"
    ++ "export class A extends HTMLElement\x7bm(e:E,x:X)\x7b\x7d\x7d"

def crackedSurface : Surface where
  fileName := "it's"
  interfaces := []
  enums := [⟨"E", [⟨"B", .text "a\rb"⟩]⟩]
  component := ⟨"A", "HTMLElement", .named, none, none⟩
  members := [⟨"m", .method, [⟨"e", .reference "E" [], false⟩, ⟨"x", .reference "X" [], false⟩],
    none, .implied, false, false⟩]
  imports := [("X", ⟨"it's.js", "X", false⟩)]
  referenced := ["E"]

/-- Neither of the import lines can be read, nor the line of the member of the enum. -/
theorem literals_crackedSource : crackedSource.surface .standard ⟨[], []⟩ = .ok crackedSurface ∧
    specifiers crackedSurface .standard = ["./it's.js", "it's.js"] ∧
    crackedSurface.quoted = ["a\rb"] ∧
    (ofSurface .standard crackedSurface).imports.map literals = [none, none] ∧
    (ofSurface .standard crackedSurface).types.map (·.map literals)
      = [[some [], some [], some [], some [], none, some []]] := by
  have hs : (crackedSource.surface .standard ⟨[], []⟩).toOption = some crackedSurface := by
    rw [SourceFile.surface, crackedSource.parse_eq_elim (ofList_append rfl rfl)]
    decide +kernel
  refine ⟨eq_ok_of_toOption hs, ?_⟩
  decide +kernel

end Surface

end ElementBridge
