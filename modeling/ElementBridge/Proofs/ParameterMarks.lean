import ElementBridge.Proofs.ParameterLists

namespace ElementBridge

namespace ClosureType

theorem composes_not_mem {c : Char} (hname : isNameLetter c = false)
    (hmark : c ∉ ['*', '!', '?', ':', ' ', '(', ')', '<', '>', '\x7b', '\x7d', '|', ',']) :
    Composes (c ∉ ·) where
  nil := List.not_mem_nil
  append ha hb := by simp [ha, hb]
  name {text} htext hmem := by
    have hletter := List.all_eq_true.1 htext c hmem
    exact Bool.noConfusion (hname.symm.trans hletter)
  mark {d} hd := by
    have hmarks : ∀ d ∈ ['*', '!', '?', ':', ' '],
        d ∈ ['*', '!', '?', ':', ' ', '(', ')', '<', '>', '\x7b', '\x7d', '|', ','] := by
      simp
    exact fun hmem => hmark (List.mem_singleton.1 hmem ▸ hmarks d hd)
  bracket {o close separator texts} hkind h := by
    have hmarks : ∀ kind ∈ [('(', ')', ['|']), ('(', ')', [',', ' ']), ('<', '>', [',', ' ']),
        ('\x7b', '\x7d', [',', ' '])], ∀ d ∈ kind.1 :: kind.2.1 :: kind.2.2,
        d ∈ ['*', '!', '?', ':', ' ', '(', ')', '<', '>', '\x7b', '\x7d', '|', ','] := by
      simp
    have hout {d : Char} (hd : d ∈ o :: close :: separator) : c ≠ d :=
      fun heq => hmark (heq ▸ hmarks _ hkind d hd)
    have hseparator : c ∉ separator := fun hmem => hout (by simp [hmem]) rfl
    have happend {a b : List Char} (ha : c ∉ a) (hb : c ∉ b) : c ∉ a ++ b := by simp [ha, hb]
    have hinside := of_intercalate (R := (c ∉ ·)) List.not_mem_nil happend hseparator h
    simp [hinside, hout]

end ClosureType

namespace Surface

variable {s : Surface} (globals : List String)

theorem not_mem_closureType (hs : ∃ name : Name, s.component.name = name.text) {t : TypeExpr}
    (ht : t.WellNamed) : '=' ∉ (s.closureType globals t).toList :=
  composes_closureType (ClosureType.composes_not_mem (by decide) (by decide)) hs ht

theorem getLast?_paramType (hs : ∃ name : Name, s.component.name = name.text) {p : Param}
    (hp : p.type.WellNamed) :
    ((s.paramType globals p).toList.getLast? == some '=') = p.optional := by
  have htype := not_mem_closureType globals hs hp
  unfold paramType
  cases hoptional : p.optional with
  | false =>
      have hlast : (s.closureType globals p.type).toList.getLast? ≠ some '=' :=
        fun h => htype (List.mem_of_getLast? h)
      simpa using hlast
  | true =>
      cases p.type.isReference <;> simp

end Surface

namespace Bridge

open Text ClosureType

section Lines

variable {line : String} {a b lines : Lines}

def MarksLast (marks : List Bool) : Prop := marks.Pairwise fun a b => a = true → b = true

/-- In each list of tags the marked ones come last. -/
def LastMarked (lines : Lines) : Prop := ∀ marks ∈ markLists lines, MarksLast marks

theorem lastMarked_break (h : paramMark line = none) :
    LastMarked (a ++ line :: b) ↔ LastMarked a ∧ LastMarked b := by
  have hlists : markLists (a ++ line :: b) = markLists a ++ markLists b := by
    rw [markLists, List.splitOnP_append_cons a b (by simp [h]), List.map_append]
    rfl
  rw [LastMarked, hlists, List.forall_mem_append]
  rfl

theorem lastMarked_marks (marks : List Bool) (h : lines.map paramMark = marks.map some) :
    LastMarked lines ↔ MarksLast marks := by
  have hsome : ∀ line ∈ lines, (paramMark line).isNone = false := by
    intro line hline
    have hmem : paramMark line ∈ marks.map some := h ▸ List.mem_map_of_mem hline
    obtain ⟨mark, -, hmark⟩ := List.mem_map.1 hmem
    rw [← hmark]
    rfl
  have hmarks : lines.filterMap paramMark = marks := by
    have hread := congrArg (List.filterMap id) h
    simpa [List.filterMap_map] using hread
  rw [LastMarked, markLists, List.splitOnP_eq_singleton hsome, List.map_singleton, hmarks,
    List.forall_mem_singleton]

theorem lastMarked_nil : LastMarked [] := (lastMarked_marks [] rfl).2 .nil

theorem lastMarked_append_plain (h : ∀ line ∈ b, paramMark line = none) :
    LastMarked (a ++ b) ↔ LastMarked a := by
  induction b generalizing a with
  | nil => rw [List.append_nil]
  | cons line b ih =>
      obtain ⟨hline, hb⟩ := List.forall_mem_cons.1 h
      have hrest : LastMarked b := (ih (a := []) hb).2 lastMarked_nil
      rw [lastMarked_break hline, and_iff_left hrest]

theorem lastMarked_plain (h : ∀ line ∈ lines, paramMark line = none) : LastMarked lines :=
  (lastMarked_append_plain (a := []) h).2 lastMarked_nil

def Closes (lines : Lines) : Prop := ∃ front line, lines = front ++ [line] ∧ paramMark line = none

theorem Closes.append (h : Closes b) (a : Lines) : Closes (a ++ b) := by
  obtain ⟨front, line, rfl, hline⟩ := h
  exact ⟨a ++ front, line, (List.append_assoc ..).symm, hline⟩

theorem Closes.lastMarked_append (h : Closes a) :
    LastMarked (a ++ b) ↔ LastMarked a ∧ LastMarked b := by
  obtain ⟨front, line, rfl, hline⟩ := h
  rw [List.append_assoc, List.singleton_append, lastMarked_break hline,
    lastMarked_append_plain (b := [line]) (by simpa using hline)]

theorem lastMarked_flatMap {α : Type} {f : α → Lines} {as : List α} (h : ∀ x, Closes (f x)) :
    LastMarked (as.flatMap f) ↔ ∀ x ∈ as, LastMarked (f x) := by
  induction as with
  | nil => simp [lastMarked_nil]
  | cons x as ih => rw [List.flatMap_cons, (h x).lastMarked_append, ih, List.forall_mem_cons]

theorem paramMark_eq_none {c : Char} {rest : List Char}
    (h : line.toList.dropWhile (fun c => c == ' ' || c == '*') = c :: rest) (hc : c ≠ '@') :
    paramMark line = none := by
  rw [paramMark, h]
  simp [List.isPrefixOf?, hc.symm]

end Lines

section Tags

def IsLead (lead : String) : Prop := lead = "  * " ∨ lead = "* "

variable {lead : String}

theorem IsLead.dropWhile (h : IsLead lead) (text : List Char) :
    (lead.toList ++ '@' :: text).dropWhile (fun c => c == ' ' || c == '*') = '@' :: text := by
  rcases h with rfl | rfl <;> simp

theorem paramMark_return (h : IsLead lead) (type : String) :
    paramMark (lead ++ returnTag type) = none := by
  have hline : (lead ++ returnTag type).toList
      = lead.toList ++ '@' :: ("return ".toList ++ (braces type).toList) := by
    simp [returnTag]
  rw [paramMark, hline, h.dropWhile]
  simp [List.isPrefixOf?]

theorem paramMark_tag (h : IsLead lead) (type : String) {name : String}
    (hname : isIdentifier name = true) :
    paramMark (lead ++ paramTag type name) = some (type.toList.getLast? == some '=') := by
  have hline : (lead ++ paramTag type name).toList
      = lead.toList ++ '@' :: ("param \x7b".toList ++ (type.toList ++ '\x7d' :: ' ' :: name.toList)) := by
    simp [paramTag, braces]
  have hend : (name.toList.reverse ++ ' ' :: '\x7d' :: type.toList.reverse).dropWhile
      (· != '\x7d') = '\x7d' :: type.toList.reverse := by
    have hname : ∀ c ∈ name.toList.reverse, (c != '\x7d') = true := by
      intro c hc
      have hne : c ≠ '\x7d' :=
        fun heq => not_mem_name hname (by decide) (heq ▸ List.mem_reverse.1 hc)
      simpa using hne
    rw [List.dropWhile_append_of_pos hname]
    simp
  rw [paramMark, hline, h.dropWhile, ← List.head?_reverse]
  simp [List.isPrefixOf?, hend, List.head?_eq_getElem?]

end Tags

section Stubs

variable {s : Surface} (globals : List String) {m : Member} {params : List Param}

theorem paramMark_key {lead : String} {c : Char} {front : List Char}
    (hlead : lead.toList.dropWhile (fun c => c == ' ' || c == '*') = c :: front) (hc : c ≠ '@')
    (more : String) : paramMark (lead ++ more) = none := by
  have hdrop : (lead ++ more).toList.dropWhile (fun c => c == ' ' || c == '*')
      = c :: (front ++ more.toList) := by
    rw [String.toList_append, List.dropWhile_append, hlead]
    simp
  exact paramMark_eq_none hdrop hc

theorem paramMark_stub (name more : String) :
    paramMark ("  " ++ objectKey name ++ more) = none := by
  have hkey : ∃ c rest, (objectKey name).toList = c :: rest ∧
      c ≠ '@' ∧ (c == ' ' || c == '*') = false := by
    unfold objectKey
    split
    · next h =>
        obtain ⟨c, rest, htext, hstart, -⟩ := exists_of_isBareKey h
        refine ⟨c, rest, htext, ?_, ?_⟩
        · rintro rfl
          exact absurd hstart (by decide)
        · have hblank : c ≠ ' ' := fun heq => absurd (heq ▸ hstart) (by decide)
          have hstar : c ≠ '*' := fun heq => absurd (heq ▸ hstart) (by decide)
          simp [hblank, hstar]
    · exact ⟨'\x27', _, by simp [quote]; rfl, by decide, by decide⟩
  obtain ⟨c, rest, hkey, hat, hlead⟩ := hkey
  have hline : ("  " ++ objectKey name ++ more).toList = ' ' :: ' ' :: c :: (rest ++ more.toList) := by
    simp [hkey]
  have hdrop : ("  " ++ objectKey name ++ more).toList.dropWhile (fun c => c == ' ' || c == '*')
      = c :: (rest ++ more.toList) := by
    rw [hline]
    simp [hlead]
  exact paramMark_eq_none hdrop hat

theorem marks_paramTags {lead : String} (hlead : IsLead lead)
    (hs : ∃ name : Name, s.component.name = name.text) (hnames : AreNamed params)
    (htypes : ∀ p ∈ params, p.type.WellNamed) :
    ((paramTags s globals params).map (lead ++ ·)).map paramMark
      = (params.map (·.optional)).map some := by
  simp only [paramTags, List.map_map]
  refine List.map_congr_left fun p hp => ?_
  simp only [Function.comp_apply]
  rw [paramMark_tag hlead _ (hnames p hp), Surface.getLast?_paramType globals hs (htypes p hp)]

theorem lastMarked_tags {lead above : String} {after : Lines} (hlead : IsLead lead)
    (hs : ∃ name : Name, s.component.name = name.text) (hnames : AreNamed params)
    (htypes : ∀ p ∈ params, p.type.WellNamed) (habove : paramMark above = none)
    (hafter : ∀ line ∈ after, paramMark line = none) :
    LastMarked (above :: ((paramTags s globals params).map (lead ++ ·) ++ after))
      ↔ MarksLast (params.map (·.optional)) := by
  rw [← List.nil_append (above :: _), lastMarked_break habove, lastMarked_append_plain hafter,
    lastMarked_marks _ (marks_paramTags globals hlead hs hnames htypes)]
  exact and_iff_right lastMarked_nil

theorem lastMarked_methodStub (hs : ∃ name : Name, s.component.name = name.text)
    (hnames : AreNamed m.params) (htypes : ∀ p ∈ m.params, p.type.WellNamed) :
    LastMarked (methodStub s globals m) ↔ MarksLast (m.params.map (·.optional)) := by
  have hstub := paramMark_stub m.name ("(" ++ paramNames m.params ++ ")" ++ emptyBody)
  have hopen : paramMark "  /**" = none := by decide +kernel
  have hclose : paramMark "  */" = none := by decide +kernel
  have hresults : ∀ line ∈ (resultTags s globals m.result).map ("  * " ++ ·),
      paramMark line = none := by
    unfold resultTags
    split
    · exact fun line hline => absurd hline List.not_mem_nil
    · split
      · exact fun line hline => absurd hline List.not_mem_nil
      · exact List.forall_mem_singleton.2 (paramMark_return (.inl rfl) _)
  simp only [← String.append_assoc] at hstub
  unfold methodStub docBlock
  split
  · next hempty =>
      simp only [List.isEmpty_iff, List.append_eq_nil_iff, paramTags, List.map_eq_nil_iff] at hempty
      refine iff_of_true (lastMarked_plain (List.forall_mem_singleton.2 hstub)) ?_
      rw [hempty.1]
      exact .nil
  · rw [List.map_append, List.cons_append, List.cons_append, List.append_assoc, List.append_assoc]
    refine lastMarked_tags globals (.inl rfl) hs hnames htypes hopen ?_
    exact List.forall_mem_append.2 ⟨hresults, by simp [hclose, hstub]⟩

theorem paramMark_set (name more : String) :
    paramMark ("  set " ++ objectKey name ++ more) = none := by
  have hset : "  set ".toList.dropWhile (fun c => c == ' ' || c == '*') = 's' :: ['e', 't', ' '] := by
    decide
  rw [String.append_assoc]
  exact paramMark_key hset (by decide) _

theorem paramMark_get (name more : String) :
    paramMark ("  get " ++ objectKey name ++ more) = none := by
  have hget : "  get ".toList.dropWhile (fun c => c == ' ' || c == '*') = 'g' :: ['e', 't', ' '] := by
    decide
  rw [String.append_assoc]
  exact paramMark_key hget (by decide) _

theorem closes_methodStub (m : Member) : Closes (methodStub s globals m) := by
  have hstub := paramMark_stub m.name ("(" ++ paramNames m.params ++ ")" ++ emptyBody)
  simp only [← String.append_assoc] at hstub
  exact ⟨_, _, rfl, hstub⟩

theorem closes_setterStub (m : Member) : Closes (setterStub s globals m) := by
  have hstub := paramMark_set m.name ("(" ++ setterParam m ++ ")" ++ emptyBody)
  simp only [← String.append_assoc] at hstub
  exact ⟨_, _, rfl, hstub⟩

theorem closes_getterStub (m : Member) : Closes (getterStub s globals m) := by
  have hstub := paramMark_get m.name ("()" ++ emptyBody)
  simp only [← String.append_assoc] at hstub
  exact ⟨_, _, rfl, hstub⟩

theorem closes_stubs (m : Member) : Closes (stubs s globals m) := by
  unfold stubs
  cases m.kind with
  | method => exact closes_methodStub globals m
  | property => exact (closes_getterStub globals m).append _
  | getter => exact closes_getterStub globals m
  | setter => exact closes_setterStub globals m

theorem lastMarked_setterStub (hnames : AreNamed m.params) :
    LastMarked (setterStub s globals m) := by
  have hlead : IsLead "  * " := .inl rfl
  have htag := paramMark_tag hlead (accessorType s globals m) (isIdentifier_setterParam hnames)
  have hopen : paramMark "  /**" = none := by decide +kernel
  have hclose : paramMark "  */" = none := by decide +kernel
  have hstub := paramMark_set m.name ("(" ++ setterParam m ++ ")" ++ emptyBody)
  simp only [← String.append_assoc] at hstub
  have hone : LastMarked ["  * " ++ paramTag (accessorType s globals m) (setterParam m)] := by
    rw [lastMarked_marks [(accessorType s globals m).toList.getLast? == some '='] (by simp [htag])]
    exact List.pairwise_singleton ..
  have hafter : ∀ line ∈ ["  */", "  set " ++ objectKey m.name ++ "(" ++ setterParam m ++ ")"
      ++ emptyBody], paramMark line = none := by
    simp [hclose, hstub]
  have hbody := (lastMarked_append_plain hafter).2 hone
  exact (lastMarked_break (a := []) hopen).2 ⟨lastMarked_nil, hbody⟩

theorem lastMarked_getterStub (m : Member) : LastMarked (getterStub s globals m) := by
  have hlead : IsLead "  * " := .inl rfl
  have hopen : paramMark "  /**" = none := by decide +kernel
  have hclose : paramMark "  */" = none := by decide +kernel
  have htag := paramMark_return hlead (accessorType s globals m)
  have hstub := paramMark_get m.name ("()" ++ emptyBody)
  simp only [← String.append_assoc] at hstub
  refine lastMarked_plain ?_
  simp [getterStub, docBlock, hopen, hclose, htag, hstub]

theorem lastMarked_stubs (hs : ∃ name : Name, s.component.name = name.text)
    (hnames : AreNamed m.params) (htypes : ∀ p ∈ m.params, p.type.WellNamed) :
    LastMarked (stubs s globals m)
      ↔ (m.kind = .method → MarksLast (m.params.map (·.optional))) := by
  have hgetter := lastMarked_getterStub (s := s) globals m
  have hsetter := lastMarked_setterStub (s := s) globals hnames
  unfold stubs
  cases m.kind with
  | method => simpa using lastMarked_methodStub globals hs hnames htypes
  | getter => simpa using hgetter
  | setter => simpa using hsetter
  | property =>
      cases m.readonly with
      | true => simpa using hgetter
      | false => simpa using (closes_setterStub globals m).lastMarked_append.2 ⟨hsetter, hgetter⟩

theorem lastMarked_facadeClass (hs : ∃ name : Name, s.component.name = name.text)
    (hnames : ∀ m ∈ s.members, AreNamed m.params)
    (htypes : ∀ m ∈ s.members, ∀ p ∈ m.params, p.type.WellNamed) :
    LastMarked (facadeClass s globals)
      ↔ ∀ m ∈ s.members, m.kind = .method → MarksLast (m.params.map (·.optional)) := by
  have hcomment : paramMark "// eslint-disable-next-line no-unused-vars" = none := by decide +kernel
  have hclass : paramMark ("class " ++ s.component.facadeName ++ " extends " ++ s.component.hostBase
      ++ " \x7b") = none := by
    have hletters : "class ".toList.dropWhile (fun c => c == ' ' || c == '*')
        = 'c' :: ['l', 'a', 's', 's', ' '] := by
      decide
    simp only [String.append_assoc]
    exact paramMark_key hletters (by decide) _
  have hend : paramMark "\x7d" = none := by decide +kernel
  rw [facadeClass, lastMarked_append_plain (by simpa using hend)]
  refine (Closes.lastMarked_append ⟨[_], _, rfl, hclass⟩).trans ?_
  rw [lastMarked_flatMap (closes_stubs globals),
    and_iff_right (lastMarked_plain (by simp [hcomment, hclass]))]
  exact forall₂_congr fun m hm => lastMarked_stubs globals hs (hnames m hm) (htypes m hm)

theorem lastMarked_creatorFunction (hs : ∃ name : Name, s.component.name = name.text)
    (hnames : AreNamed s.component.params) (htypes : ∀ p ∈ s.component.params, p.type.WellNamed) :
    LastMarked (creatorFunction s globals) ↔ MarksLast (s.component.params.map (·.optional)) := by
  have hlead : IsLead "* " := .inr rfl
  have hopen : paramMark "/**" = none := by decide +kernel
  have hclose : paramMark "*/" = none := by decide +kernel
  have hend : paramMark "\x7d" = none := by decide +kernel
  have hreturn := paramMark_return hlead ("!" ++ s.component.facadeName)
  have hhead : paramMark ("export function " ++ creatorName s.component ++ "("
      ++ paramNames s.component.params ++ ") \x7b") = none := by
    have hletters : "export function ".toList.dropWhile (fun c => c == ' ' || c == '*')
        = 'e' :: "xport function ".toList := by
      decide
    simp only [String.append_assoc]
    exact paramMark_key hletters (by decide) _
  have hbody : paramMark ("  return /** @type " ++ braces ("!" ++ s.component.facadeName)
      ++ " */  (" ++ construction s.component ++ ");") = none := by
    have hletters : "  return /** @type ".toList.dropWhile (fun c => c == ' ' || c == '*')
        = 'r' :: "eturn /** @type ".toList := by
      decide
    simp only [String.append_assoc]
    exact paramMark_key hletters (by decide) _
  have hafter : ∀ line ∈ ["* @return " ++ braces ("!" ++ s.component.facadeName), "*/",
      "export function " ++ creatorName s.component ++ "(" ++ paramNames s.component.params
        ++ ") \x7b", "  return /** @type " ++ braces ("!" ++ s.component.facadeName) ++ " */  ("
          ++ construction s.component ++ ");", "\x7d"], paramMark line = none := by
    have hreturn : paramMark ("* @return " ++ braces ("!" ++ s.component.facadeName)) = none := by
      simpa [returnTag, ← String.append_assoc] using hreturn
    simp [hreturn, hclose, hhead, hbody, hend]
  exact lastMarked_tags globals hlead hs hnames htypes hopen hafter

end Stubs

end Bridge

end ElementBridge
