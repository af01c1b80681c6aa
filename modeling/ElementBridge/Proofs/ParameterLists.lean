import ElementBridge.Bridge.OfSurface
import ElementBridge.Proofs.ParameterNames
import ElementBridge.Proofs.PrintedTypes
import ElementBridge.Proofs.StubLines

namespace ElementBridge

namespace Bridge

open Text ClosureType

def commaNames (text : List Char) : List String :=
  ((text.splitOnP fun c => c == ',' || c == ' ').filter (· != [])).map String.ofList

def lastArguments (text : List Char) : List Char :=
  (((text.reverse.dropWhile (· != ')')).drop 1).takeWhile (· != '(')).reverse

def readParameters (line : String) : Option (List String) :=
  if (readStub line).isSome || "export function ".toList.isPrefixOf line.toList
  then some (commaNames (lastArguments line.toList)) else none

def parameterLists (lines : Lines) : List (List String) := lines.filterMap readParameters

def paramMark (line : String) : Option Bool :=
  (List.isPrefixOf? "@param \x7b".toList
      (line.toList.dropWhile fun c => c == ' ' || c == '*')).map fun text =>
    ((text.reverse.dropWhile (· != '\x7d')).drop 1).head? == some '='

/-- The marks of the tags that stand together. -/
def markLists (lines : Lines) : List (List Bool) :=
  (lines.splitOnP fun line => (paramMark line).isNone).map (·.filterMap paramMark)

section Names

variable {names : List String} {name : String} {c : Char}

theorem not_mem_name (h : isIdentifier name = true) (hc : isNameLetter c = false) :
    c ∉ name.toList := by
  intro hmem
  have hletter := List.all_eq_true.1 (Word.all_isNameLetter ⟨name, h⟩) c hmem
  exact Bool.noConfusion (hc.symm.trans hletter)

theorem isBetween_name (h : isIdentifier name = true) :
    ∀ c ∈ name.toList, (c == ',' || c == ' ') = false := by
  intro c hc
  have hcomma : c ≠ ',' := fun heq => not_mem_name h (by decide) (heq ▸ hc)
  have hblank : c ≠ ' ' := fun heq => not_mem_name h (by decide) (heq ▸ hc)
  simp [hcomma, hblank]

theorem commaNames_name (h : isIdentifier name = true) (rest : List Char) :
    commaNames (name.toList ++ ',' :: ' ' :: rest) = name :: commaNames rest := by
  have hne : name.toList ≠ [] := Word.toList_ne_nil ⟨name, h⟩
  have hblank : (' ' :: rest).splitOnP (fun c => c == ',' || c == ' ')
      = [] :: rest.splitOnP fun c => c == ',' || c == ' ' :=
    List.splitOnP_append_cons_of_forall_mem (List.forall_mem_nil _) ' ' (by decide) rest
  rw [commaNames, List.splitOnP_append_cons_of_forall_mem (isBetween_name h) ',' (by decide), hblank]
  simp [commaNames, hne]

theorem commaNames_commas (h : ∀ name ∈ names, isIdentifier name = true) :
    commaNames (commas names).toList = names := by
  rw [commas, String.toList_intercalate]
  induction names with
  | nil => rfl
  | cons name names ih =>
      obtain ⟨hname, hnames⟩ := List.forall_mem_cons.1 h
      cases names with
      | nil =>
          have hne : name.toList ≠ [] := Word.toList_ne_nil ⟨name, hname⟩
          rw [commaNames, List.map_singleton, List.intercalate_singleton,
            List.splitOnP_eq_singleton (isBetween_name hname)]
          simp [hne]
      | cons next more =>
          rw [List.map_cons, List.map_cons, List.intercalate_cons_cons, List.append_assoc]
          have hrest := ih hnames
          rw [List.map_cons] at hrest
          exact (commaNames_name hname _).trans (congrArg (name :: ·) hrest)

theorem lastArguments_eq {before arguments after : List Char} (harguments : '(' ∉ arguments)
    (hafter : ')' ∉ after) :
    lastArguments (before ++ '(' :: (arguments ++ ')' :: after)) = arguments := by
  have hdrop : (after.reverse ++ ')' :: (arguments.reverse ++ '(' :: before.reverse)).dropWhile
      (· != ')') = ')' :: (arguments.reverse ++ '(' :: before.reverse) := by
    rw [List.dropWhile_append_of_pos, List.dropWhile_cons_of_neg (by simp)]
    intro c hc
    have hne : c ≠ ')' := fun heq => hafter (heq ▸ List.mem_reverse.1 hc)
    simpa using hne
  have htake : (arguments.reverse ++ '(' :: before.reverse).takeWhile (· != '(')
      = arguments.reverse := by
    rw [List.takeWhile_append_of_pos, List.takeWhile_cons_of_neg (by simp), List.append_nil]
    intro c hc
    have hne : c ≠ '(' := fun heq => harguments (heq ▸ List.mem_reverse.1 hc)
    simpa using hne
  have hreverse : (before ++ '(' :: (arguments ++ ')' :: after)).reverse
      = after.reverse ++ ')' :: (arguments.reverse ++ '(' :: before.reverse) := by simp
  rw [lastArguments, hreverse, hdrop, List.drop_one, List.tail_cons, htake, List.reverse_reverse]

theorem not_mem_commas (h : ∀ name ∈ names, isIdentifier name = true)
    (hc : isNameLetter c = false ∧ c ≠ ',' ∧ c ≠ ' ') : c ∉ (commas names).toList := by
  obtain ⟨hletter, hcomma, hblank⟩ := hc
  have happend {a b : List Char} (ha : c ∉ a) (hb : c ∉ b) : c ∉ a ++ b := by simp [ha, hb]
  rw [commas, String.toList_intercalate]
  refine of_intercalate (R := (c ∉ ·)) List.not_mem_nil happend (by simp [hcomma, hblank]) ?_
  exact List.forall_mem_map.2 fun name hname => not_mem_name (h name hname) hletter

theorem lastArguments_commas {before after : List Char}
    (h : ∀ name ∈ names, isIdentifier name = true) (hafter : ')' ∉ after) :
    commaNames (lastArguments (before ++ '(' :: ((commas names).toList ++ ')' :: after)))
      = names := by
  rw [lastArguments_eq (not_mem_commas h (by decide)) hafter, commaNames_commas h]

end Names

section Stubs

variable {names : List String} {m : Member} {params : List Param}

theorem readParameters_stub {line : String} {before after : List Char}
    (h : ∀ name ∈ names, isIdentifier name = true) (hstub : (readStub line).isSome = true)
    (hline : line.toList = before ++ '(' :: ((commas names).toList ++ ')' :: after))
    (hafter : ')' ∉ after) : readParameters line = some names := by
  rw [readParameters, hstub, Bool.true_or, if_pos rfl, hline, lastArguments_commas h hafter]

theorem readParameters_eq_none {line : String} {c : Char} {rest : List Char}
    (hstub : readStub line = none) (hline : line.toList = c :: rest) (hc : c ≠ 'e') :
    readParameters line = none := by
  have hhead : "export function ".toList.isPrefixOf line.toList = false := by
    rw [hline]
    simp [List.isPrefixOf, hc.symm]
  rw [readParameters, hstub, hhead]
  rfl

@[simp]
theorem parameterLists_append (a b : Lines) :
    parameterLists (a ++ b) = parameterLists a ++ parameterLists b := List.filterMap_append

theorem parameterLists_docBlock (tags : List String) : parameterLists (docBlock tags) = [] := by
  have hstubs := stubsOf_docBlock tags
  rw [stubsOf, List.filterMap_eq_nil_iff] at hstubs
  refine List.filterMap_eq_nil_iff.2 fun line hline => ?_
  have hnone := hstubs line hline
  unfold docBlock at hline
  split at hline
  · cases hline
  · simp only [List.mem_append, List.mem_cons, List.mem_map, List.not_mem_nil, or_false] at hline
    rcases hline with (rfl | ⟨tag, -, rfl⟩) | rfl
    · exact readParameters_eq_none hnone (c := ' ') rfl (by decide)
    · exact readParameters_eq_none hnone (c := ' ') (by simp; rfl) (by decide)
    · exact readParameters_eq_none hnone (c := ' ') rfl (by decide)

end Stubs

end Bridge

def Member.parameterLists (m : Member) : List (List String) :=
  match m.kind with
  | .method => [m.params.map (·.name)]
  | .property => if m.readonly then [[]] else [["value"], []]
  | .getter => [[]]
  | .setter => [[Bridge.setterParam m]]

namespace Bridge

open Text ClosureType

variable (s : Surface) (globals : List String) {m : Member} {params : List Param}

theorem names_of_areNamed (h : AreNamed params) :
    ∀ name ∈ params.map (·.name), isIdentifier name = true := List.forall_mem_map.2 h

theorem parameterLists_methodStub (h : AreNamed m.params) :
    parameterLists (methodStub s globals m) = [m.params.map (·.name)] := by
  have hline : ("  " ++ objectKey m.name ++ "(" ++ paramNames m.params ++ ")" ++ emptyBody).toList
      = ("  " ++ objectKey m.name).toList
        ++ '(' :: ((commas (m.params.map (·.name))).toList ++ ')' :: emptyBody.toList) := by
    simp [paramNames]
  have hstub : readStub ("  " ++ objectKey m.name ++ "(" ++ paramNames m.params ++ ")" ++ emptyBody)
      = some (m.name, .call) :=
    readStub_call m.name (paramNames m.params ++ ")" ++ emptyBody).toList (by simp)
  have hread := readParameters_stub (names_of_areNamed h) (by rw [hstub]; rfl) hline (by decide)
  rw [methodStub, parameterLists_append, parameterLists_docBlock]
  simp [parameterLists, hread]

theorem parameterLists_getterStub (m : Member) :
    parameterLists (getterStub s globals m) = [[]] := by
  have hline : ("  get " ++ objectKey m.name ++ "()" ++ emptyBody).toList
      = ("  get " ++ objectKey m.name).toList
        ++ '(' :: ((commas []).toList ++ ')' :: emptyBody.toList) := by
    simp [commas]
  have hstub : readStub ("  get " ++ objectKey m.name ++ "()" ++ emptyBody) = some (m.name, .get) :=
    readStub_get m.name (")" ++ emptyBody).toList (by simp)
  have hread := readParameters_stub (fun _ h => absurd h List.not_mem_nil) (by rw [hstub]; rfl)
    hline (by decide)
  rw [getterStub, parameterLists_append, parameterLists_docBlock]
  simp [parameterLists, hread]

theorem isIdentifier_setterParam (h : AreNamed m.params) :
    isIdentifier (setterParam m) = true := by
  unfold setterParam
  split
  · next p more hkind hparams => exact h p (by simp [hparams])
  · decide +kernel

theorem parameterLists_setterStub (h : AreNamed m.params) :
    parameterLists (setterStub s globals m) = [[setterParam m]] := by
  have hline : ("  set " ++ objectKey m.name ++ "(" ++ setterParam m ++ ")" ++ emptyBody).toList
      = ("  set " ++ objectKey m.name).toList
        ++ '(' :: ((commas [setterParam m]).toList ++ ')' :: emptyBody.toList) := by
    simp [commas]
  have hstub : readStub ("  set " ++ objectKey m.name ++ "(" ++ setterParam m ++ ")" ++ emptyBody)
      = some (m.name, .set) :=
    readStub_set m.name (setterParam m ++ ")" ++ emptyBody).toList (by simp)
  have hread := readParameters_stub (List.forall_mem_singleton.2 (isIdentifier_setterParam h))
    (by rw [hstub]; rfl) hline (by decide)
  rw [setterStub, parameterLists_append, parameterLists_docBlock]
  simp [parameterLists, hread]

theorem parameterLists_stubs (h : AreNamed m.params) :
    parameterLists (stubs s globals m) = m.parameterLists := by
  unfold stubs Member.parameterLists
  cases hkind : m.kind with
  | method => exact parameterLists_methodStub s globals h
  | property =>
      cases hreadonly : m.readonly with
      | true => exact parameterLists_getterStub s globals m
      | false =>
          have hvalue : setterParam m = "value" := by simp [setterParam, hkind]
          have hset := parameterLists_setterStub s globals h
          rw [hvalue] at hset
          simp [hset, parameterLists_getterStub]
  | getter => exact parameterLists_getterStub s globals m
  | setter => exact parameterLists_setterStub s globals h

theorem parameterLists_facadeClass (h : ∀ m ∈ s.members, AreNamed m.params) :
    parameterLists (facadeClass s globals) = s.members.flatMap Member.parameterLists := by
  have hstubs : parameterLists (s.members.flatMap (stubs s globals))
      = s.members.flatMap Member.parameterLists := by
    rw [parameterLists, List.filterMap_flatMap]
    exact List.flatMap_congr fun m hm => parameterLists_stubs s globals (h m hm)
  have hclass : readStub ("class " ++ s.component.facadeName ++ " extends "
      ++ s.component.hostBase ++ " \x7b") = none := by
    simp [readStub]
  have hfirst : readParameters "// eslint-disable-next-line no-unused-vars" = none := by
    decide +kernel
  have hheader : readParameters ("class " ++ s.component.facadeName ++ " extends "
      ++ s.component.hostBase ++ " \x7b") = none :=
    readParameters_eq_none hclass (c := 'c') (by simp; rfl) (by decide)
  have hend : readParameters "\x7d" = none := by decide +kernel
  rw [facadeClass, parameterLists_append, parameterLists_append, hstubs]
  simp [parameterLists, hfirst, hheader, hend]

theorem readStub_eq_none {line : String} {c : Char} {rest : List Char}
    (hline : line.toList = c :: rest) (hc : c ≠ ' ') : readStub line = none := by
  unfold readStub
  split
  · next text heq => exact absurd (List.cons.inj (hline.symm.trans heq)).1 hc
  · rfl

theorem parameterLists_creatorFunction (h : AreNamed s.component.params) :
    parameterLists (creatorFunction s globals) = [s.component.params.map (·.name)] := by
  have plain {line : String} {rest : List Char} (hline : line.toList = '*' :: rest) :
      readParameters line = none :=
    readParameters_eq_none (readStub_eq_none hline (by decide)) hline (by decide)
  have htags : ((paramTags s globals s.component.params).map ("* " ++ ·)).filterMap readParameters
      = [] := by
    refine List.filterMap_eq_nil_iff.2 (List.forall_mem_map.2 fun tag _ => ?_)
    exact plain (by simp; rfl)
  have hopen : readParameters "/**" = none := by decide +kernel
  have hreturn : readParameters ("* @return " ++ braces ("!" ++ s.component.facadeName)) = none :=
    plain (by simp; rfl)
  have hclose : readParameters "*/" = none := by decide +kernel
  have hhead : readParameters ("export function " ++ creatorName s.component ++ "("
      ++ paramNames s.component.params ++ ") \x7b") = some (s.component.params.map (·.name)) := by
    have hline : ("export function " ++ creatorName s.component ++ "("
        ++ paramNames s.component.params ++ ") \x7b").toList
        = ("export function " ++ creatorName s.component).toList
          ++ '(' :: ((commas (s.component.params.map (·.name))).toList ++ ')' :: [' ', '\x7b']) := by
      simp [paramNames]
    have hprefix : "export function ".toList.isPrefixOf ("export function "
        ++ creatorName s.component ++ "(" ++ paramNames s.component.params ++ ") \x7b").toList
        = true := by
      simp
    rw [readParameters, hprefix, Bool.or_true, if_pos rfl, hline,
      lastArguments_commas (names_of_areNamed h) (by decide)]
  have hbody : readParameters ("  return /** @type " ++ braces ("!" ++ s.component.facadeName)
      ++ " */  (" ++ construction s.component ++ ");") = none := by
    have hkey (text : List Char) :
        readKey ('r' :: 'e' :: 't' :: 'u' :: 'r' :: 'n' :: ' ' :: text) = none := by
      simp [readKey, isNamePart, isNameStart, isAsciiLetter, isDigit]
    refine readParameters_eq_none (c := ' ') ?_ (by simp; rfl) (by decide)
    simp [readStub, hkey]
  have hend : readParameters "\x7d" = none := by decide +kernel
  simp [creatorFunction, parameterLists, htags, hopen, hreturn, hclose, hhead, hbody, hend]

end Bridge

end ElementBridge
