import ElementBridge.Proofs.BoundImports
import ElementBridge.Proofs.PrintedText

namespace ElementBridge.Bridge

open Text

def lastName? (entry : List Char) : Option String :=
  let name := (entry.reverse.takeWhile isIdentifierPart).reverse
  if name.isEmpty then none else some (String.ofList name)

def entryNames (clause : List Char) : List String := (clause.splitOn ',').filterMap lastName?

def importClause (line : String) : List Char :=
  let head := line.toList.takeWhile (· != '\x27')
  (head.take (head.length - " from ".length)).drop "import ".length

/-- The local names that an import line binds: of each entry the last word. -/
def boundBy (line : String) : List String :=
  entryNames ((importClause line).filter (· != '\x7d'))

example : boundBy "import d, \x7bA, B as C\x7d from './a, b.js';" = ["d", "A", "C"] := by
  decide

variable {before more : List Char} {name : String}

def endsApart (text : List Char) : Bool := text.getLast?.all fun c => !isIdentifierPart c

theorem endsApart_iff {text : List Char} :
    endsApart text = true ↔ ∀ c ∈ text.getLast?, isIdentifierPart c = false := by
  unfold endsApart
  cases text.getLast? with
  | none => simp
  | some c => simp

theorem lastName?_append (hbefore : endsApart before = true)
    (hname : isIdentifier name = true) : lastName? (before ++ name.toList) = some name := by
  obtain ⟨hne, hall⟩ := all_isIdentifierPart hname
  have hstop : before.reverse.takeWhile isIdentifierPart = [] := by
    cases hreverse : before.reverse with
    | nil => rfl
    | cons c rest =>
        refine List.takeWhile_cons_of_neg ?_
        rw [endsApart_iff.1 hbefore c (by rw [← List.head?_reverse, hreverse]; rfl)]
        exact Bool.false_ne_true
  have hread : (before ++ name.toList).reverse.takeWhile isIdentifierPart = name.toList.reverse := by
    rw [List.reverse_append, List.takeWhile_append_of_pos, hstop, List.append_nil]
    exact fun c hc => List.all_eq_true.1 hall c (List.mem_reverse.1 hc)
  rw [lastName?, hread, List.reverse_reverse]
  simp [hne]

theorem entryNames_comma (h : ',' ∉ before) :
    entryNames (before ++ ',' :: more) = (lastName? before).toList ++ entryNames more := by
  rw [entryNames, List.splitOn_append_cons_self_of_not_mem h, List.filterMap_cons]
  cases lastName? before <;> rfl

theorem entryNames_single (h : ',' ∉ before) : entryNames before = (lastName? before).toList := by
  rw [entryNames, List.splitOn_eq_singleton h, List.filterMap_cons]
  cases lastName? before <;> rfl

def isEntryLetter (c : Char) : Bool := isIdentifierPart c || c == ' '

def IsEntry (text : List Char) : Prop := ∀ c ∈ text, isEntryLetter c = true

theorem IsEntry.not_mem {text : List Char} (h : IsEntry text) {c : Char}
    (hc : isEntryLetter c = false) : c ∉ text :=
  fun hmem => absurd ((h c hmem).symm.trans hc) (by simp)

theorem isEntry_of_isIdentifier (h : isIdentifier name = true) : IsEntry name.toList := by
  intro c hc
  rw [isEntryLetter, List.all_eq_true.1 (all_isIdentifierPart h).2 c hc]
  rfl

namespace ModuleImports

structure IsPlain (m : ModuleImports) : Prop where
  wholes : ∀ name ∈ m.wholes, isIdentifier name = true
  default : ∀ name ∈ m.default, isIdentifier name = true
  named : ∀ pair ∈ m.named, isIdentifier pair.1 = true ∧ isIdentifier pair.2 = true

theorem namedText_eq {pair : String × String} (h : isIdentifier pair.1 = true)
    (h' : isIdentifier pair.2 = true) : IsEntry (namedText pair).toList ∧
      ∃ before, endsApart before = true ∧ (namedText pair).toList = before ++ pair.1.toList := by
  have hname := isEntry_of_isIdentifier h
  unfold namedText
  split
  · exact ⟨hname, [], rfl, rfl⟩
  · refine ⟨?_, (pair.2 ++ " as ").toList, ?_, String.toList_append⟩
    · have has : IsEntry " as ".toList := by
        intro c hc
        exact List.all_eq_true.1 (by decide) c hc
      simp only [String.toList_append, IsEntry, List.forall_mem_append]
      exact ⟨⟨isEntry_of_isIdentifier h', has⟩, hname⟩
    · have hlast : (pair.2 ++ " as ").toList.getLast? = some ' ' := by
        rw [String.toList_append, List.getLast?_append]
        rfl
      rw [endsApart, hlast]
      decide

def entries (named : List (String × String)) : List Char :=
  [',', ' '].intercalate (named.map fun pair => (namedText pair).toList)

theorem entryNames_entries {named : List (String × String)} (hne : named ≠ [])
    (h : ∀ pair ∈ named, isIdentifier pair.1 = true ∧ isIdentifier pair.2 = true)
    (hbefore : endsApart before = true) (hcomma : ',' ∉ before) :
    entryNames (before ++ entries named) = named.map Prod.fst := by
  induction named generalizing before with
  | nil => exact absurd rfl hne
  | cons pair rest ih =>
      obtain ⟨hpair, hrest⟩ := List.forall_mem_cons.1 h
      obtain ⟨hentry, start, hstart, htext⟩ := namedText_eq hpair.1 hpair.2
      have hlast : lastName? (before ++ (namedText pair).toList) = some pair.1 := by
        rw [htext, ← List.append_assoc]
        refine lastName?_append (endsApart_iff.2 fun c hc => ?_) hpair.1
        cases hend : start.getLast? with
        | none =>
            obtain rfl := List.getLast?_eq_none_iff.1 hend
            exact endsApart_iff.1 hbefore c (by simpa using hc)
        | some d =>
            rw [List.getLast?_append, hend] at hc
            exact endsApart_iff.1 hstart c (by simpa [hend] using hc)
      have hplain : ',' ∉ before ++ (namedText pair).toList := by
        rw [List.mem_append]
        rintro (hmem | hmem)
        · exact hcomma hmem
        · exact hentry.not_mem (by decide) hmem
      cases rest with
      | nil => simp [entries, entryNames_single hplain, hlast]
      | cons next others =>
          have hsplit : before ++ entries (pair :: next :: others)
              = (before ++ (namedText pair).toList) ++ ',' :: ([' '] ++ entries (next :: others)) := by
            simp [entries, List.intercalate_cons_cons]
          have hblank : endsApart [' '] = true := by decide
          rw [hsplit, entryNames_comma hplain, hlast, ih (by simp) hrest hblank (by decide)]
          rfl

theorem importClause_eq {clause : String} (h : '\x27' ∉ clause.toList) (module : String) :
    importClause ("import " ++ clause ++ " from " ++ fromText module) = clause.toList := by
  have hbefore : ∀ c ∈ "import ".toList ++ (clause.toList ++ " from ".toList),
      (c != '\x27') = true := by
    simp only [List.forall_mem_append]
    refine ⟨List.all_eq_true.1 (by simp), fun c hc => bne_iff_ne.2 fun heq => ?_,
      List.all_eq_true.1 (by simp)⟩
    exact h (heq ▸ hc)
  have hline : ("import " ++ clause ++ " from " ++ fromText module).toList
      = ("import ".toList ++ (clause.toList ++ " from ".toList))
        ++ '\x27' :: (module.toList ++ "';".toList) := by
    simp [fromText]
  have hhead : ("import " ++ clause ++ " from " ++ fromText module).toList.takeWhile (· != '\x27')
      = "import ".toList ++ (clause.toList ++ " from ".toList) := by
    rw [hline, List.takeWhile_append_of_pos hbefore, List.takeWhile_cons_of_neg (by decide),
      List.append_nil]
  have hlengths : "import ".toList.length = "import ".length ∧
      " from ".toList.length = " from ".length := by decide
  rw [importClause, hhead, ← List.append_assoc, List.length_append, hlengths.2, Nat.add_sub_cancel,
    List.take_left, ← hlengths.1, List.drop_left]

theorem boundBy_eq {clause : String} {text : List Char} (h : '\x27' ∉ clause.toList)
    (htext : clause.toList.filter (· != '\x7d') = text) (module : String) :
    boundBy ("import " ++ clause ++ " from " ++ fromText module) = entryNames text := by
  rw [boundBy, importClause_eq h, htext]

theorem filter_eq_self {text : List Char} (h : '\x7d' ∉ text) :
    text.filter (· != '\x7d') = text :=
  List.filter_eq_self.2 fun _ hc => bne_iff_ne.2 fun heq => h (heq ▸ hc)

theorem boundBy_whole (h : isIdentifier name = true) (module : String) :
    boundBy ("import * as " ++ name ++ " from " ++ fromText module) = [name] := by
  have hentry := isEntry_of_isIdentifier h
  have hclause : ("* as " ++ name).toList = "* as ".toList ++ name.toList := String.toList_append
  have hmark {c : Char} (hc : isEntryLetter c = false) (hc' : c ∉ "* as ".toList) :
      c ∉ ("* as " ++ name).toList := by
    rw [hclause, List.mem_append]
    exact not_or.2 ⟨hc', hentry.not_mem hc⟩
  have hline : "import * as " ++ name ++ " from " ++ fromText module
      = "import " ++ ("* as " ++ name) ++ " from " ++ fromText module := by
    rw [← String.append_assoc]
    rfl
  rw [hline, boundBy_eq (hmark (by decide) (by simp))
      (filter_eq_self (hmark (by decide) (by simp))),
    entryNames_single (hmark (by decide) (by simp)), hclause, lastName?_append _ h]
  · rfl
  · decide

theorem not_mem_entries {named : List (String × String)}
    (h : ∀ pair ∈ named, isIdentifier pair.1 = true ∧ isIdentifier pair.2 = true) {c : Char}
    (hc : isEntryLetter c = false) (hcomma : c ≠ ',') : c ∉ entries named := by
  have hblank : c ≠ ' ' := by
    rintro rfl
    exact absurd hc (by decide)
  induction named with
  | nil => exact List.not_mem_nil
  | cons pair rest ih =>
      obtain ⟨hpair, hrest⟩ := List.forall_mem_cons.1 h
      have hentry := (namedText_eq hpair.1 hpair.2).1.not_mem hc
      cases rest with
      | nil => simpa [entries] using hentry
      | cons next others =>
          have hsplit : entries (pair :: next :: others)
              = (namedText pair).toList ++ ',' :: ' ' :: entries (next :: others) := by
            simp [entries, List.intercalate_cons_cons]
          simp only [hsplit, List.mem_append, List.mem_cons, not_or]
          exact ⟨hentry, hcomma, hblank, ih hrest⟩

theorem toList_braces (named : List (String × String)) :
    ("\x7b" ++ String.intercalate ", " (named.map namedText) ++ "\x7d").toList
      = '\x7b' :: (entries named ++ ['\x7d']) := by
  simp [entries, String.toList_intercalate, Function.comp_def]

variable {m : ModuleImports}

theorem boundBy_bare (module : String) : [("import " ++ fromText module)].flatMap boundBy = [] := by
  have hhead : ("import " ++ fromText module).toList.takeWhile (· != '\x27') = "import ".toList := by
    have hline : ("import " ++ fromText module).toList
        = "import ".toList ++ '\x27' :: (module.toList ++ "';".toList) := by
      simp [fromText]
    rw [hline, List.takeWhile_append_of_pos (List.all_eq_true.1 (by decide)),
      List.takeWhile_cons_of_neg (by decide), List.append_nil]
  rw [List.flatMap_singleton, boundBy, importClause, hhead]
  decide

def braces (m : ModuleImports) : String :=
  "\x7b" ++ String.intercalate ", " (m.named.map namedText) ++ "\x7d"

theorem filter_braces (h : m.IsPlain) :
    m.braces.toList.filter (· != '\x7d') = '\x7b' :: entries m.named := by
  rw [braces, toList_braces, List.filter_cons_of_pos (by decide), List.filter_append,
    filter_eq_self (not_mem_entries h.named (by decide) (by decide))]
  simp

theorem not_mem_braces (h : m.IsPlain) : '\x27' ∉ m.braces.toList := by
  rw [braces, toList_braces, List.mem_cons, List.mem_append]
  rintro (hmem | hmem | hmem)
  · exact absurd hmem (by decide)
  · exact not_mem_entries h.named (by decide) (by decide) hmem
  · exact absurd hmem (by decide)

theorem clauses_eq (m : ModuleImports) :
    m.clauses = m.default.toList ++ if m.named = [] then [] else [m.braces] := by
  unfold clauses braces
  simp only [List.isEmpty_iff]

theorem boundBy_braces (h : m.IsPlain) (hnamed : m.named ≠ []) (module : String) :
    boundBy ("import " ++ m.braces ++ " from " ++ fromText module) = m.named.map Prod.fst := by
  rw [boundBy_eq (not_mem_braces h) (filter_braces h)]
  exact @entryNames_entries ['\x7b'] _ hnamed h.named (by decide) (by decide)

theorem boundBy_default {first : String} (hfirst : isIdentifier first = true) (module : String) :
    boundBy ("import " ++ first ++ " from " ++ fromText module) = [first] := by
  have hentry := isEntry_of_isIdentifier hfirst
  rw [boundBy_eq (hentry.not_mem (by decide)) (filter_eq_self (hentry.not_mem (by decide))),
    entryNames_single (hentry.not_mem (by decide)), ← List.nil_append first.toList,
    lastName?_append (by decide) hfirst]
  rfl

theorem boundBy_both (h : m.IsPlain) (hnamed : m.named ≠ []) {first : String}
    (hfirst : isIdentifier first = true) (module : String) :
    boundBy ("import " ++ (first ++ ", " ++ m.braces) ++ " from " ++ fromText module)
      = first :: m.named.map Prod.fst := by
  have hentry := isEntry_of_isIdentifier hfirst
  have htext : (first ++ ", " ++ m.braces).toList.filter (· != '\x7d')
      = first.toList ++ ',' :: ([' ', '\x7b'] ++ entries m.named) := by
    rw [String.toList_append, String.toList_append, List.filter_append, List.filter_append,
      filter_eq_self (hentry.not_mem (by decide)), filter_braces h, List.append_assoc]
    rfl
  have hquote : '\x27' ∉ (first ++ ", " ++ m.braces).toList := by
    simp only [String.toList_append, List.mem_append, not_or]
    exact ⟨⟨hentry.not_mem (by decide), by simp⟩, not_mem_braces h⟩
  rw [boundBy_eq hquote htext, entryNames_comma (hentry.not_mem (by decide)),
    entryNames_entries hnamed h.named (by decide) (by decide), ← List.nil_append first.toList,
    lastName?_append (by decide) hfirst]
  rfl

theorem boundBy_clauses (h : m.IsPlain) (hne : m.clauses ≠ []) (module : String) :
    boundBy ("import " ++ String.intercalate ", " m.clauses ++ " from " ++ fromText module)
      = m.default.toList ++ m.named.map Prod.fst := by
  rw [clauses_eq] at hne ⊢
  by_cases hnamed : m.named = []
  · rw [if_pos hnamed, List.append_nil] at hne ⊢
    cases hdefault : m.default with
    | none => exact absurd (by simp [hdefault]) hne
    | some first =>
        have hone := boundBy_default (h.default first (by simp [hdefault])) module
        rw [hnamed]
        exact hone
  · rw [if_neg hnamed]
    cases hdefault : m.default with
    | none =>
        exact boundBy_braces h hnamed module
    | some first =>
        exact boundBy_both h hnamed (h.default first (by simp [hdefault])) module

theorem IsPlain.boundBy_lines (h : m.IsPlain) (module : String) :
    (m.lines module).flatMap boundBy = m.names := by
  have hwholes : (m.wholes.map fun name => "import * as " ++ name ++ " from " ++ fromText module).flatMap
      boundBy = m.wholes := by
    rw [List.flatMap_map]
    refine (List.flatMap_congr fun name hname => boundBy_whole (h.wholes name hname) module).trans ?_
    exact List.flatMap_singleton' _
  unfold lines names
  rw [List.flatMap_append, hwholes, List.append_assoc]
  congr 1
  split
  · next hnil =>
      have hnone : m.default.toList ++ m.named.map Prod.fst = [] := by
        rw [clauses_eq, List.append_eq_nil_iff] at hnil
        rw [hnil.1, List.nil_append, List.map_eq_nil_iff]
        by_contra hnamed
        exact absurd hnil.2 (by simp [hnamed])
      rw [hnone]
      split
      · exact boundBy_bare module
      · rfl
  · next hne =>
      rw [List.flatMap_singleton, boundBy_clauses h hne]

theorem isPlain_empty : IsPlain .empty :=
  ⟨fun _ h => absurd h List.not_mem_nil, fun _ h => absurd h (by simp [empty]),
    fun _ h => absurd h List.not_mem_nil⟩

theorem IsPlain.addNamed {exported : String} (h : m.IsPlain) (hname : isIdentifier name = true)
    (hexported : isIdentifier exported = true) : (m.addNamed name exported).IsPlain := by
  refine ⟨h.wholes, h.default, fun pair hpair => ?_⟩
  rcases mem_addNamed.1 hpair with rfl | hpair
  · exact ⟨hname, hexported⟩
  · exact h.named pair hpair

theorem IsPlain.addDefault (h : m.IsPlain) (hname : isIdentifier name = true) :
    (m.addDefault name).IsPlain := by
  unfold ModuleImports.addDefault
  split
  · split
    · exact h
    · exact h.addNamed hname (by decide)
  · exact ⟨h.wholes, fun _ hfirst => Option.some.inj hfirst ▸ hname, h.named⟩

theorem IsPlain.add {symbol : Imported} (h : m.IsPlain) (hname : isIdentifier name = true)
    (himported : isIdentifier symbol.imported = true) : (m.add name symbol).IsPlain := by
  unfold ModuleImports.add
  split
  · refine ⟨fun other hother => ?_, h.default, h.named⟩
    rcases mem_addWhole.1 hother with rfl | hother
    · exact hname
    · exact h.wholes other hother
  · split
    · exact h.addDefault hname
    · exact h.addNamed hname himported

theorem IsPlain.addComponent {c : Component} (h : m.IsPlain) (hname : isIdentifier c.name = true) :
    (m.addComponent c).IsPlain := by
  unfold ModuleImports.addComponent
  split
  · exact h.addDefault hname
  · exact h.addNamed hname hname
  · exact ⟨h.wholes, h.default, h.named⟩

end ModuleImports

variable {module : String} {modules : List (String × ModuleImports)}

def ArePlain (modules : List (String × ModuleImports)) : Prop := ∀ entry ∈ modules, entry.2.IsPlain

theorem ArePlain.alterModule (h : ArePlain modules) {change : ModuleImports → ModuleImports}
    (hchange : ∀ m : ModuleImports, m.IsPlain → (change m).IsPlain) :
    ArePlain (alterModule module change modules) := by
  have hnew : (module, change .empty).2.IsPlain := hchange _ ModuleImports.isPlain_empty
  induction modules with
  | nil => exact List.forall_mem_singleton.2 hnew
  | cons entry rest ih =>
      obtain ⟨hentry, hrest⟩ := List.forall_mem_cons.1 h
      unfold Bridge.alterModule
      split
      · exact List.forall_mem_cons.2 ⟨hchange _ hentry, hrest⟩
      · split
        · exact List.forall_mem_cons.2 ⟨hnew, h⟩
        · exact List.forall_mem_cons.2 ⟨hentry, ih hrest⟩

def IsPlainTable (imports : ImportTable) : Prop :=
  ∀ entry ∈ imports, isIdentifier entry.1 = true ∧ isIdentifier entry.2.imported = true

theorem ArePlain.takeImports (h : ArePlain modules) {imports : ImportTable}
    (himports : IsPlainTable imports) : ArePlain (takeImports modules imports) := by
  induction imports generalizing modules with
  | nil => exact h
  | cons entry rest ih =>
      obtain ⟨⟨hname, himported⟩, hrest⟩ := List.forall_mem_cons.1 himports
      exact ih (h.alterModule fun m hm => hm.add hname himported) hrest

theorem boundBy_importLines {s : Surface} (config : Config) (himports : IsPlainTable s.imports)
    (hc : isIdentifier s.component.name = true) :
    (importLines s config).flatMap boundBy = importedNames s config := by
  have hnone : ArePlain [] := fun _ h => absurd h List.not_mem_nil
  have hplain : ArePlain (moduleImports s config) :=
    (hnone.takeImports himports).alterModule fun m hm => hm.addComponent hc
  rw [importLines, List.flatMap_assoc]
  exact List.flatMap_congr fun entry hentry => (hplain entry hentry).boundBy_lines entry.1

end ElementBridge.Bridge
