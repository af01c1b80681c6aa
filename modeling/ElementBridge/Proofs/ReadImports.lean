import ElementBridge.Bridge
import ElementBridge.Grammar.Module
import ElementBridge.Proofs.ImportLines
import ElementBridge.Proofs.TokenReaders

namespace ElementBridge

open Text Scan ElementBridge.Tree

/-- Names that a statement at the top level of a module can bind. -/
structure IsBindable (name : String) : Prop where
  isIdentifier : Text.isIdentifier name = true
  isFree : (Keyword.ofSpelling? name).any Keyword.isReserved = false
  notAwait : name ≠ "await"

instance (name : String) : Decidable (IsBindable name) :=
  decidable_of_iff (Text.isIdentifier name = true ∧
      (Keyword.ofSpelling? name).any Keyword.isReserved = false ∧ name ≠ "await")
    ⟨fun h => ⟨h.1, h.2.1, h.2.2⟩, fun h => ⟨h.isIdentifier, h.isFree, h.notAwait⟩⟩

namespace Keyword

theorem spelling_of_ofSpelling? {name : String} {k : Keyword} (h : ofSpelling? name = some k) :
    k.spelling = name := beq_iff_eq.1 (List.find?_some h :)

end Keyword

namespace Parser

variable {name : String} {k : Keyword} {value : String} {ts us : List Token}

theorem keywordOf_nameToken (h : isIdentifier name = true) :
    keywordOf (nameToken name) = Keyword.ofSpelling? name := by
  rw [nameToken_eq h]
  rfl

theorem isBinding_nameToken (h : IsBindable name) :
    isBinding .topLevel (nameToken name) = true := by
  rw [nameToken_eq h.isIdentifier]
  have hfree := h.isFree
  cases hk : Keyword.ofSpelling? name with
  | none => simp [isBinding, Word.isReserved, hk]
  | some k =>
      rw [hk, Option.any_some] at hfree
      have hawait : k ≠ .await := by
        rintro rfl
        exact h.notAwait (Keyword.spelling_of_ofSpelling? hk).symm
      unfold isBinding
      split
      · next heq => exact absurd (Option.some.inj (Token.word.inj heq).2) hawait
      · rfl
      · next heq =>
          obtain rfl := Option.some.inj (Token.word.inj heq).2
          rw [hfree]
          rfl
      · next heq => exact absurd (Token.word.inj heq).2 (by simp)
      · next hother _ => exact absurd rfl (hother _ k)

theorem reads_anyName (h : isIdentifier name = true) :
    Reads anyName (nameToken name :: ts) ⟨name, h⟩ ts := by
  refine .get fun c hc => ?_
  have htoken : c.token = nameToken name := hc.token
  rw [htoken, nameToken_eq h]
  exact reads_advance.bind (reads_pure _)

theorem reads_bindingName (h : IsBindable name) : Reads bindingName (nameToken name :: ts)
    ⟨⟨name, h.isIdentifier⟩, h.isFree⟩ ts := by
  refine reads_atBinding.bind ?_
  rw [isBinding_nameToken h]
  refine (reads_anyName h.isIdentifier).bind ?_
  have hfree : (Word.mk name h.isIdentifier).isReserved = false := h.isFree
  rw [Name.ofWord?, dif_pos hfree]
  exact reads_pure _

end Parser

namespace Grammar

open ElementBridge.Parser

variable {r : Rules} {name value : String} {t : Token} {ts us : List Token} {m : Mark}

theorem isText_nameToken : isText (nameToken name) = false := by
  unfold nameToken
  split <;> rfl

theorem reads_attributes : Reads (attributes r) (.mark m :: ts) () (.mark m :: ts) := by
  refine reads_isWord.bind (reads_isWord.bind (.afterBreak fun broken => ?_))
  exact reads_pure _

theorem reads_fromModule : Reads (fromModule r)
    (nameToken "from" :: .string value :: .mark m :: ts) value (.mark m :: ts) := by
  refine (reads_expectWord (by decide)).bind ?_
  refine reads_stringValue.bind ?_
  exact reads_attributes.bind (reads_pure _)

theorem reads_endStatement : Reads endStatement (.mark .semicolon :: ts) () ts := by
  refine reads_eat.bind ?_
  exact reads_pure _

inductive FollowsDefault : List Token → Prop where
  | from (value : String) (ts : List Token) : FollowsDefault (nameToken "from" :: .string value :: ts)
  | comma (ts : List Token) : FollowsDefault (.mark .comma :: ts)

theorem FollowsDefault.reads_equals (h : FollowsDefault ts) : Reads (is .equals) ts false ts := by
  cases h <;> exact reads_is .equals

theorem fails_expectWord_mark {k : Keyword} : Fails (expectWord k) (.mark m :: ts) :=
  fails_expectWord (by simp [keywordOf])

theorem reads_importsTypes_mark : Reads importsTypes (.mark m :: ts) false (.mark m :: ts) :=
  fails_expectWord_mark.bind.ahead

theorem reads_importsTypes_name (h : FollowsDefault ts) :
    Reads importsTypes (nameToken name :: ts) false (nameToken name :: ts) := by
  by_cases htype : keywordOf (nameToken name) = some .type
  · cases h with
    | «from» value ts =>
        refine Reads.ahead (.string value :: ts) ((reads_expectWord htype).bind ?_)
        refine (reads_is .star).bind ((reads_is .openBrace).bind ?_)
        refine reads_atBinding.bind (reads_isWord.bind ?_)
        refine reads_advance.bind (reads_isWord.bind ((reads_is .equals).bind ?_))
        exact reads_pure _
    | comma ts =>
        refine Fails.ahead ((reads_expectWord htype).bind_fails ?_)
        refine (reads_is .star).bind_fails ((reads_is .openBrace).bind_fails ?_)
        refine reads_atBinding.bind_fails ?_
        exact fails_failure.bind
  · exact (fails_expectWord htype).bind.ahead

theorem reads_importsPhase_mark : Reads importsPhase (.mark m :: ts) false (.mark m :: ts) := by
  refine Fails.ahead ((reads_eatWord_other (by simp [keywordOf])).bind_fails ?_)
  exact fails_expectWord_mark.bind

theorem reads_importsPhase_name (h : FollowsDefault ts) :
    Reads importsPhase (nameToken name :: ts) false (nameToken name :: ts) := by
  by_cases hdefer : keywordOf (nameToken name) = some .defer
  · refine Reads.ahead ts ((reads_eatWord hdefer).bind ?_)
    cases h <;> exact reads_is .star
  · by_cases hsource : keywordOf (nameToken name) = some .source
    · cases h with
      | «from» value ts =>
          refine Reads.ahead (.string value :: ts) ((reads_eatWord_other hdefer).bind ?_)
          refine (reads_expectWord hsource).bind (reads_atBinding.bind ?_)
          exact reads_advance.bind reads_isWord
      | comma ts =>
          refine Fails.ahead ((reads_eatWord_other hdefer).bind_fails ?_)
          refine (reads_expectWord hsource).bind_fails (reads_atBinding.bind_fails ?_)
          exact fails_failure.bind
    · refine Fails.ahead ((reads_eatWord_other hdefer).bind_fails ?_)
      exact (fails_expectWord hsource).bind

theorem reads_moduleName (h : isIdentifier name = true) :
    Reads moduleName (nameToken name :: ts) (name, !(Word.mk name h).isReserved) ts := by
  refine reads_token.bind ?_
  rw [List.head?_cons, Option.getD_some, nameToken_eq h]
  exact reads_advance.bind (reads_pure _)

theorem reads_atModuleName :
    Reads atModuleName (nameToken name :: ts) (isName (nameToken name)) (nameToken name :: ts) := by
  refine reads_isWordToken.bind (reads_isString.bind ?_)
  rw [isText_nameToken, Bool.or_false]
  exact reads_pure _

theorem reads_atModuleName_mark :
    Reads atModuleName (.mark m :: ts) false (.mark m :: ts) :=
  reads_isWordToken.bind (reads_isString.bind (reads_pure _))

theorem isName_nameToken (h : isIdentifier name = true) : isName (nameToken name) = true := by
  rw [nameToken_eq h]
  rfl

def entryTokens (pair : String × String) : List Token :=
  if pair.1 = pair.2 then [nameToken pair.1]
  else [nameToken pair.2, nameToken "as", nameToken pair.1]

def Renames (pair : String × String) (found : Renaming) : Prop :=
  found.typeOnly = false ∧ found.first = pair.2 ∧ found.last = pair.1 ∧ found.lastIsPlain = true

theorem isReserved_of_isBindable (h : IsBindable name) :
    (Word.mk name h.isIdentifier).isReserved = false := h.isFree

theorem reads_specifier_alone (h : IsBindable name) : ∃ found, Renames (name, name) found ∧
    Reads specifier (nameToken name :: .mark m :: ts) found (.mark m :: ts) := by
  have hplain := isReserved_of_isBindable h
  by_cases htype : name = "type"
  · subst htype
    refine ⟨⟨false, "type", true, "type", true⟩, ⟨rfl, rfl, rfl, rfl⟩, ?_⟩
    refine (reads_moduleName h.isIdentifier).bind ?_
    rw [hplain]
    refine reads_isWord.bind (reads_atModuleName_mark.bind ?_)
    exact reads_pure _
  · refine ⟨⟨false, name, true, name, true⟩, ⟨rfl, rfl, rfl, rfl⟩, ?_⟩
    refine (reads_moduleName h.isIdentifier).bind ?_
    have hother : ((name, true) == ("type", true)) = false := by simpa using htype
    rw [hplain, Bool.not_false, hother]
    refine (reads_eatWord_other (by simp [keywordOf])).bind ?_
    exact reads_pure _

theorem reads_specifier_as {first : String} (hfirst : isIdentifier first = true)
    (h : IsBindable name) : ∃ found, Renames (name, first) found ∧
    Reads specifier (nameToken first :: nameToken "as" :: nameToken name :: .mark m :: ts) found
      (.mark m :: ts) := by
  have hplain := isReserved_of_isBindable h
  have has : keywordOf (nameToken "as") = some .as := by decide
  by_cases htype : first = "type"
  · subst htype
    refine ⟨⟨false, "type", true, name, true⟩, ⟨rfl, rfl, rfl, rfl⟩, ?_⟩
    refine (reads_moduleName hfirst).bind ?_
    have hfree : (Keyword.ofSpelling? "type").any Keyword.isReserved = false := by decide
    change Reads
      (if _ == (_, !(Keyword.ofSpelling? "type").any Keyword.isReserved) then _ else _) _ _ _
    rw [hfree]
    refine reads_isWord.bind ?_
    rw [has]
    refine reads_advance.bind (reads_isWord.bind ?_)
    by_cases hname : keywordOf (nameToken name) = some .as
    · obtain rfl : "as" = name := by
        rw [keywordOf_nameToken h.isIdentifier] at hname
        exact Keyword.spelling_of_ofSpelling? hname
      rw [has]
      refine reads_advance.bind (reads_atModuleName_mark.bind ?_)
      exact reads_pure _
    · rw [beq_eq_false_iff_ne.2 hname]
      refine reads_atModuleName.bind ?_
      rw [isName_nameToken h.isIdentifier]
      refine (reads_moduleName h.isIdentifier).bind ?_
      rw [hplain]
      exact reads_pure _
  · refine ⟨⟨false, first, !(Word.mk first hfirst).isReserved, name, true⟩,
      ⟨rfl, rfl, rfl, rfl⟩, ?_⟩
    refine (reads_moduleName hfirst).bind ?_
    have hother : ((first, !(Word.mk first hfirst).isReserved) == ("type", true)) = false := by
      simp [htype]
    rw [hother]
    refine (reads_eatWord has).bind ((reads_moduleName h.isIdentifier).bind ?_)
    rw [hplain]
    exact reads_pure _

def IsEntryPair (pair : String × String) : Prop :=
  IsBindable pair.1 ∧ isIdentifier pair.2 = true

theorem reads_specifier {pair : String × String} (h : IsEntryPair pair) :
    ∃ found, Renames pair found ∧
      Reads specifier (entryTokens pair ++ .mark m :: ts) found (.mark m :: ts) := by
  obtain ⟨name, first⟩ := pair
  unfold entryTokens
  split
  · next heq =>
      obtain rfl : name = first := heq
      exact reads_specifier_alone h.1
  · exact reads_specifier_as h.2 h.1

theorem entryTokens_start {pair : String × String} (h : IsEntryPair pair) (m : Mark) :
    ∃ t more, entryTokens pair = t :: more ∧ t ≠ .mark m := by
  have hname {name : String} (h : isIdentifier name = true) : nameToken name ≠ .mark m := by
    rw [nameToken_eq h]
    exact Token.noConfusion
  unfold entryTokens
  split
  · exact ⟨_, _, rfl, hname h.1.isIdentifier⟩
  · exact ⟨_, _, rfl, hname h.2⟩

def bracesTokens (named : List (String × String)) : List Token :=
  .mark .openBrace :: ([Token.mark .comma].intercalate (named.map entryTokens) ++ [.mark .closeBrace])

def namedBindings (named : List (String × String)) : List (String × ImportBinding) :=
  named.map fun pair => (pair.1, .named pair.2 false)

theorem map_renames {named : List (String × String)} {found : List Renaming}
    (h : List.Forall₂ Renames named found) : found.all (·.lastIsPlain) = true ∧
      (found.map fun s => (s.last, ImportBinding.named s.first s.typeOnly))
        = namedBindings named := by
  induction h with
  | nil => exact ⟨rfl, rfl⟩
  | @cons pair entry named found hentry _ ih =>
      obtain ⟨htype, hfirst, hlast, hplain⟩ := hentry
      refine ⟨by rw [List.all_cons, hplain, ih.1]; rfl, ?_⟩
      rw [List.map_cons, ih.2, htype, hfirst, hlast]
      rfl

theorem reads_namedImports {named : List (String × String)} (h : ∀ pair ∈ named, IsEntryPair pair)
    (hfuel : named.length < r.fuel) : Reads (namedImports r false) (bracesTokens named ++ ts)
      (namedBindings named) ts := by
  obtain ⟨found, hfound, hread⟩ := reads_commaList
    (by decide : Mark.closeBrace ≠ .comma)
    (fun pair hpair m us => reads_specifier (h pair hpair))
    (fun pair hpair => entryTokens_start (h pair hpair) .closeBrace) hfuel ts
  obtain ⟨hplain, hbindings⟩ := map_renames hfound
  have hspecifiers : Reads (specifiers r false) (bracesTokens named ++ ts) found ts := by
    rw [bracesTokens, List.cons_append, List.append_assoc]
    exact reads_expect.bind (hread.bind (reads_expect.bind (reads_pure _)))
  refine (reads_eat_other (by simp [bracesTokens])).bind (hspecifiers.bind ?_)
  rw [hplain, hbindings]
  exact reads_pure _

def sourceTokens (module : String) : List Token :=
  [nameToken "from", .string module, .mark .semicolon]

theorem reads_importSource {β : Type} {g : String → β} {module : String} :
    Reads (do
      let module ← fromModule r
      endStatement
      return g module) (sourceTokens module ++ ts) (g module) ts :=
  reads_fromModule.bind (reads_endStatement.bind (reads_pure _))

def importItem (module : String) (specifiers : Option (List (String × ImportBinding))) : Item :=
  (some (.importFrom ⟨module, false, specifiers⟩), [])

theorem reads_importDeclaration_bare {module : String} : Reads (importDeclaration r)
    (nameToken "import" :: .string module :: .mark .semicolon :: ts) (importItem module none) ts := by
  refine (reads_expectWord (by decide)).bind (reads_isString.bind ?_)
  refine reads_stringValue.bind (reads_attributes.bind ?_)
  exact reads_endStatement.bind (reads_pure _)

theorem reads_importDeclaration_whole {module : String} (h : IsBindable name) :
    Reads (importDeclaration r) (nameToken "import" :: .mark .star :: nameToken "as" :: nameToken name
      :: (sourceTokens module ++ ts)) (importItem module (some [(name, .whole)])) ts := by
  refine (reads_expectWord (by decide)).bind (reads_isString.bind ?_)
  refine reads_importsTypes_mark.bind (reads_importsPhase_mark.bind ?_)
  refine reads_atBinding.bind ((reads_pure _).bind ?_)
  refine (reads_is .equals).bind ((reads_eat_other (by simp)).bind ?_)
  have hnamed : Reads (namedImports r false) (.mark .star :: nameToken "as" :: nameToken name
      :: (sourceTokens module ++ ts)) [(name, .whole)] (sourceTokens module ++ ts) := by
    refine reads_eat.bind ((reads_expectWord (by decide)).bind ?_)
    exact (reads_bindingName h).bind (reads_pure _)
  exact hnamed.bind reads_importSource

theorem reads_importDeclaration_named {named : List (String × String)} {module : String}
    (h : ∀ pair ∈ named, IsEntryPair pair) (hfuel : named.length < r.fuel) :
    Reads (importDeclaration r) (nameToken "import" :: (bracesTokens named
      ++ (sourceTokens module ++ ts))) (importItem module (some (namedBindings named))) ts := by
  refine (reads_expectWord (by decide)).bind (reads_isString.bind ?_)
  refine reads_importsTypes_mark.bind (reads_importsPhase_mark.bind ?_)
  refine reads_atBinding.bind ((reads_pure _).bind ?_)
  refine (reads_is .equals).bind ((reads_eat_other (by simp)).bind ?_)
  exact (reads_namedImports h hfuel).bind reads_importSource

def moreTokens (named : List (String × String)) : List Token :=
  if named = [] then [] else .mark .comma :: bracesTokens named

theorem reads_importDeclaration_default {named : List (String × String)} {module : String}
    (h : IsBindable name) (hnamed : ∀ pair ∈ named, IsEntryPair pair)
    (hfuel : named.length < r.fuel) :
    Reads (importDeclaration r) (nameToken "import" :: nameToken name
        :: (moreTokens named ++ (sourceTokens module ++ ts)))
      (importItem module (some ((name, .default) :: namedBindings named))) ts := by
  have hfollows : FollowsDefault (moreTokens named ++ (sourceTokens module ++ ts)) := by
    unfold moreTokens
    split
    · exact .from module _
    · exact .comma _
  refine (reads_expectWord (by decide)).bind (reads_isString.bind ?_)
  rw [isText_nameToken]
  refine (reads_importsTypes_name hfollows).bind ((reads_importsPhase_name hfollows).bind ?_)
  refine reads_atBinding.bind ?_
  rw [isBinding_nameToken h]
  refine (reads_bindingName h).map.bind (hfollows.reads_equals.bind ?_)
  by_cases hnil : named = []
  · subst hnil
    have hcomma : Reads (eat .comma) (sourceTokens module ++ ts) false
        (sourceTokens module ++ ts) :=
      reads_eat_other fun heq => absurd (Option.some.inj heq) (by decide)
    exact hcomma.bind ((reads_pure _).bind reads_importSource)
  · rw [moreTokens, if_neg hnil]
    refine reads_eat.bind ?_
    exact (reads_namedImports hnamed hfuel).bind reads_importSource

theorem reads_statement {item : Item} (h : Reads (importDeclaration r) (nameToken "import" :: t :: ts)
    item us) (ht : t ≠ .mark .dot ∧ t ≠ .mark .openParen) :
    Reads (statement r) (nameToken "import" :: t :: ts) item us := by
  have hcall : Reads isImportCall (nameToken "import" :: t :: ts) false
      (nameToken "import" :: t :: ts) := by
    refine Reads.ahead (t :: ts) ((reads_expectWord (by decide)).bind ?_)
    refine (reads_is .dot).bind ((reads_is .openParen).bind ?_)
    rw [List.head?_cons, Option.getD_some, beq_eq_false_iff_ne.2 ht.1, beq_eq_false_iff_ne.2 ht.2]
    exact reads_pure _
  refine reads_token.bind ?_
  have htoken : nameToken "import" = .word ⟨"import", by decide⟩ (some .import_) := by decide
  rw [htoken] at hcall h ⊢
  exact hcall.bind h

theorem reads_moduleItems {ι : Type} {xs : List ι} {tokens : ι → List Token} {node : ι → Import}
    (h : ∀ x ∈ xs, ∀ us, Reads (statement r) (tokens x ++ us) (some (.importFrom (node x)), []) us)
    (hstart : ∀ x ∈ xs, ∃ t more, tokens x = t :: more ∧ t ≠ .endOfText)
    (hfuel : xs.length < r.fuel) :
    Reads (moduleItems r) (xs.flatMap tokens) (xs.map fun x => .importFrom (node x)) [] := by
  have hitem : ∀ x ∈ xs, ∀ us,
      Reads (moduleItem r) (tokens x ++ us) (some (.importFrom (node x))) us := fun x hx us => by
    obtain ⟨t, more, htokens, ht⟩ := hstart x hx
    refine reads_token.bind ?_
    have hmore : ((tokens x ++ us).head?.getD .endOfText == .endOfText) = false := by
      rw [htokens]
      exact beq_eq_false_iff_ne.2 ht
    rw [hmore]
    exact (h x hx us).bind (reads_pure _)
  have hend : Reads (moduleItem r) [] none [] := reads_token.bind (reads_pure _)
  have hmany := reads_many hitem hend hfuel
  rw [List.append_nil] at hmany
  refine hmany.bind (.get fun c hc => ?_)
  rw [hc.openDefaults]
  exact reads_pure _

end Grammar

namespace Bridge

open Grammar ModuleImports

inductive ImportForm where
  | bare
  | whole (name : String)
  | bindings (first : Option String) (named : List (String × String))

namespace ImportForm

def text (module : String) : ImportForm → String
  | bare => "import " ++ fromText module
  | whole name => "import * as " ++ name ++ " from " ++ fromText module
  | bindings first named =>
      "import " ++ String.intercalate ", " (ModuleImports.mk [] first named false).clauses
        ++ " from " ++ fromText module

def specifiers : ImportForm → Option (List (String × ImportBinding))
  | bare => none
  | whole name => some [(name, .whole)]
  | bindings first named =>
      some (first.toList.map (fun name => (name, .default)) ++ namedBindings named)

def node (module : String) (form : ImportForm) : Import := ⟨module, false, form.specifiers⟩

def tokens (module : String) : ImportForm → List Token
  | bare => [.string module, .mark .semicolon]
  | whole name => .mark .star :: nameToken "as" :: nameToken name :: sourceTokens module
  | bindings none named => bracesTokens named ++ sourceTokens module
  | bindings (some first) named => nameToken first :: (moreTokens named ++ sourceTokens module)

inductive IsReadable : ImportForm → Prop where
  | bare : IsReadable bare
  | whole {name : String} (h : IsBindable name) : IsReadable (whole name)
  | named {named : List (String × String)} (hne : named ≠ []) (h : ∀ pair ∈ named, IsEntryPair pair) :
      IsReadable (bindings none named)
  | default {name : String} {named : List (String × String)} (h : IsBindable name)
      (hnamed : ∀ pair ∈ named, IsEntryPair pair) : IsReadable (bindings (some name) named)

end ImportForm

variable {text : List Char} {c : Char} {ts : List Token} {module name : String}

theorem spells_entry {pair : String × String} (h : IsEntryPair pair)
    (hc : isIdentifierPart c = false ∧ c ≠ '\\') (hmore : Spells (c :: text) ts) :
    Spells ((namedText pair).toList ++ c :: text) (entryTokens pair ++ ts) := by
  unfold namedText entryTokens
  split
  · exact .name h.1.isIdentifier hc hmore
  · have hlocal : Spells (' ' :: (pair.1.toList ++ c :: text)) (nameToken pair.1 :: ts) :=
      (Spells.name h.1.isIdentifier hc hmore).blank (.inl (by decide))
    have has : Spells (' ' :: ("as".toList ++ ' ' :: (pair.1.toList ++ c :: text)))
        (nameToken "as" :: nameToken pair.1 :: ts) :=
      (Spells.name (by decide) (by decide) hlocal).blank (.inl (by decide))
    have hentry := Spells.name h.2 (by decide) has
    simpa using hentry

theorem spells_entries {named : List (String × String)} (h : ∀ pair ∈ named, IsEntryPair pair)
    (hmore : Spells text ts) : Spells (entries named ++ '\x7d' :: text)
      ([Token.mark .comma].intercalate (named.map entryTokens) ++ .mark .closeBrace :: ts) := by
  have hclose : Spells ('\x7d' :: text) (.mark .closeBrace :: ts) := hmore.mark (by decide)
  induction named with
  | nil => exact hclose
  | cons pair rest ih =>
      obtain ⟨hpair, hrest⟩ := List.forall_mem_cons.1 h
      cases rest with
      | nil => simpa [entries] using spells_entry hpair (by decide) hclose
      | cons next others =>
          have hothers : Spells (',' :: ' ' :: (entries (next :: others) ++ '\x7d' :: text))
              (.mark .comma :: ([Token.mark .comma].intercalate ((next :: others).map entryTokens)
                ++ .mark .closeBrace :: ts)) :=
            ((ih hrest).blank (.inl (by decide))).mark (by decide)
          have hall := spells_entry hpair (by decide) hothers
          simpa [entries, List.intercalate_cons_cons] using hall

theorem spells_fromText (h : module.toList.all (isPlain '\x27') = true) :
    Spells (fromText module).toList [.string module, .mark .semicolon] := by
  have hstring := Spells.string h (spells_nil.mark (c := ';') (m := .semicolon) (by decide))
  simpa [fromText] using hstring

theorem spells_source (h : module.toList.all (isPlain '\x27') = true) :
    Spells (' ' :: ("from".toList ++ ' ' :: (fromText module).toList)) (sourceTokens module) :=
  (Spells.name (by decide) (by decide) ((spells_fromText h).blank (.inl (by decide)))).blank
    (.inl (by decide))

theorem spells_braces {named : List (String × String)} (h : ∀ pair ∈ named, IsEntryPair pair)
    (hmore : Spells text ts) : Spells ('\x7b' :: (entries named ++ '\x7d' :: text))
      (bracesTokens named ++ ts) := by
  have hall : Spells ('\x7b' :: (entries named ++ '\x7d' :: text)) _ :=
    (spells_entries h hmore).mark (m := .openBrace) (by decide)
  simpa [bracesTokens] using hall

theorem spells_joined {ι : Type} {xs : List ι} {print : ι → List Char} {tokens : ι → List Token}
    (hc : isBlank c = true ∨ isLineBreak c = true) (h : ∀ x ∈ xs, Spells (print x) (tokens x)) :
    Spells ([c].intercalate (xs.map print)) (xs.flatMap tokens) := by
  induction xs with
  | nil => exact spells_nil
  | cons x xs ih =>
      obtain ⟨hx, hxs⟩ := List.forall_mem_cons.1 h
      cases xs with
      | nil => simpa using hx
      | cons y ys =>
          have hall := hx.append ((ih hxs).blank hc)
          simpa [List.intercalate_cons_cons] using hall

namespace ImportForm

variable {form : ImportForm}

theorem IsReadable.spells (h : form.IsReadable)
    (hmodule : module.toList.all (isPlain '\x27') = true) :
    Spells (form.text module).toList (nameToken "import" :: form.tokens module) := by
  have himport {text : List Char} {ts : List Token} (h : Spells text ts) :
      Spells ("import".toList ++ ' ' :: text) (nameToken "import" :: ts) :=
    .name (by decide) (by decide) (h.blank (.inl (by decide)))
  have hsource := spells_source hmodule
  cases h with
  | bare => simpa [ImportForm.text, tokens] using himport (spells_fromText hmodule)
  | @whole name h =>
      have hname : Spells
          (' ' :: (name.toList ++ ' ' :: ("from".toList ++ ' ' :: (fromText module).toList)))
          (nameToken name :: sourceTokens module) :=
        (Spells.name h.isIdentifier (by decide) hsource).blank (.inl (by decide))
      have hstar := (Spells.name (by decide : isIdentifier "as" = true) (by decide) hname).star
      simpa [ImportForm.text, tokens] using himport hstar
  | @named named hne h =>
      have hbraces := himport (spells_braces h hsource)
      simpa [ImportForm.text, tokens, clauses_eq, hne, braces, entries, Function.comp_def]
        using hbraces
  | @default first named hfirst h =>
      by_cases hnil : named = []
      · subst hnil
        have hname := himport (Spells.name hfirst.isIdentifier (by decide) hsource)
        simpa [ImportForm.text, tokens, clauses_eq, moreTokens] using hname
      · have hcomma : Spells (',' :: ' ' :: '\x7b' :: (entries named ++ '\x7d' :: ' ' :: ("from".toList
            ++ ' ' :: (fromText module).toList)))
            (.mark .comma :: (bracesTokens named ++ sourceTokens module)) :=
          ((spells_braces h hsource).blank (.inl (by decide))).mark (by decide)
        have hname := himport (Spells.name hfirst.isIdentifier (by decide) hcomma)
        simpa [ImportForm.text, tokens, clauses_eq, hnil, braces, entries, moreTokens,
          Function.comp_def, String.intercalate_cons_cons] using hname

theorem length_le_braces (named : List (String × String)) :
    named.length ≤ (bracesTokens named).length := by
  have hentries := length_le_intercalate (List.cons_ne_nil (Token.mark .comma) [])
    (named.map entryTokens)
  rw [List.length_map] at hentries
  rw [bracesTokens, List.length_cons, List.length_append]
  omega

theorem IsReadable.reads {r : Rules} (h : form.IsReadable)
    (hfuel : (form.tokens module).length < r.fuel) :
    Parser.Reads (statement r) (nameToken "import" :: form.tokens module ++ ts)
      (some (.importFrom (form.node module)), []) ts := by
  cases h with
  | bare => exact reads_statement reads_importDeclaration_bare ⟨by simp, by simp⟩
  | whole h => exact reads_statement (reads_importDeclaration_whole h) ⟨by decide, by decide⟩
  | @named named hne h =>
      have hlength : named.length < r.fuel := by
        have hbraces := length_le_braces named
        rw [tokens, List.length_append] at hfuel
        omega
      rw [List.cons_append, tokens, List.append_assoc]
      exact reads_statement (reads_importDeclaration_named h hlength) ⟨by decide, by decide⟩
  | @default first named hfirst h =>
      have hlength : named.length < r.fuel := by
        by_cases hnil : named = []
        · rw [hnil]
          exact Nat.zero_lt_of_lt hfuel
        · have hbraces := length_le_braces named
          rw [tokens, moreTokens, if_neg hnil, List.length_cons, List.length_append,
            List.length_cons] at hfuel
          omega
      rw [List.cons_append, tokens, List.cons_append, List.append_assoc]
      refine reads_statement (reads_importDeclaration_default hfirst h hlength) ?_
      rw [nameToken_eq hfirst.isIdentifier]
      exact ⟨Token.noConfusion, Token.noConfusion⟩

end ImportForm

theorem length_le_flatMap {ι : Type} {xs : List ι} {tokens : ι → List Token}
    (h : ∀ x, tokens x ≠ []) : xs.length ≤ (xs.flatMap tokens).length := by
  induction xs with
  | nil => exact Nat.zero_le _
  | cons x xs ih =>
      have hx := List.length_pos_iff.2 (h x)
      rw [List.flatMap_cons, List.length_append, List.length_cons]
      omega

theorem dropHashbang_eq (h : text.head? ≠ some '#') : dropHashbang text = text := by
  unfold dropHashbang
  split
  · exact absurd rfl h
  · rfl

theorem text_start (entry : String × ImportForm) :
    ∃ rest, (entry.2.text entry.1).toList = 'i' :: rest := by
  obtain ⟨module, form⟩ := entry
  cases form <;> exact ⟨_, by simp [ImportForm.text]; rfl⟩

theorem ofText?_lines {forms : List (String × ImportForm)}
    (h : ∀ entry ∈ forms, entry.2.IsReadable ∧ entry.1.toList.all (isPlain '\x27') = true) :
    Module.ofText? (joinLines (forms.map fun entry => entry.2.text entry.1))
      = some (forms.map fun entry => .importFrom (entry.2.node entry.1)) := by
  let printed (entry : String × ImportForm) : List Char := (entry.2.text entry.1).toList
  let tokens (entry : String × ImportForm) : List Token :=
    nameToken "import" :: entry.2.tokens entry.1
  have htext : (joinLines (forms.map fun entry => entry.2.text entry.1)).toList
      = ['\n'].intercalate (forms.map printed) := by
    rw [joinLines, String.toList_intercalate, List.map_map]
    rfl
  have hspells : ∀ entry ∈ forms, Spells (printed entry) (tokens entry) := fun entry hentry =>
    (h entry hentry).1.spells (h entry hentry).2
  have hscans : Scans (['\n'].intercalate (forms.map printed)) (forms.flatMap tokens) :=
    (spells_joined (.inr (by decide)) hspells).scans
  have hlength := hscans.length_le
  have hstart : (['\n'].intercalate (forms.map printed)).head? ≠ some '#' := by
    cases forms with
    | nil => simp
    | cons entry rest =>
        obtain ⟨letters, hletters⟩ := text_start entry
        cases rest with
        | nil => simp [printed, hletters]
        | cons next others => simp [printed, hletters, List.intercalate_cons_cons]
  have hfits : ∀ entry ∈ forms, (tokens entry).length ≤ (forms.flatMap tokens).length := by
    intro entry hentry
    obtain ⟨before, after, rfl⟩ := List.append_of_mem hentry
    simp only [List.flatMap_append, List.flatMap_cons, List.length_append]
    omega
  have hcount : forms.length ≤ (forms.flatMap tokens).length :=
    length_le_flatMap fun entry => List.cons_ne_nil _ _
  let r := rules (depth (['\n'].intercalate (forms.map printed)))
  have hfuel : r.fuel = 8 * (['\n'].intercalate (forms.map printed)).length + 15 := rfl
  have hreads : ∀ entry ∈ forms, ∀ us, Parser.Reads (statement r) (tokens entry ++ us)
      (some (.importFrom (entry.2.node entry.1)), []) us := by
    intro entry hentry us
    refine (h entry hentry).1.reads ?_
    have hle : (entry.2.tokens entry.1).length + 1 ≤ _ := hfits entry hentry
    omega
  have hread := reads_moduleItems hreads (fun entry _ => ⟨_, _, rfl, by decide⟩) (by omega)
  obtain ⟨d, hd, -⟩ := hread _ (Cursor.faces_ofText hscans)
  rw [Module.ofText?, Grammar.parse, htext, dropHashbang_eq hstart, hd]
  rfl

end Bridge

end ElementBridge
