import ElementBridge.Proofs.ScannedTokens
import Mathlib.Data.List.Forall2

namespace ElementBridge.Parser

open Scan

variable {α β : Type} {p : Parser α} {f : α → Parser β} {a : α} {b : β} {m : Mark} {k : Keyword}
  {t : Token} {ts us vs : List Token}

/-- In front of the tokens `ts` a parser reads `a` and stops in front of `us`. -/
def Reads (p : Parser α) (ts : List Token) (a : α) (us : List Token) : Prop :=
  ∀ c : Cursor, c.Faces ts → ∃ d, p c = some (a, d) ∧ d.Faces us

def Fails (p : Parser α) (ts : List Token) : Prop := ∀ c : Cursor, c.Faces ts → p c = none

theorem reads_pure (a : α) : Reads (pure a) ts a ts := fun c h => ⟨c, rfl, h⟩

theorem fails_failure : Fails (failure : Parser α) ts := fun _ _ => rfl

theorem Reads.bind (h : Reads p ts a us) (h' : Reads (f a) us b vs) : Reads (p >>= f) ts b vs := by
  intro c hc
  obtain ⟨d, hp, hd⟩ := h c hc
  obtain ⟨e, hf, he⟩ := h' d hd
  exact ⟨e, by simp [Bind.bind, StateT.bind, hp, hf], he⟩

theorem Reads.bind_fails (h : Reads p ts a us) (h' : Fails (f a) us) : Fails (p >>= f) ts := by
  intro c hc
  obtain ⟨d, hp, hd⟩ := h c hc
  simp [Bind.bind, StateT.bind, hp, h' d hd]

theorem Fails.bind (h : Fails p ts) : Fails (p >>= f) ts := fun c hc => by
  simp [Bind.bind, StateT.bind, h c hc]

theorem Reads.get {f : Cursor → Parser β} (h : ∀ c : Cursor, c.Faces ts → Reads (f c) ts b us) :
    Reads (MonadState.get >>= f) ts b us :=
  fun c hc => h c hc c hc

theorem Reads.map {g : α → β} (h : Reads p ts a us) : Reads (g <$> p) ts (g a) us := by
  intro c hc
  obtain ⟨d, hp, hd⟩ := h c hc
  exact ⟨d, by simp [Functor.map, StateT.map, hp], hd⟩

theorem Reads.ahead {p : Parser Bool} {b : Bool} (us : List Token) (h : Reads p ts b us) :
    Reads (ahead p) ts b ts := by
  intro c hc
  obtain ⟨d, hp, -⟩ := h c hc
  exact ⟨c, by simp [Parser.ahead, hp], hc⟩

theorem Fails.ahead {p : Parser Bool} (h : Fails p ts) : Reads (Parser.ahead p) ts false ts :=
  fun c hc => ⟨c, by simp [Parser.ahead, h c hc], hc⟩

theorem reads_advance : Reads advance (t :: ts) () ts := fun c h => ⟨c.next, rfl, h.next⟩

theorem reads_token : Reads token ts (ts.head?.getD .endOfText) ts :=
  fun c h => ⟨c, by rw [← h.token]; rfl, h⟩

theorem reads_is (m : Mark) : Reads (is m) ts (ts.head?.getD .endOfText == .mark m) ts :=
  fun c h => ⟨c, by rw [← h.token]; rfl, h⟩

theorem reads_eat : Reads (eat m) (.mark m :: ts) true ts := by
  refine (reads_is m).bind ?_
  simp only [List.head?_cons, Option.getD_some, beq_self_eq_true, if_true]
  exact reads_advance.bind (reads_pure _)

theorem reads_eat_other (h : ts.head? ≠ some (.mark m)) : Reads (eat m) ts false ts := by
  have hother : (ts.head?.getD .endOfText == .mark m) = false := by
    cases hhead : ts.head? with
    | none => rfl
    | some t => simpa [hhead] using h
  refine (reads_is m).bind ?_
  rw [hother]
  exact reads_pure _

theorem reads_expect : Reads (expect m) (.mark m :: ts) () ts := by
  refine reads_eat.bind ?_
  exact reads_pure _

def keywordOf : Token → Option Keyword
  | .word _ k => k
  | _ => none

theorem reads_keyword? : Reads keyword? (t :: ts) (keywordOf t) (t :: ts) := by
  refine .get fun c h => ?_
  have htoken : c.token = t := h.token
  rw [htoken]
  cases t <;> exact reads_pure _

theorem reads_isWord : Reads (isWord k) (t :: ts) (keywordOf t == some k) (t :: ts) :=
  reads_keyword?.bind (reads_pure _)

theorem reads_eatWord (h : keywordOf t = some k) : Reads (eatWord k) (t :: ts) true ts := by
  refine reads_isWord.bind ?_
  simp only [h, beq_self_eq_true, if_true]
  exact reads_advance.bind (reads_pure _)

theorem reads_eatWord_other (h : keywordOf t ≠ some k) :
    Reads (eatWord k) (t :: ts) false (t :: ts) := by
  refine reads_isWord.bind ?_
  rw [beq_eq_false_iff_ne.2 h]
  exact reads_pure _

theorem reads_expectWord (h : keywordOf t = some k) : Reads (expectWord k) (t :: ts) () ts := by
  refine (reads_eatWord h).bind ?_
  exact reads_pure _

theorem fails_expectWord (h : keywordOf t ≠ some k) : Fails (expectWord k) (t :: ts) := by
  refine (reads_eatWord_other h).bind_fails ?_
  exact fails_failure

theorem reads_atBinding :
    Reads atBinding (t :: ts) (isBinding .topLevel t) (t :: ts) := by
  intro c h
  have htoken : c.token = t := h.token
  exact ⟨c, by rw [← htoken, ← h.context]; rfl, h⟩

/-- Whether a line ends before a token is left open by the tokens. -/
theorem Reads.afterBreak {f : Bool → Parser β} (h : ∀ broken, Reads (f broken) ts b us) :
    Reads (Parser.afterBreak >>= f) ts b us := fun c hc => h c.afterBreak c hc

def isText : Token → Bool
  | .string _ => true
  | _ => false

theorem reads_isString : Reads isString (t :: ts) (isText t) (t :: ts) := by
  refine .get fun c h => ?_
  have htoken : c.token = t := h.token
  rw [htoken]
  cases t <;> exact reads_pure _

def isName : Token → Bool
  | .word _ _ => true
  | _ => false

theorem reads_isWordToken : Reads isWordToken (t :: ts) (isName t) (t :: ts) := by
  refine .get fun c h => ?_
  have htoken : c.token = t := h.token
  rw [htoken]
  cases t <;> exact reads_pure _

theorem reads_stringValue {value : String} : Reads stringValue (.string value :: ts) value ts := by
  refine .get fun c h => ?_
  have htoken : c.token = .string value := h.token
  rw [htoken]
  exact reads_advance.bind (reads_pure _)

section Lists

variable {close : Mark} {item : Parser α}

theorem Reads.iterate {step : β → Parser (β ⊕ α)} {b : β} {found : β ⊕ α} (n : Nat)
    (h : Reads (step b) ts found us)
    (h' : Reads (found.elim (Parser.iterate step n) pure) us a vs) :
    Reads (Parser.iterate step (n + 1) b) ts a vs := by
  refine h.bind ?_
  cases found <;> exact h'

def commaStep (close : Mark) (item : Parser α) (found : List α) : Parser (List α ⊕ List α) := do
  if ← is close then return .inr found.reverse
  let a ← item
  unless ← eat .comma do
    if ← is close then return .inr (a :: found).reverse
    failure
  return .inl (a :: found)

theorem commaList_eq (bound : Nat) :
    commaList bound close item = iterate (commaStep close item) bound [] := rfl

variable {ι : Type} {xs : List ι} {tokens : ι → List Token} {Means : ι → α → Prop}

theorem reads_commaStep (hclose : close ≠ .comma)
    (hitem : ∀ x ∈ xs, ∀ m us, ∃ a, Means x a ∧
      Reads item (tokens x ++ .mark m :: us) a (.mark m :: us))
    (hstart : ∀ x ∈ xs, ∃ t more, tokens x = t :: more ∧ t ≠ .mark close)
    {bound : Nat} (hbound : xs.length < bound) (found : List α) :
    ∃ more, List.Forall₂ Means xs more ∧ Reads (iterate (commaStep close item) bound found)
      ([Token.mark .comma].intercalate (xs.map tokens) ++ .mark close :: us) (found.reverse ++ more)
      (.mark close :: us) := by
  induction xs generalizing bound found with
  | nil =>
      obtain ⟨n, rfl⟩ : ∃ n, bound = n + 1 := ⟨bound - 1, by omega⟩
      refine ⟨[], .nil, ?_⟩
      have hstep : Reads (commaStep close item found) (.mark close :: us) (.inr found.reverse)
          (.mark close :: us) := by
        refine (reads_is close).bind ?_
        simp only [List.head?_cons, Option.getD_some, beq_self_eq_true, if_true]
        exact reads_pure _
      rw [List.append_nil]
      exact hstep.iterate n (reads_pure _)
  | cons x xs ih =>
      obtain ⟨n, rfl⟩ : ∃ n, bound = n + 1 := ⟨bound - 1, by omega⟩
      have hrest : xs.length < n := by simpa using hbound
      obtain ⟨hx, hxs⟩ := List.forall_mem_cons.1 hitem
      obtain ⟨⟨t, letters, htokens, hother⟩, hstarts⟩ := List.forall_mem_cons.1 hstart
      have hnot (vs : List Token) : Reads (is close) (tokens x ++ vs) false (tokens x ++ vs) := by
        have his := @reads_is (tokens x ++ vs) close
        rw [htokens, List.cons_append] at his ⊢
        rwa [List.head?_cons, Option.getD_some, beq_eq_false_iff_ne.2 hother] at his
      cases xs with
      | nil =>
          obtain ⟨a, hmeans, hread⟩ := hx close us
          refine ⟨[a], .cons hmeans .nil, ?_⟩
          have hstep : Reads (commaStep close item found) (tokens x ++ .mark close :: us)
              (.inr (a :: found).reverse) (.mark close :: us) := by
            refine (hnot _).bind (hread.bind ?_)
            refine (reads_eat_other (by simpa using hclose)).bind ((reads_is close).bind ?_)
            simp only [List.head?_cons, Option.getD_some, beq_self_eq_true, if_true]
            exact reads_pure _
          rw [List.map_singleton, List.intercalate_singleton]
          simpa using hstep.iterate n (reads_pure _)
      | cons y ys =>
          obtain ⟨a, hmeans, hread⟩ := hx .comma
            ([Token.mark .comma].intercalate ((y :: ys).map tokens) ++ .mark close :: us)
          obtain ⟨more, hmore, hreads⟩ := ih hxs hstarts hrest (a :: found)
          refine ⟨a :: more, .cons hmeans hmore, ?_⟩
          have hstep : Reads (commaStep close item found) (tokens x ++ .mark .comma ::
              ([Token.mark .comma].intercalate ((y :: ys).map tokens) ++ .mark close :: us))
              (.inl (a :: found))
              ([Token.mark .comma].intercalate ((y :: ys).map tokens) ++ .mark close :: us) := by
            refine (hnot _).bind (hread.bind ?_)
            exact reads_eat.bind (reads_pure _)
          have hlist := hstep.iterate n hreads
          simpa [List.intercalate_cons_cons] using hlist

theorem reads_commaList (hclose : close ≠ .comma)
    (hitem : ∀ x ∈ xs, ∀ m us, ∃ a, Means x a ∧
      Reads item (tokens x ++ .mark m :: us) a (.mark m :: us))
    (hstart : ∀ x ∈ xs, ∃ t more, tokens x = t :: more ∧ t ≠ .mark close)
    {bound : Nat} (hbound : xs.length < bound) (us : List Token) :
    ∃ found, List.Forall₂ Means xs found ∧ Reads (commaList bound close item)
      ([Token.mark .comma].intercalate (xs.map tokens) ++ .mark close :: us) found
      (.mark close :: us) := by
  rw [commaList_eq]
  exact reads_commaStep hclose hitem hstart hbound []

def manyStep (item : Parser (Option α)) (found : List α) : Parser (List α ⊕ List α) := do
  match ← item with
  | some a => return .inl (a :: found)
  | none => return .inr found.reverse

theorem many_eq (item : Parser (Option α)) (bound : Nat) :
    many bound item = iterate (manyStep item) bound [] := rfl

theorem reads_many {item : Parser (Option α)} {value : ι → α}
    (hitem : ∀ x ∈ xs, ∀ us, Reads item (tokens x ++ us) (some (value x)) us)
    (hend : Reads item us none us) {bound : Nat} (hbound : xs.length < bound) :
    Reads (many bound item) (xs.flatMap tokens ++ us) (xs.map value) us := by
  have hrow (found : List α) : Reads (iterate (manyStep item) bound found)
      (xs.flatMap tokens ++ us) (found.reverse ++ xs.map value) us := by
    induction xs generalizing bound found with
    | nil =>
        obtain ⟨n, rfl⟩ : ∃ n, bound = n + 1 := ⟨bound - 1, by omega⟩
        have hstep : Reads (manyStep item found) us (.inr found.reverse) us :=
          hend.bind (reads_pure _)
        simpa using hstep.iterate n (reads_pure _)
    | cons x xs ih =>
        obtain ⟨n, rfl⟩ : ∃ n, bound = n + 1 := ⟨bound - 1, by omega⟩
        obtain ⟨hx, hxs⟩ := List.forall_mem_cons.1 hitem
        have hstep : Reads (manyStep item found) (tokens x ++ (xs.flatMap tokens ++ us))
            (.inl (value x :: found)) (xs.flatMap tokens ++ us) := (hx _).bind (reads_pure _)
        have hreads := hstep.iterate n (ih hxs (by simpa using hbound) (value x :: found))
        simpa using hreads
  rw [many_eq]
  exact hrow []

end Lists

end ElementBridge.Parser
