import ElementBridge.Proofs.HostClasses
import ElementBridge.Proofs.ParsedTypes
import ElementBridge.Proofs.UnquotedCode

namespace ElementBridge

open ElementBridge.Tree

namespace Scan

variable {text rest mid : List Char} {n k : Nat} {isOk : Char → Bool}

/-- A text with a piece of `n` letters before a rest, and no quote mark in the piece. -/
def Cuts (text : List Char) (n : Nat) (rest : List Char) : Prop :=
  ∃ piece, text = piece ++ rest ∧ piece.length = n ∧ Unquoted piece

theorem Cuts.unquoted_take (h : Cuts text n rest) : Unquoted (text.take n) := by
  obtain ⟨piece, rfl, rfl, hpiece⟩ := h
  rwa [List.take_left]

theorem Cuts.append (h : Cuts text n mid) (h' : Cuts mid k rest) : Cuts text (n + k) rest := by
  obtain ⟨piece, rfl, rfl, hpiece⟩ := h
  obtain ⟨more, rfl, rfl, hmore⟩ := h'
  exact ⟨piece ++ more, (List.append_assoc _ _ _).symm, List.length_append,
    unquoted_append.2 ⟨hpiece, hmore⟩⟩

theorem Cuts.cons {c : Char} (hc : c ≠ '\x27' ∧ c ≠ '"') (h : Cuts text n rest) :
    Cuts (c :: text) (n + 1) rest := by
  obtain ⟨piece, rfl, rfl, hpiece⟩ := h
  exact ⟨c :: piece, rfl, rfl, unquoted_cons.2 ⟨hc, hpiece⟩⟩

theorem cuts_nil (text : List Char) : Cuts text 0 text := ⟨[], rfl, rfl, rfl⟩

theorem cuts_digitRun {run : List Char} (hmarks : isOk '\x27' = false ∧ isOk '"' = false)
    (h : digitRun isOk text = some (run, rest)) : Cuts text run.length rest := by
  unfold digitRun at h
  dsimp only at h
  split at h
  · obtain ⟨rfl, rfl⟩ := Prod.mk.inj (Option.some.inj h)
    have hprefix := List.takeWhile_prefix (fun c => isOk c || c == '_') (l := text)
    refine ⟨_, (List.prefix_iff_eq_append.1 hprefix).symm, rfl, unquoted_iff.2 fun c hc => ?_⟩
    have hok := List.all_eq_true.1 List.all_takeWhile c hc
    constructor <;> rintro rfl <;> simp [hmarks] at hok
  · cases h

theorem cuts_fraction (h : fraction text = some (n, rest)) : Cuts text n rest := by
  unfold fraction at h
  split at h
  · obtain ⟨⟨run, left⟩, hrun, heq⟩ := Option.map_eq_some_iff.1 h
    obtain ⟨rfl, rfl⟩ := Prod.mk.inj heq
    exact (cuts_digitRun (by decide) hrun).cons (by decide)
  · obtain ⟨rfl, rfl⟩ := Prod.mk.inj (Option.some.inj h)
    exact cuts_nil _

theorem cuts_exponent (h : exponent text = some (n, rest)) : Cuts text n rest := by
  unfold exponent at h
  split at h
  · next e r =>
      split at h
      · next hmark =>
          have he : e ≠ '\x27' ∧ e ≠ '"' := by
            constructor <;> rintro rfl <;> exact absurd hmark (by decide)
          have digits {sign : Nat} (hsign : Cuts r sign (r.drop sign)) {d : Char}
              {ds left : List Char}
              (hrun : digitRun Text.isDigit (r.drop sign) = some (d :: ds, left)) :
              Cuts (e :: r) (ds.length + 2 + sign) left := by
            have hall := (hsign.append (cuts_digitRun (by decide) hrun)).cons he
            have hlength : sign + (d :: ds).length + 1 = ds.length + 2 + sign := by
              rw [List.length_cons]
              omega
            rwa [hlength] at hall
          dsimp only at h
          split at h
          · next d ds left hrun =>
              obtain ⟨rfl, rfl⟩ := Prod.mk.inj (Option.some.inj h)
              refine digits ?_ hrun
              split
              · exact (cuts_nil _).cons (by decide)
              · exact (cuts_nil _).cons (by decide)
              · exact cuts_nil _
          · cases h
      · obtain ⟨rfl, rfl⟩ := Prod.mk.inj (Option.some.inj h)
        exact cuts_nil _
  · obtain ⟨rfl, rfl⟩ := Prod.mk.inj (Option.some.inj h)
    exact cuts_nil _

theorem endNumber_eq {t : Token} {length : Nat} (h : endNumber t length rest = (.number, n)) :
    t = .number ∧ length = n := by
  unfold endNumber at h
  split at h
  · split at h
    · cases h
    · exact Prod.mk.inj h
  · exact Prod.mk.inj h

theorem unquoted_radixNumber {a b : Char} (ha : a ≠ '\x27' ∧ a ≠ '"') (hb : b ≠ '\x27' ∧ b ≠ '"')
    (hmarks : isOk '\x27' = false ∧ isOk '"' = false)
    (h : radixNumber isOk text = (.number, n)) : Unquoted ((a :: b :: text).take n) := by
  unfold radixNumber at h
  split at h
  · exact absurd (endNumber_eq h).1 (by simp)
  · next d ds left hother hrun =>
      obtain ⟨-, rfl⟩ := endNumber_eq h
      exact (((cuts_digitRun hmarks hrun).cons hb).cons ha).unquoted_take
  · cases h

theorem unquoted_decimalNumber (h : decimalNumber text = (.number, n)) :
    Unquoted (text.take n) := by
  unfold decimalNumber at h
  split at h
  · cases h
  · next whole left hrun =>
      have hwhole := cuts_digitRun (by decide) hrun
      dsimp only at h
      split at h
      · cases h
      · split at h
        · split at h
          · exact absurd (endNumber_eq h).1 (by simp)
          · cases h
        · split at h
          · obtain ⟨-, rfl⟩ := endNumber_eq h
            exact hwhole.unquoted_take
          · split at h
            · cases h
            · next k mid hfraction =>
                split at h
                · cases h
                · next m last hexponent =>
                    obtain ⟨-, rfl⟩ := endNumber_eq h
                    exact ((hwhole.append (cuts_fraction hfraction)).append
                      (cuts_exponent hexponent)).unquoted_take

theorem unquoted_number (h : number text = (.number, n)) : Unquoted (text.take n) := by
  unfold number at h
  split at h
  iterate 6 exact unquoted_radixNumber (by decide) (by decide) (by decide) h
  exact unquoted_decimalNumber h

theorem unquoted_token (h : token text = (.number, n)) : Unquoted (text.take n) := by
  have hstring (quote : Char) (r : List Char) : string quote r ≠ (.number, n) := by
    unfold string
    split <;> simp
  have htemplate (r : List Char) : template r ≠ (.number, n) := by
    unfold template
    split <;> simp
  unfold token at h
  split at h
  · cases h
  · exact absurd h (hstring _ _)
  · exact absurd h (hstring _ _)
  · exact absurd h (htemplate _)
  · split at h <;> cases h
  · split at h
    · exact unquoted_decimalNumber h
    · split at h <;> cases h
  · split at h
    · exact unquoted_number h
    · split at h
      · cases h
      · unfold wordToken at h
        split at h <;> cases h

end Scan

def Cursor.Plain (c : Cursor) : Prop := c.token = .number → Scan.Unquoted c.spelling.toList

theorem Cursor.plain_next (c : Cursor) : c.next.Plain := by
  intro hnumber
  unfold next moveTo spelling at *
  split at hnumber
  · cases hnumber
  · next n broken hgap =>
      simp only at hnumber ⊢
      rw [String.toList_ofList, Nat.add_sub_cancel_left]
      exact Scan.unquoted_token (Prod.ext hnumber rfl)

namespace Parser

variable {α β : Type} {p : Parser α} {f : α → Parser β} {C : Cursor → Prop} {P : α → Prop}
  {Q : β → Prop}

/-- What a parser reads from places such that `C`, is such that `P`. -/
def YieldsFrom (C : Cursor → Prop) (p : Parser α) (P : α → Prop) : Prop :=
  ∀ c a d, C c → p c = some (a, d) → P a

def Stays (p : Parser α) : Prop := ∀ c a d, p c = some (a, d) → d = c

theorem YieldsFrom.of_yields (h : Yields p P) : YieldsFrom C p P := fun c a d _ ha => h c a d ha

theorem stays_pure (a : α) : Stays (pure a) := by
  intro c b d hb
  exact (Prod.mk.inj (Option.some.inj hb)).2.symm

theorem stays_get : Stays (get : Parser Cursor) := by
  intro c b d hb
  exact (Prod.mk.inj (Option.some.inj hb)).2.symm

theorem stays_ahead (p : Parser Bool) : Stays (ahead p) := by
  intro c b d hb
  unfold Parser.ahead at hb
  split at hb
  · exact (Prod.mk.inj (Option.some.inj hb)).2.symm
  · exact (Prod.mk.inj (Option.some.inj hb)).2.symm

theorem Stays.bind (hp : Stays p) (hf : ∀ a, Stays (f a)) : Stays (p >>= f) := by
  intro c b e hb
  obtain ⟨⟨a, d⟩, ha, hf'⟩ := Option.bind_eq_some_iff.1 hb
  obtain rfl := hp c a d ha
  exact hf a d b e hf'

theorem Stays.ite {b : Prop} [Decidable b] {q : Parser α} (h : b → Stays p) (h' : ¬ b → Stays q) :
    Stays (if b then p else q) :=
  iteInduction h h'

theorem Stays.then (hp : Stays p) (hf : ∀ a, YieldsFrom C (f a) Q) :
    YieldsFrom C (p >>= f) Q := by
  intro c b e hc hb
  obtain ⟨⟨a, d⟩, ha, hf'⟩ := Option.bind_eq_some_iff.1 hb
  obtain rfl := hp c a d ha
  exact hf a d b e hc hf'

theorem yieldsFrom_get {f : Cursor → Parser β} (h : ∀ c, C c → YieldsFrom (· = c) (f c) Q) :
    YieldsFrom C (get >>= f) Q :=
  fun c b e hc hb => h c hc c b e rfl hb

theorem YieldsFrom.of_eq {c : Cursor} (hc : C c) (h : YieldsFrom C p P) :
    YieldsFrom (· = c) p P :=
  fun d a e heq ha => h d a e (heq ▸ hc) ha

theorem YieldsFrom.bind (h : YieldsFrom C p P) (h' : ∀ a, P a → Yields (f a) Q) :
    YieldsFrom C (p >>= f) Q := by
  intro c b e hc hb
  obtain ⟨⟨a, d⟩, ha, hb⟩ := Option.bind_eq_some_iff.1 hb
  exact h' a (h c a d hc ha) d b e hb

theorem yields_advance {f : Unit → Parser β} (h : YieldsFrom Cursor.Plain (f ()) Q) :
    Yields (advance >>= f) Q :=
  fun c b e hb => h c.next b e c.plain_next hb

theorem YieldsFrom.within {change : Context → Context} (h : YieldsFrom C p P)
    (hchange : ∀ c, C c → C { c with context := change c.context }) :
    YieldsFrom C (within change p) P := by
  intro c a d hc ha
  unfold Parser.within at ha
  split at ha
  · next b e hb =>
      obtain ⟨rfl, -⟩ := Prod.mk.inj (Option.some.inj ha)
      exact h _ b e (hchange c hc) hb
  · cases ha

theorem YieldsFrom.quoted (h : YieldsFrom C p P) : YieldsFrom C (quoted p) fun x => P x.1 := by
  intro c x d hc hx
  unfold Parser.quoted at hx
  split at hx
  · next a e ha =>
      obtain ⟨rfl, -⟩ := Prod.mk.inj (Option.some.inj hx)
      exact h _ a e hc ha
  · cases hx

theorem YieldsFrom.ite {b : Prop} [Decidable b] {q : Parser α} (h : b → YieldsFrom C p P)
    (h' : ¬ b → YieldsFrom C q P) : YieldsFrom C (if b then p else q) P :=
  iteInduction (motive := fun p => YieldsFrom C p P) h h'

theorem yields_eaten {p : Parser Bool} {f : Bool → Parser β}
    (h : YieldsFrom Cursor.Plain (f true) Q) (h' : Yields (f false) Q) :
    Yields ((do if ← p then advance; return true else return false) >>= f) Q := by
  rw [bind_assoc]
  refine .behind fun found => ?_
  cases found with
  | true =>
      change Yields ((advance >>= fun _ => pure true) >>= f) Q
      rw [bind_assoc]
      exact yields_advance h
  | false => exact h'.pure_bind

/-- A parser that reads something such that `P`, or does not move. -/
def Tries (p : Parser (Option α)) (P : α → Prop) : Prop :=
  ∀ c o d, p c = some (o, d) → (∀ a ∈ o, P a) ∧ (o = none → d = c)

theorem tries_none : Tries (pure none : Parser (Option α)) P := by
  intro c o d ho
  obtain ⟨rfl, rfl⟩ := Prod.mk.inj (Option.some.inj ho)
  exact ⟨nofun, fun _ => rfl⟩

theorem Yields.attempt (h : Yields p P) : Tries (attempt p) P := by
  intro c o d ho
  unfold Parser.attempt at ho
  split at ho
  · next a e ha =>
      obtain ⟨rfl, -⟩ := Prod.mk.inj (Option.some.inj ho)
      exact ⟨fun b hb => Option.some.inj hb ▸ h c a e ha, nofun⟩
  · obtain ⟨rfl, rfl⟩ := Prod.mk.inj (Option.some.inj ho)
    exact ⟨nofun, fun _ => rfl⟩

theorem Yields.tries {p : Parser (Option α)} (h : Yields p fun o => ∃ a, o = .some a ∧ P a) :
    Tries p P := by
  intro c o d ho
  obtain ⟨a, rfl, ha⟩ := h c o d ho
  exact ⟨fun b hb => Option.some.inj hb ▸ ha, nofun⟩

theorem Stays.tries {f : β → Parser (Option α)} {p : Parser β} (hp : Stays p)
    (hf : ∀ b, Tries (f b) P) : Tries (p >>= f) P := by
  intro c o e ho
  obtain ⟨⟨b, d⟩, hb, hf'⟩ := Option.bind_eq_some_iff.1 ho
  obtain rfl := hp c b d hb
  exact hf b d o e hf'

theorem Tries.ite {b : Prop} [Decidable b] {p q : Parser (Option α)} (h : b → Tries p P)
    (h' : ¬ b → Tries q P) : Tries (if b then p else q) P :=
  iteInduction (motive := fun p => Tries p P) h h'

theorem Tries.then {p : Parser (Option α)} {f : Option α → Parser β} (hp : Tries p P)
    (hsome : ∀ a, P a → Yields (f (some a)) Q) (hnone : YieldsFrom C (f none) Q) :
    YieldsFrom C (p >>= f) Q := by
  intro c b e hc hb
  obtain ⟨⟨o, d⟩, ho, hf⟩ := Option.bind_eq_some_iff.1 hb
  obtain ⟨hread, hstays⟩ := hp c o d ho
  cases o with
  | some a => exact hsome a (hread a rfl) d b e hf
  | none =>
      obtain rfl := hstays rfl
      exact hnone d b e hc hf

theorem stays_is (m : Mark) : Stays (is m) := stays_get.bind fun _ => stays_pure _

theorem stays_keyword? : Stays keyword? := by
  refine stays_get.bind fun c => ?_
  split <;> exact stays_pure _

theorem stays_isWord (k : Keyword) : Stays (isWord k) := stays_keyword?.bind fun _ => stays_pure _

end Parser

def Tree.Expr.Plain : Expr → Prop
  | .name id => Scan.Unquoted id.toList
  | .number literal => Scan.Unquoted literal.toList
  | .negated e => e.Plain
  | _ => True

def Tree.EnumNode.Plain (node : EnumNode) : Prop :=
  ∀ m ∈ node.members, ∀ init ∈ m.initializer, init.expr.Plain

/-- The expressions that a bridge takes over from a declaration. -/
def Tree.Declaration.Plain : Declaration → Prop
  | .enum node => node.Plain
  | .classDef node => ∀ base ∈ node.base, base.Plain
  | _ => True

namespace Grammar

open ElementBridge.Parser

variable {r : Rules}

theorem stays_atYield : Stays atYield :=
  (stays_isWord _).bind fun _ => stays_get.bind fun _ => stays_pure _

theorem yields_bareArrow (async outside : Bool) :
    Yields (bareArrow r async outside) fun e => e.expr.Plain := by
  unfold bareArrow
  refine .behind fun _ => .behind fun _ => .ite (fun _ => yields_fails) fun _ => ?_
  exact .behind fun _ => .behind fun _ => yields_pure trivial

theorem yields_arrowFunction (async outside : Bool) :
    Yields (arrowFunction r async outside) fun e => e.expr.Plain := by
  unfold arrowFunction
  refine .behind fun _ => .behind fun _ => .ite (fun _ => ?_) fun _ => yields_pure trivial
  exact .behind fun _ => .ite (fun _ => yields_pure trivial) fun _ => yields_fails

theorem tries_arrow? (outside : Bool) : Tries (arrow? r outside) fun e => e.expr.Plain := by
  have bare (async : Bool) : Yields (do return some (← bareArrow r async outside))
      fun o => ∃ e, o = some e ∧ e.expr.Plain :=
    (yields_bareArrow async outside).bind fun e he => yields_pure ⟨e, rfl, he⟩
  unfold arrow?
  refine (stays_ahead _).tries fun _ => .ite (fun _ => (bare false).tries) fun _ => ?_
  refine (stays_ahead _).tries fun _ => .ite (fun _ => ?_) fun _ => ?_
  · refine (stays_ahead _).tries fun _ => .ite (fun _ => ?_) fun _ => ?_
    · exact (Yields.behind fun _ => bare true).tries
    · refine Yields.attempt (.behind fun _ => .behind fun _ => ?_)
      exact .ite (fun _ => yields_arrowFunction true outside) fun _ => yields_fails
  · have opens : Stays opensCall :=
      (stays_is _).bind fun _ => (stays_is _).bind fun _ => stays_pure _
    exact opens.tries fun _ =>
      .ite (fun _ => (yields_arrowFunction false outside).attempt) fun _ => tries_none

def PlainOperand (o : Operand) : Prop := o.expr.Plain

theorem yields_literal {e : Expr} (he : e.Plain) : Yields (literal e) PlainOperand :=
  .behind fun _ => yields_pure he

theorem yields_functionExpression : Yields (functionExpression r) PlainOperand := by
  have hrest (async generator : Bool) : Yields (do
      let f ← callable r async generator
      unless f.hasBody do failure
      return parts f.parts) PlainOperand :=
    .behind fun _ => .ite (fun _ => yields_pure trivial) fun _ => yields_fails
  unfold functionExpression
  refine .behind fun async => .behind fun _ => .behind fun generator => .behind fun _ => ?_
  exact .ite (fun _ => .behind fun _ => hrest async generator) fun _ => hrest async generator

theorem yields_classExpression : Yields (classExpression r) PlainOperand := by
  unfold classExpression
  exact .behind fun _ => .behind fun _ => .behind fun _ => yields_pure trivial

theorem yieldsFrom_primary : YieldsFrom Cursor.Plain (primary r) PlainOperand := by
  unfold primary
  refine yieldsFrom_get fun c hc => ?_
  split
  · next w _ _ =>
    refine .of_yields (.ite (fun _ => .behind fun _ => .ite (fun _ => ?_) fun _ => ?_) fun _ => ?_)
    · exact yields_functionExpression
    · exact .behind fun _ => yields_pure (Scan.unquoted_of_isIdentifier w.isIdentifier)
    · split
      iterate 4 exact yields_literal (e := .other []) trivial
      · exact .behind fun _ => .behind fun _ => .behind fun _ => .behind fun _ =>
          .ite (fun _ => yields_pure trivial) fun _ => yields_fails
      · exact yields_functionExpression
      · exact yields_classExpression
      · exact yields_failure
  · next value _ => exact .of_yields (yields_literal (e := .string value) trivial)
  · next hnumber => exact .of_yields (yields_literal (e := .number c.spelling) (hc hnumber))
  · exact .of_yields (yields_literal (e := .other []) trivial)
  iterate 2 exact .of_yields (.behind fun _ => yields_pure trivial)
  · exact .of_yields (.behind fun _ => .behind fun _ =>
      .ite (fun _ => yields_pure trivial) fun _ => yields_fails)
  iterate 2 exact .of_yields (.behind fun _ => yields_pure trivial)
  · exact .of_yields (.behind fun _ => .behind fun _ => .behind fun _ => yields_pure trivial)
  iterate 2 exact .of_yields (.behind fun _ => yields_pure trivial)
  · exact .of_yields yields_classExpression
  · exact .of_yields yields_failure

def PlainStep (x : (Operand × Bool) ⊕ (Operand × Bool)) : Prop :=
  (∀ y : Operand × Bool, y ∈ x.getLeft? → PlainOperand y.1) ∧
    ∀ y : Operand × Bool, y ∈ x.getRight? → PlainOperand y.1

theorem yields_chainStep (calls : Bool) {e : Operand} (he : PlainOperand e) (chained : Bool) :
    Yields (chainStep r calls e chained) PlainStep := by
  have hinl {o : Operand} (ho : PlainOperand o) (b : Bool) :
      Yields (pure (.inl (o, b))) PlainStep :=
    yields_inl (P := fun y : Operand × Bool => PlainOperand y.1) ho
  have hinr : Yields (pure (.inr (e, chained))) PlainStep :=
    yields_inr (Q := fun y : Operand × Bool => PlainOperand y.1) he
  have hother (es : List Expr) (t : Target) (b : Bool) :
      Yields (pure (.inl (⟨.other es, t⟩, b))) PlainStep :=
    hinl (o := ⟨.other es, t⟩) trivial b
  have hcall (b : Bool) (callee : Expr) (args : List Expr) :
      Yields (pure (.inl (plain (.call callee args), b))) PlainStep :=
    hinl (o := plain (.call callee args)) trivial b
  have haccess (object : Expr) (name : Option String) : PlainOperand (access object name) := by
    cases name <;> trivial
  unfold chainStep
  refine .behind fun c => ?_
  split
  · exact .behind fun _ => .behind fun _ => hinl (haccess _ _) _
  · -- behind `?.`
    refine .ite (fun _ => .behind fun _ => .behind fun _ => .ite (fun _ => ?_) fun _ => ?_)
      fun _ => yields_fails
    · exact .behind fun _ => .behind fun _ => .behind fun _ => hother _ _ _
    · refine .behind fun _ => .behind fun _ => .ite (fun _ => .behind fun _ => hcall _ _ _)
        fun _ => ?_
      exact .behind fun _ => .ite (fun _ => yields_fails) fun _ =>
        .behind fun _ => hinl (o := plain (access _ _).expr) (haccess _ _) _
  · refine .ite (fun _ => hinr) fun _ => ?_
    exact .behind fun _ => .behind fun _ => .behind fun _ => hother _ _ _
  · exact .ite (fun _ => hinr) fun _ => .behind fun _ => hother _ _ _
  · exact .ite (fun _ => .behind fun _ => hcall _ _ _) fun _ => hinr
  iterate 2 exact .ite (fun _ => yields_fails) fun _ => .behind fun _ => hother _ _ _
  iterate 2
    -- type arguments, if they are
    refine .behind fun _ => .ite (fun _ => .behind fun _ => .ite (fun _ => ?_) fun _ => ?_)
      fun _ => hinr
    · exact .behind fun _ => hcall _ _ _
    · refine .behind fun _ => .ite (fun _ => .behind fun _ => hother _ _ _) fun _ => ?_
      exact .ite (fun _ => hother _ _ _) fun _ => hinr
  · exact hinr

theorem yields_chainFrom (calls : Bool) {e : Operand} (he : PlainOperand e) :
    Yields (chainFrom r calls e) PlainOperand := by
  unfold chainFrom
  refine Yields.bind (P := fun x : Operand × Bool => PlainOperand x.1) (.iterate
    (P := fun x : Operand × Bool => PlainOperand x.1) (fun x hx => ?_) he) fun x hx => ?_
  · exact yields_chainStep calls hx x.2
  · refine yields_pure ?_
    split
    · exact hx
    · exact hx

theorem yields_newExpression (n : Nat) : Yields (newExpression r n) PlainOperand := by
  cases n with
  | zero => exact yields_failure
  | succ n =>
      unfold newExpression
      refine .behind fun _ => .behind fun _ =>
        .ite (fun _ => .behind fun _ => yields_pure trivial) fun _ => ?_
      have hrest (callee : Operand) : Yields (do
          let args ← if ← is .openParen then arguments r else pure []
          return parts (callee.expr :: args)) PlainOperand :=
        .behind fun _ => .join fun _ => yields_pure trivial
      refine .behind fun _ => .behind fun _ => .ite (fun _ => .behind hrest) fun _ => ?_
      exact .ite (fun _ => .behind hrest) fun _ => .behind fun _ => .behind hrest

theorem yields_importExpression : Yields (importExpression r) PlainOperand := by
  have hrest : Yields (do
      let args ← arguments r
      if args.isEmpty then failure
      return parts args) PlainOperand :=
    .behind fun _ => .after fun _ => yields_pure trivial
  unfold importExpression
  refine .behind fun _ => .behind fun _ => .ite (fun _ => .behind fun _ => ?_) fun _ => hrest
  refine .ite (fun _ => yields_pure trivial) fun _ => ?_
  exact .ite (fun _ => hrest) fun _ => .behind fun _ => hrest

theorem yieldsFrom_chain : YieldsFrom Cursor.Plain (chain r) PlainOperand := by
  unfold chain
  refine (stays_isWord _).then fun _ => (stays_isWord _).then fun _ => .ite (fun _ => ?_)
    fun _ => .ite (fun _ => ?_) fun _ => ?_
  · exact .of_yields ((yields_newExpression _).bind fun e he => yields_chainFrom true he)
  · exact .of_yields (yields_importExpression.bind fun e he => yields_chainFrom true he)
  · exact yieldsFrom_primary.bind fun e he => yields_chainFrom true he

theorem yieldsFrom_postfixExpression :
    YieldsFrom Cursor.Plain (postfixExpression r) PlainOperand := by
  unfold postfixExpression
  refine yieldsFrom_chain.bind fun e he => .behind fun _ => .behind fun _ => .behind fun _ => ?_
  refine .ite (fun _ => ?_) fun _ => yields_pure he
  exact .ite (fun _ => .behind fun _ => yields_pure trivial) fun _ => yields_fails

theorem stays_atAwait : Stays atAwait := by
  unfold atAwait
  refine stays_get.bind fun c => (stays_isWord _).bind fun _ => .ite (fun _ => ?_) fun _ =>
    stays_pure _
  exact .ite (fun _ => stays_pure _) fun _ => stays_ahead _

theorem yieldsFrom_unary (n : Nat) :
    YieldsFrom Cursor.Plain (unary r n) fun x => PlainOperand x.1 := by
  induction n with
  | zero => exact .of_yields yields_failure
  | succ n ih =>
      have hother (p : Parser Expr) :
          Yields (do return (parts [← p], true)) fun x => PlainOperand x.1 :=
        .behind fun _ => yields_pure trivial
      unfold unary
      refine yieldsFrom_get fun c hc => stays_atAwait.then fun isAwait => ?_
      split
      · -- behind a minus sign
        refine .of_yields (Yields.bind (P := Expr.Plain) (yields_advance ?_) fun e he => ?_)
        · exact ih.bind fun x hx => yields_pure hx
        · exact yields_pure he
      iterate 3 exact .of_yields (hother _)
      iterate 2
        exact .of_yields (.behind fun _ => .behind fun _ =>
          .ite (fun _ => yields_pure trivial) fun _ => yields_fails)
      · exact .of_yields (.behind fun _ => .behind fun _ => .behind fun _ => .behind fun _ =>
          yields_pure trivial)
      iterate 3 exact .of_yields (hother _)
      · refine .ite (fun _ => .of_yields ?_) fun _ => ?_
        · exact .ite (fun _ => hother _) fun _ => yields_fails
        · refine YieldsFrom.of_eq hc (yieldsFrom_postfixExpression.bind fun e he => ?_)
          exact yields_pure (a := (e, false)) (P := fun x => PlainOperand x.1) he

theorem yieldsFrom_operatorRow : YieldsFrom Cursor.Plain (operatorRow r) PlainOperand := by
  unfold operatorRow
  refine (yieldsFrom_unary _).bind fun x hx => ?_
  refine Yields.bind (P := fun row : Row => PlainOperand row.last) (.iterate
    (P := fun row : Row => PlainOperand row.last) (fun row hrow => ?_) hx) fun row hrow =>
      yields_pure hrow
  refine .behind fun op => ?_
  split
  · exact yields_inr hrow
  · exact .behind fun _ => .behind fun _ => yields_inl trivial
  · refine .ite (fun _ => yields_fails) fun _ => .behind fun _ => .behind fun _ => ?_
    exact .ite (fun _ => yields_fails) fun _ => yields_inl trivial

theorem yieldsFrom_assignment (outside : Bool) :
    YieldsFrom Cursor.Plain (assignment r outside) PlainOperand := by
  unfold assignment
  refine stays_atYield.then fun _ => .ite (fun _ => ?_) fun _ => ?_
  · have hparts (p : Parser Operand) :
        Yields (do return parts [(← p).expr]) PlainOperand :=
      .behind fun _ => yields_pure trivial
    refine .of_yields (.behind fun _ => .behind fun _ =>
      .ite (fun _ => yields_pure trivial) fun _ => .behind fun _ => .ite (fun _ => hparts _) fun _ =>
        .behind fun _ => ?_)
    split
    iterate 8 exact yields_pure trivial
    exact hparts _
  refine (tries_arrow? _).then (fun f hf => yields_pure hf) (stays_get.then fun c => ?_)
  refine yieldsFrom_operatorRow.bind fun e he => .behind fun _ => .behind fun _ => ?_
  refine .ite (fun _ => ?_) fun _ => .behind fun _ => .ite (fun _ => ?_) fun _ => yields_pure he
  · refine .ite (fun _ => .after fun _ => ?_) fun _ => yields_fails
    exact .behind fun _ => .behind fun _ => yields_pure trivial
  · exact .behind fun _ => .behind fun _ => .behind fun _ => yields_pure trivial

theorem yieldsFrom_rules (n : Nat) :
    YieldsFrom Cursor.Plain ((rules n).assignment true) PlainOperand ∧
      YieldsFrom Cursor.Plain (rules n).chain PlainOperand := by
  cases n with
  | zero => exact ⟨.of_yields yields_failure, .of_yields yields_failure⟩
  | succ n => exact ⟨yieldsFrom_assignment true, yieldsFrom_chain⟩

section Enums

variable (hr : YieldsFrom Cursor.Plain (r.assignment true) PlainOperand)
include hr

theorem yieldsFrom_value : YieldsFrom Cursor.Plain r.value Expr.Plain := by
  unfold Rules.value
  exact (hr.within fun _ hc => hc).bind fun e he => yields_pure he

theorem yields_enumMember : Yields (enumMember r)
    fun m => ∀ init ∈ m.initializer, init.expr.Plain := by
  unfold enumMember
  refine Yields.bind (.quoted (P := fun x : Option String × Option Quoted =>
    ∀ init ∈ x.2, init.expr.Plain) ?_) fun x hx => yields_pure hx
  refine .behind fun name => yields_eaten ?_ (yields_pure nofun)
  refine (yieldsFrom_value hr).quoted.bind fun x hx => yields_pure fun init hinit => ?_
  exact Option.some.inj hinit ▸ hx

theorem yields_enumDeclaration : Yields (enumDeclaration r) EnumNode.Plain := by
  unfold enumDeclaration
  refine .behind fun _ => .behind fun _ => .behind fun _ => ?_
  exact (yields_enumMember hr).commaList.bind fun ms hms => .behind fun _ => yields_pure hms

end Enums

theorem yields_classRest_plain (hr : YieldsFrom Cursor.Plain r.chain PlainOperand) :
    Yields (classRest r) fun x => ∀ base ∈ x.1.base, base.Plain := by
  have hbody (name : Option Name) {base : Option Expr} (hbase : ∀ e ∈ base, e.Plain) : Yields (do
      let x ← classBody r
      return ((⟨name, base, x.1⟩ : ClassNode), base.toList ++ x.2))
      fun x => ∀ base ∈ x.1.base, base.Plain :=
    .behind fun x => yields_pure hbase
  unfold classRest
  refine .behind fun _ => .behind fun _ => .join fun name => .behind fun _ => yields_eaten ?_ ?_
  · refine hr.bind fun e he => .behind fun _ => .pure_bind (.behind fun _ => .after fun _ => ?_)
    exact hbody name fun b hb => Option.some.inj hb ▸ he
  · exact .pure_bind (.behind fun _ => .after fun _ => hbody name fun _ hb => nomatch hb)

theorem yieldsDeclared_plain (n : Nat) : YieldsDeclared (rules n) Declaration.Plain where
  interface := fun _ _ _ _ => trivial
  typeAlias := fun _ _ _ _ => trivial
  enum := yields_enumDeclaration (yieldsFrom_rules n).1
  classRest := yields_classRest_plain (yieldsFrom_rules n).2
  other := trivial

end Grammar

namespace Number

open Scan

theorem unquoted_digitsOf (n : Nat) : Unquoted (digitsOf n) := by
  refine unquoted_iff.2 fun c hc => ?_
  have hdigit := Nat.isDigit_of_mem_toDigits (by decide) (by decide) hc
  constructor <;> rintro rfl <;> exact absurd hdigit (by decide)

theorem unquoted_zeros (n : Nat) : Unquoted (List.replicate n '0') := by
  refine unquoted_iff.2 fun c hc => ?_
  obtain rfl := (List.mem_replicate.1 hc).2
  decide

theorem unquoted_placePoint {digits : List Char} (h : Unquoted digits) (power : Int) :
    Unquoted (placePoint digits power) := by
  have hdigits := unquoted_iff.1 h
  unfold placePoint
  split
  · exact unquoted_append.2 ⟨h, unquoted_zeros _⟩
  · dsimp only
    split
    · refine unquoted_append.2 ⟨unquoted_iff.2 fun c hc => hdigits c (List.mem_of_mem_take hc), ?_⟩
      refine unquoted_cons.2 ⟨by decide, unquoted_iff.2 fun c hc => ?_⟩
      exact hdigits c (List.mem_of_mem_drop hc)
    · refine unquoted_cons.2 ⟨by decide, unquoted_cons.2 ⟨by decide, ?_⟩⟩
      exact unquoted_append.2 ⟨unquoted_zeros _, h⟩

theorem unquoted_withSign {digits : List Char} (h : Unquoted digits) (negative : Bool) :
    Unquoted (withSign negative digits).toList := by
  rw [withSign, String.toList_ofList]
  split
  · exact unquoted_cons.2 ⟨by decide, h⟩
  · exact h

theorem unquoted_toText (x : Double) : Unquoted x.toText.toList := by
  have hpositional (s : Bool) (m : Nat) (e : Int) :
      Unquoted (withSign s (positional m e)).toList :=
    unquoted_withSign (unquoted_placePoint (unquoted_digitsOf _) _) s
  have hinfinite : Unquoted ['i', 'n', 'f'] := rfl
  unfold Double.toText
  split
  · exact unquoted_withSign hinfinite _
  · split
    · split
      · exact unquoted_withSign (unquoted_digitsOf _) _
      · exact hpositional _ _ _
    · exact hpositional _ _ _

end Number

def EnumValue.Plain (v : EnumValue) : Prop :=
  ∀ value numeral, v = .number value numeral → Scan.Unquoted numeral.toList

namespace Enumeration

theorem plain_memberValue {next : Option Number.Double} {name : String} {init : Option Quoted}
    {v : EnumValue} (hinit : ∀ i ∈ init, i.expr.Plain) (h : memberValue next name init = .ok v) :
    v.Plain := by
  intro value numeral hv
  subst hv
  unfold memberValue at h
  split at h
  · next i =>
      have hplain := hinit i rfl
      unfold EnumValue.ofInitializer at h
      split at h
      · next literal heq =>
          rw [heq] at hplain
          obtain ⟨-, rfl⟩ := EnumValue.number.inj (Except.ok.inj h)
          exact hplain
      · next literal heq =>
          rw [heq] at hplain
          obtain ⟨-, rfl⟩ := EnumValue.number.inj (Except.ok.inj h)
          rw [String.toList_append]
          exact Scan.unquoted_append.2 ⟨by simp, hplain⟩
      · cases Except.ok.inj h
      · cases h
  · obtain ⟨rfl, rfl⟩ := EnumValue.number.inj (Except.ok.inj h)
    exact Number.unquoted_toText _
  · cases h

theorem plain_membersFrom {nodes : List EnumMemberNode}
    (hnodes : ∀ node ∈ nodes, ∀ init ∈ node.initializer, init.expr.Plain)
    {next : Option Number.Double} {ms : List EnumMember} (h : membersFrom next nodes = .ok ms) :
    ∀ m ∈ ms, m.value.Plain := by
  induction nodes generalizing next ms with
  | nil =>
      obtain rfl := Except.ok.inj h
      exact nofun
  | cons node nodes ih =>
      obtain ⟨name, init, source⟩ := node
      obtain ⟨hinit, hrest⟩ := List.forall_mem_cons.1 hnodes
      cases name with
      | none => cases h
      | some name =>
          simp only [membersFrom, bind_eq_ok, pure_eq_ok] at h
          obtain ⟨v, hv, more, hmore, rfl⟩ := h
          exact List.forall_mem_cons.2 ⟨plain_memberValue hinit hv, ih hrest hmore⟩

theorem plain_ofNode {node : EnumNode} {d : Enumeration} (hnode : node.Plain)
    (h : ofNode node = .ok d) : ∀ m ∈ d.members, m.value.Plain := by
  unfold ofNode at h
  simp only [bind_eq_ok] at h
  obtain ⟨ms, hms, h⟩ := h
  split at h
  · cases h
  · obtain rfl := pure_eq_ok.1 h
    exact plain_membersFrom hnode hms

end Enumeration

namespace Surface

variable {config : Config} {disk : Disk} {file : SourceFile} {s : Surface}

/-- The numbers of a surface come from number tokens, or they are counted. -/
theorem plain_values (hs : file.surface config disk = .ok s) :
    ∀ d ∈ s.enums, ∀ m ∈ d.members, m.value.Plain := by
  obtain ⟨m, ⟨o⟩⟩ := origin_of_ok hs
  have hcollected := o.collects
  rw [Collected.ofModule_eq, bind_eq_ok] at hcollected
  obtain ⟨found, -, hcollected⟩ := hcollected
  intro d hd
  rw [o.progress.same, ← Except.ok.inj hcollected] at hd
  obtain ⟨⟨kind, node⟩, hdeclared, hd⟩ := List.mem_flatMap.1 hd
  have hplain := SourceFile.declared_of_parse o.parsed Grammar.yieldsDeclared_plain _ hdeclared
  cases node with
  | enum node =>
      have hlowered := eq_ok_of_toOption (Option.mem_toList.1 hd)
      exact Enumeration.plain_ofNode hplain hlowered
  | _ => exact absurd hd List.not_mem_nil

theorem unquoted_hostBase (hs : file.surface config disk = .ok s) :
    Scan.Unquoted s.component.hostBase.toList := by
  obtain ⟨m, ⟨o⟩⟩ := origin_of_ok hs
  obtain ⟨kind, node, hhost, hlowered, -⟩ := o.host
  obtain ⟨base, name, draft, hbase, -, -, -, hcandidate⟩ := Candidate.ofNode?_ok hlowered
  rw [o.progress.same.component, start, hcandidate]
  have hclass : (kind, node) ∈ m.classes :=
    List.mem_of_mem_filter (hhost ▸ List.mem_singleton_self (kind, node))
  obtain ⟨⟨exported, d⟩, hdeclared, hd⟩ := List.mem_flatMap.1 hclass
  have hplain := SourceFile.declared_of_parse o.parsed Grammar.yieldsDeclared_plain _ hdeclared
  cases d with
  | classDef node =>
      obtain ⟨-, rfl⟩ := Prod.mk.inj (List.mem_singleton.1 hd)
      exact hplain _ hbase
  | _ => exact absurd hd List.not_mem_nil

end Surface

end ElementBridge
