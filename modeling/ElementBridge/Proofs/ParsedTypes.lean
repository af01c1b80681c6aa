import ElementBridge.Proofs.LoweredTypes
import ElementBridge.Proofs.ModuleParts
import ElementBridge.Surface.OfSource

namespace ElementBridge

open ElementBridge.Tree

namespace Parser

variable {α β : Type} {p q : Parser α} {f : α → Parser β} {P : α → Prop} {Q : β → Prop} {a : α}

/-- All that a parser reads, from wherever it starts, is such that `P`. -/
def Yields (p : Parser α) (P : α → Prop) : Prop := ∀ c a d, p c = some (a, d) → P a

theorem yields_pure (h : P a) : Yields (pure a) P := by
  intro c b d hb
  obtain ⟨rfl, -⟩ := Prod.mk.inj (Option.some.inj hb)
  exact h

theorem yields_failure : Yields (failure : Parser α) P := fun _ _ _ h => nomatch h

theorem Yields.imp {P' : α → Prop} (h : Yields p P) (himp : ∀ a, P a → P' a) : Yields p P' :=
  fun c a d ha => himp a (h c a d ha)

theorem Yields.bind (h : Yields p P) (h' : ∀ a, P a → Yields (f a) Q) : Yields (p >>= f) Q := by
  intro c b e hb
  obtain ⟨⟨a, d⟩, ha, hb⟩ := Option.bind_eq_some_iff.1 hb
  exact h' a (h c a d ha) d b e hb

theorem Yields.pure_bind (h : Yields (f a) Q) : Yields (pure a >>= f) Q := h

theorem Yields.behind (h : ∀ a, Yields (f a) Q) : Yields (p >>= f) Q :=
  Yields.bind (P := fun _ => True) (fun _ _ _ _ => trivial) fun a _ => h a

theorem Yields.map {g : α → β} (h : Yields p P) (hg : ∀ a, P a → Q (g a)) : Yields (g <$> p) Q :=
  h.bind fun a ha => yields_pure (hg a ha)

theorem Yields.ite {b : Prop} [Decidable b] (h : b → Yields p P) (h' : ¬ b → Yields q P) :
    Yields (if b then p else q) P := by
  split
  · next hb => exact h hb
  · next hb => exact h' hb

theorem yields_fails : Yields ((failure : Parser α) >>= f) Q :=
  yields_failure.bind (P := fun _ => False) nofun

theorem Yields.join {p q : Parser β} {rest : β → Parser α} {b : Prop} [Decidable b]
    (h : ∀ a, Yields (rest a) P) : Yields (if b then p >>= rest else q >>= rest) P :=
  .ite (fun _ => .behind h) fun _ => .behind h

theorem Yields.after {p : Parser Unit} {rest : Unit → Parser α} {b : Prop} [Decidable b]
    (h : ∀ a, Yields (rest a) P) : Yields (if b then p >>= rest else rest ()) P :=
  .ite (fun _ => .behind h) fun _ => h ()

theorem Yields.within (change : Context → Context) (h : Yields p P) :
    Yields (within change p) P := by
  intro c a d ha
  unfold Parser.within at ha
  split at ha
  · next b e hb =>
      obtain ⟨rfl, -⟩ := Prod.mk.inj (Option.some.inj ha)
      exact h _ b e hb
  · cases ha

theorem Yields.quoted (h : Yields p P) : Yields (quoted p) fun x => P x.1 := by
  intro c x d hx
  unfold Parser.quoted at hx
  split at hx
  · next a e ha =>
      obtain ⟨rfl, -⟩ := Prod.mk.inj (Option.some.inj hx)
      exact h _ a e ha
  · cases hx

section Repeated

variable {bound : Nat} {b : β} {P : β → Prop} {Q : α → Prop}

theorem Yields.iterate {step : β → Parser (β ⊕ α)}
    (h : ∀ b, P b → Yields (step b) fun x => (∀ b ∈ x.getLeft?, P b) ∧ ∀ a ∈ x.getRight?, Q a)
    (hb : P b) : Yields (iterate step bound b) Q := by
  induction bound generalizing b with
  | zero => exact yields_failure
  | succ n ih =>
      refine (h b hb).bind fun x hx => ?_
      cases x with
      | inl b => exact ih (hx.1 b rfl)
      | inr a => exact yields_pure (hx.2 a rfl)

variable {item : Parser α}

theorem yields_inl (h : P b) : Yields (pure (.inl b))
    fun x : β ⊕ α => (∀ b ∈ x.getLeft?, P b) ∧ ∀ a ∈ x.getRight?, Q a :=
  yields_pure ⟨fun _ hb => Option.some.inj hb ▸ h, nofun⟩

theorem yields_inr (h : Q a) : Yields (pure (.inr a))
    fun x : β ⊕ α => (∀ b ∈ x.getLeft?, P b) ∧ ∀ a ∈ x.getRight?, Q a :=
  yields_pure ⟨nofun, fun _ ha => Option.some.inj ha ▸ h⟩

theorem yields_none : Yields (pure none) fun o : Option α => ∀ a ∈ o, Q a :=
  yields_pure fun _ ha => nomatch ha

theorem Yields.some (h : Yields item Q) : Yields (some <$> item) fun o => ∀ a ∈ o, Q a :=
  h.map fun _ ha _ hb => Option.some.inj hb ▸ ha

theorem Yields.many {item : Parser (Option α)} (h : Yields item fun o => ∀ a ∈ o, Q a) :
    Yields (many bound item) fun found => ∀ a ∈ found, Q a := by
  refine Yields.iterate (P := fun found => ∀ a ∈ found, Q a) (fun found hfound => ?_)
    fun _ h => absurd h List.not_mem_nil
  refine h.bind fun o ho => ?_
  cases o with
  | some a => exact yields_inl (List.forall_mem_cons.2 ⟨ho a rfl, hfound⟩)
  | none => exact yields_inr fun a ha => hfound a (List.mem_reverse.1 ha)

theorem Yields.commaList {close : Mark} (h : Yields item Q) :
    Yields (commaList bound close item) fun found => ∀ a ∈ found, Q a := by
  refine Yields.iterate (P := fun found => ∀ a ∈ found, Q a) (fun found hfound => ?_)
    fun _ h => absurd h List.not_mem_nil
  refine .behind fun _ => .ite (fun _ => ?_) fun _ => ?_
  · exact yields_inr fun a ha => hfound a (List.mem_reverse.1 ha)
  · refine h.bind fun a ha => .behind fun _ => .ite (fun _ => ?_) fun _ => ?_
    · exact yields_inl (List.forall_mem_cons.2 ⟨ha, hfound⟩)
    · refine .behind fun _ => .ite (fun _ => ?_) fun _ => ?_
      · exact yields_inr fun b hb =>
          List.forall_mem_cons.2 ⟨ha, hfound⟩ b (List.mem_reverse.1 hb)
      · exact yields_fails

end Repeated

end Parser

namespace Tree

def TypeNode.Proper (t : TypeNode) : Prop := t.Throughout (· ≠ .union [])

namespace TypeNode

variable {t : TypeNode}

theorem proper_of_parts (h : t ≠ .union []) (hparts : ∀ u ∈ t.parts, u.Proper) : t.Proper := by
  intro u hu
  cases hu with
  | self => exact h
  | inside hv hu => exact hparts _ hv u hu

theorem proper_leaf (h : t ≠ .union []) (hparts : t.parts = []) : t.Proper :=
  proper_of_parts h (hparts ▸ nofun)

end TypeNode

end Tree

namespace Grammar

open ElementBridge.Parser

variable {r : Rules}

/-! ### Types -/

theorem yields_declaredType? (hr : Yields r.type TypeNode.Proper) :
    Yields (declaredType? r) fun o => ∀ t ∈ o.toList, t.Proper := by
  unfold declaredType?
  refine .behind fun _ => .ite (fun _ => ?_) fun _ => ?_
  · exact hr.map fun t ht => List.forall_mem_singleton.2 ht
  · exact yields_pure nofun

theorem yields_resultType (hr : Yields r.type TypeNode.Proper) :
    Yields (resultType r) TypeNode.Proper := by
  unfold resultType
  refine .behind fun _ => .ite (fun _ => ?_) fun _ => hr
  exact .behind fun x => yields_pure (TypeNode.proper_leaf nofun rfl)

theorem yields_result? (hr : Yields r.type TypeNode.Proper) :
    Yields (result? r) fun o => ∀ t ∈ o.toList, t.Proper := by
  unfold result?
  refine .behind fun _ => .ite (fun _ => ?_) fun _ => ?_
  · exact (yields_resultType hr).map fun t ht => List.forall_mem_singleton.2 ht
  · exact yields_pure nofun

theorem yields_typeArguments? (hr : Yields r.type TypeNode.Proper) :
    Yields (typeArguments? r) fun ts => ∀ t ∈ ts, t.Proper := by
  unfold typeArguments? typeArguments
  refine .behind fun _ => .ite (fun _ => ?_) fun _ => yields_pure nofun
  refine .behind fun _ => .behind fun _ => .behind fun _ => .ite (fun _ => yields_fails) fun _ => ?_
  exact hr.commaList.bind fun ts hts => .behind fun _ => yields_pure hts

theorem yields_parameter (hr : Yields r.type TypeNode.Proper) :
    Yields (parameter r) fun x => ∀ t ∈ x.1.type.toList, t.Proper := by
  unfold parameter
  refine Yields.bind (.quoted (P := fun x => ∀ t ∈ x.1.type.toList, t.Proper) ?_)
    fun x hx => yields_pure hx
  refine .behind fun _ => .behind fun _ => .ite (fun _ => ?_) fun _ => yields_fails
  refine .behind fun _ => .behind fun _ => (yields_declaredType? hr).bind fun type htype => ?_
  refine .behind fun _ => .ite (fun _ => ?_) fun _ => ?_
  · exact .behind fun _ => .behind fun _ => yields_pure htype
  · exact .behind fun _ => yields_pure htype

def AreProper (ps : List (Parameter TypeNode × List Expr)) : Prop :=
  ∀ p ∈ ps, ∀ t ∈ p.1.type.toList, t.Proper

theorem yields_parameters (hr : Yields r.type TypeNode.Proper) :
    Yields (parameters r) fun x => ∀ t ∈ x.1.types, t.Proper := by
  unfold parameters
  refine .behind fun _ => .behind fun _ => ?_
  extract_lets rest
  have hrest : Yields (rest ⟨⟩) fun x => ∀ t ∈ x.1.types, t.Proper := by
    refine Yields.bind (.iterate (P := AreProper) (Q := fun found => AreProper found.1)
      (fun ps hps => ?_) fun _ hp => absurd hp List.not_mem_nil) fun found hfound => ?_
    · refine .behind fun _ => .ite (fun _ => yields_inr hps) fun _ => .behind fun parts => ?_
      cases parts with
      | some parts => exact yields_inr hps
      | none =>
          refine (yields_parameter hr).bind fun p hp => .behind fun _ => ?_
          have hmore := yields_inl (Q := fun found : _ × Option (List Expr) => AreProper found.1)
            (P := AreProper) (List.forall_mem_cons.2 ⟨hp, hps⟩)
          exact .ite (fun _ => hmore) fun _ => .behind fun _ =>
            .ite (fun _ => hmore) fun _ => yields_fails
    · refine .behind fun _ => yields_pure fun t ht => ?_
      obtain ⟨p, hp, ht⟩ := List.mem_filterMap.1 ht
      obtain ⟨x, hx, rfl⟩ := List.mem_map.1 hp
      exact hfound x (List.mem_reverse.1 hx) t (Option.mem_toList.2 ht)
  refine .ite (fun _ => ?_) fun _ => hrest
  exact .behind fun _ => .behind fun _ => .ite (fun _ => hrest) fun _ => .behind fun _ => hrest

theorem yields_namedMember (hr : Yields r.type TypeNode.Proper) (c : Cursor) :
    Yields (namedMember r c) fun m => ∀ t ∈ m.types, t.Proper := by
  unfold namedMember
  refine .behind fun _ => .ite (fun _ => ?_) fun _ => yields_fails
  refine .behind fun _ => .ite (fun _ => ?_) fun _ => ?_
  · -- a getter
    refine .behind fun _ => .behind fun _ => .behind fun _ => .behind fun _ => ?_
    exact (yields_result? hr).bind fun _ hresult => yields_pure hresult
  refine .behind fun _ => .ite (fun _ => ?_) fun _ => ?_
  · -- a setter
    refine .behind fun _ => .behind fun _ => (yields_parameters hr).bind fun _ hparams => ?_
    exact yields_pure (List.forall_mem_append.2 ⟨hparams, nofun⟩)
  refine .behind fun _ => .ite (fun _ => ?_) fun _ => ?_
  · exact .behind fun _ => .behind fun _ => yields_pure nofun
  refine .behind fun _ => .behind fun _ => .behind fun _ => .ite (fun _ => ?_) fun _ => ?_
  · refine .behind fun _ => (yields_parameters hr).bind fun _ hparams => ?_
    refine (yields_result? hr).bind fun _ hresult => yields_pure ?_
    exact List.forall_mem_append.2 ⟨hparams, hresult⟩
  · exact (yields_declaredType? hr).bind fun _ htype => yields_pure htype

theorem yields_typeMember (hr : Yields r.type TypeNode.Proper) :
    Yields (typeMember r) fun m => ∀ t ∈ m.types, t.Proper := by
  unfold typeMember
  refine .behind fun c => .behind fun _ => .behind fun _ => ?_
  -- Call signatures are kept as text.
  have htext (source : String) : Yields (do
      let member : Signature TypeNode ← pure (.other source)
      endMember
      return member) fun m => ∀ t ∈ m.types, t.Proper :=
    .pure_bind (.behind fun _ => yields_pure nofun)
  refine .ite (fun _ => ?_) fun _ => .ite (fun _ => ?_) fun _ => ?_
  · exact .behind fun _ => .behind fun _ => .behind htext
  · exact .behind fun _ => .behind htext
  · exact (yields_namedMember hr c).bind fun _ hm => .behind fun _ => yields_pure hm

theorem yields_typeMembers (hr : Yields r.type TypeNode.Proper) :
    Yields (typeMembers r) fun ms => ∀ t ∈ ms.flatMap Signature.types, t.Proper := by
  unfold typeMembers
  refine .behind fun _ => .bind (P := fun ms => ∀ m ∈ ms, ∀ t ∈ m.types, t.Proper) (.many ?_)
    fun ms hms => .behind fun _ => yields_pure ?_
  · exact .behind fun _ => .ite (fun _ => yields_none) fun _ => (yields_typeMember hr).some
  · intro t ht
    obtain ⟨m, hm, ht⟩ := List.mem_flatMap.1 ht
    exact hms m hm t ht

theorem yields_typeReference (hr : Yields r.type TypeNode.Proper) :
    Yields (typeReference r) TypeNode.Proper := by
  unfold typeReference
  refine .behind fun _ => .behind fun _ => (yields_typeArguments? hr).bind fun _ hargs => ?_
  exact yields_pure (TypeNode.proper_of_parts nofun hargs)

theorem yields_primaryKeyword (k : Keyword) :
    Yields (primaryKeyword r k) fun o => ∀ t ∈ o, t.Proper := by
  have hleaf {t : TypeNode} (hne : t ≠ .union []) (h : t.parts = []) : ∀ u ∈ some t, u.Proper :=
    fun u hu => Option.some.inj hu ▸ TypeNode.proper_of_parts hne (h ▸ nofun)
  unfold primaryKeyword
  refine .behind fun c => ?_
  extract_lets primitive other
  clear_value primitive
  cases primitive with
  | some p =>
      refine .behind fun _ => .ite (fun _ => ?_) fun _ => yields_none
      exact .behind fun _ => yields_pure (hleaf nofun rfl)
  | none =>
      dsimp only
      split
      all_goals repeat' first
        | exact yields_none
        | exact yields_pure (hleaf nofun rfl)
        | refine .ite (fun _ => ?_) fun _ => ?_
        | refine .behind fun _ => ?_

theorem yields_primaryType (hr : Yields r.type TypeNode.Proper) :
    Yields (primaryType r) TypeNode.Proper := by
  have hleaf {t : TypeNode} (h : t ≠ .union []) (hparts : t.parts = []) :
      Yields (pure t) TypeNode.Proper := yields_pure (TypeNode.proper_leaf h hparts)
  unfold primaryType
  refine .behind fun c => ?_
  split
  · -- a keyword or another word
    refine (yields_primaryKeyword _).bind fun o ho => ?_
    cases o with
    | some t => exact yields_pure (ho t rfl)
    | none => exact yields_typeReference hr
  · exact yields_typeReference hr
  iterate 5 exact .behind fun _ => .behind fun _ => hleaf nofun rfl
  · -- a number behind a minus
    refine .behind fun _ => .behind fun _ => ?_
    split
    · exact .behind fun _ => .behind fun _ => hleaf nofun rfl
    · exact .behind fun _ => .behind fun _ => hleaf nofun rfl
    · exact yields_failure
  · -- a brace
    refine .behind fun _ => .ite (fun _ => ?_) fun _ => ?_
    · exact .behind fun _ => .behind fun _ => hleaf nofun rfl
    · exact (yields_typeMembers hr).bind fun _ h => yields_pure (TypeNode.proper_of_parts nofun h)
  · exact .behind fun _ => .behind fun _ => hleaf nofun rfl
  · -- a parenthesis
    refine .behind fun _ => (hr.within _).bind fun t ht => .behind fun _ => yields_pure ?_
    exact TypeNode.proper_of_parts nofun (List.forall_mem_singleton.2 ht)
  · -- a question mark
    refine .behind fun _ => .behind fun _ => ?_
    split
    iterate 6 exact .behind fun _ => hleaf nofun rfl
    exact .behind fun _ => .behind fun _ => hleaf nofun rfl
  · exact .behind fun _ => .behind fun _ => hleaf nofun rfl
  · exact yields_failure

theorem yields_markedType (hr : Yields r.type TypeNode.Proper) :
    Yields (markedType r) TypeNode.Proper := by
  unfold markedType
  refine .behind fun c => .behind fun _ => (yields_primaryType hr).bind fun t ht => ?_
  refine .ite (fun _ => yields_pure ht) fun _ => ?_
  exact .behind fun _ => yields_pure (TypeNode.proper_leaf nofun rfl)

theorem yields_postfixType (hr : Yields r.type TypeNode.Proper) :
    Yields (postfixType r) TypeNode.Proper := by
  have hother (c : Cursor) : Yields (do return .inl (.other (← sourceFrom c)))
      fun x : TypeNode ⊕ TypeNode =>
        (∀ t ∈ x.getLeft?, t.Proper) ∧ ∀ t ∈ x.getRight?, t.Proper :=
    .behind fun _ => yields_inl (TypeNode.proper_leaf nofun rfl)
  unfold postfixType
  refine .behind fun c => (yields_markedType hr).bind fun t ht => ?_
  refine .iterate (P := TypeNode.Proper) (fun t ht => ?_) ht
  refine .behind fun _ => .ite (fun _ => yields_inr ht) fun _ => .behind fun _ => ?_
  split
  · exact .behind fun _ => hother c
  · refine .behind fun _ => .ite (fun _ => yields_inr ht) fun _ => ?_
    exact .behind fun _ => hother c
  · refine .behind fun _ => .behind fun _ => .ite (fun _ => ?_) fun _ => ?_
    · exact yields_inl (TypeNode.proper_of_parts nofun (List.forall_mem_singleton.2 ht))
    · exact .behind fun _ => .behind fun _ => hother c
  · exact yields_inr ht

theorem yields_operatorType (hr : Yields r.type TypeNode.Proper) :
    Yields (operatorType r) TypeNode.Proper := by
  unfold operatorType
  refine .behind fun c => ?_
  generalize r.fuel = n
  induction n with
  | zero => exact yields_failure
  | succ n ih =>
      unfold operatorType.go
      refine .behind fun k => ?_
      split
      · exact .behind fun _ => .behind fun _ => .behind fun _ =>
          yields_pure (TypeNode.proper_leaf nofun rfl)
      · exact .behind fun _ => .behind fun _ => .behind fun _ =>
          yields_pure (TypeNode.proper_leaf nofun rfl)
      · refine .behind fun _ => ih.bind fun t ht => .ite (fun _ => ?_) fun _ => yields_fails
        exact yields_pure (TypeNode.proper_of_parts nofun (List.forall_mem_singleton.2 ht))
      · exact .behind fun _ => .behind fun _ => .behind fun _ => .behind fun _ =>
          yields_pure (TypeNode.proper_leaf nofun rfl)
      · exact (yields_postfixType hr).within _

theorem yields_typeChain {item : Parser TypeNode} {m : Mark} (h : Yields item TypeNode.Proper) :
    Yields (typeChain r m item) fun x => x.2 ≠ [] ∧ ∀ t ∈ x.2, t.Proper := by
  unfold typeChain
  refine .behind fun _ => h.bind fun first hfirst => ?_
  refine Yields.bind (.many (Q := TypeNode.Proper) ?_) fun rest hrest => yields_pure ?_
  · exact .behind fun _ => .ite (fun _ => h.some) fun _ => yields_none
  · exact ⟨List.cons_ne_nil first rest, List.forall_mem_cons.2 ⟨hfirst, hrest⟩⟩

theorem yields_intersectionType (hr : Yields r.type TypeNode.Proper) :
    Yields (intersectionType r) TypeNode.Proper := by
  unfold intersectionType
  refine .behind fun c => (yields_typeChain (yields_operatorType hr)).bind fun x hx => ?_
  split
  · exact yields_pure (hx.2 _ (List.mem_singleton.2 rfl))
  · exact .behind fun _ => yields_pure (TypeNode.proper_leaf nofun rfl)

theorem yields_unionType (hr : Yields r.type TypeNode.Proper) :
    Yields (unionType r) TypeNode.Proper := by
  unfold unionType
  refine (yields_typeChain (yields_intersectionType hr)).bind fun x hx => ?_
  split
  · exact yields_pure (hx.2 _ (List.mem_singleton.2 rfl))
  · exact yields_pure (TypeNode.proper_of_parts (fun h => hx.1 (TypeNode.union.inj h)) hx.2)

theorem yields_functionType (hr : Yields r.type TypeNode.Proper) :
    Yields (functionType r) TypeNode.Proper := by
  unfold functionType
  refine .behind fun c => .behind fun _ => .behind fun _ => .behind fun _ => ?_
  refine (yields_parameters hr).bind fun _ hparams => .behind fun _ => ?_
  refine (yields_resultType hr).bind fun _ hresult => .ite (fun _ => ?_) fun _ => ?_
  · exact .behind fun _ => yields_pure (TypeNode.proper_leaf nofun rfl)
  · refine yields_pure (TypeNode.proper_of_parts nofun ?_)
    exact List.forall_mem_append.2 ⟨hparams, List.forall_mem_singleton.2 hresult⟩

theorem yields_typeNode (hr : Yields r.type TypeNode.Proper) :
    Yields (typeNode r) TypeNode.Proper := by
  unfold typeNode
  refine .behind fun _ => .ite (fun _ => yields_functionType hr) fun _ => .behind fun c => ?_
  refine (yields_unionType hr).bind fun t ht => .behind fun _ => .behind fun _ =>
    .ite (fun _ => ?_) fun _ => yields_pure ht
  exact .behind fun _ => .behind fun _ => .behind fun _ => .behind fun _ => .behind fun _ =>
    .behind fun _ => .behind fun _ => yields_pure (TypeNode.proper_leaf nofun rfl)

theorem yields_type (n : Nat) : Yields (rules n).type TypeNode.Proper := by
  induction n with
  | zero => exact yields_failure
  | succ n ih => exact yields_typeNode ih

/-! ### Classes -/

theorem yields_callable (hr : Yields r.type TypeNode.Proper) (async generator : Bool) :
    Yields (callable r async generator)
      fun f => ∀ t ∈ f.params.types ++ f.result.toList, t.Proper := by
  unfold callable
  refine .behind fun _ => ((yields_parameters hr).within _).bind fun _ hparams => ?_
  refine (yields_result? hr).bind fun _ hresult => .behind fun _ => .ite (fun _ => ?_) fun _ => ?_
  · exact .behind fun _ => yields_pure (List.forall_mem_append.2 ⟨hparams, hresult⟩)
  · exact .behind fun _ => yields_pure (List.forall_mem_append.2 ⟨hparams, hresult⟩)

theorem yields_accessorMember (hr : Yields r.type TypeNode.Proper) (ms : List Modifier)
    (kind : MethodKind) :
    Yields (accessorMember r ms kind) fun x => ∀ t ∈ x.1.types, t.Proper := by
  unfold accessorMember
  refine .behind fun _ => .behind fun x => ?_
  refine .ite (fun _ => yields_fails) fun _ => (yields_callable hr _ _).bind fun f hf => ?_
  exact .ite (fun _ => yields_pure hf) fun _ => yields_fails

theorem yields_constructorMember (hr : Yields r.type TypeNode.Proper) (ms : List Modifier)
    (key : Key) : Yields (constructorMember r ms key) fun x => ∀ t ∈ x.1.types, t.Proper := by
  unfold constructorMember
  refine .ite (fun _ => ?_) fun _ => yields_fails
  refine .behind fun _ => .behind fun _ => .ite (fun _ => yields_fails) fun _ => ?_
  exact (yields_callable hr _ _).bind fun f hf => yields_pure hf

theorem yields_fieldMember (hr : Yields r.type TypeNode.Proper) (ms : List Modifier) (key : Key)
    (optional : Bool) :
    Yields (fieldMember r ms key optional) fun x => ∀ t ∈ x.1.types, t.Proper := by
  unfold fieldMember
  refine .ite (fun _ => yields_fails) fun _ => .behind fun _ => ?_
  refine .ite (fun _ => yields_fails) fun _ => .ite (fun _ => yields_fails) fun _ => ?_
  refine (yields_declaredType? hr).bind fun type htype => ?_
  have helement {field : Property} (h : ∀ t ∈ field.type.toList, t.Proper) : ∀ t ∈
      (if ms.contains .accessor then ClassElement.accessor field else .property field).types,
      t.Proper := by
    split <;> exact h
  refine .behind fun _ => .ite (fun _ => ?_) fun _ => ?_
  · exact .behind fun _ => .behind fun _ => .behind fun _ => yields_pure (helement htype)
  · exact .behind fun _ => .behind fun _ => yields_pure (helement htype)

theorem yields_namedClassMember (hr : Yields r.type TypeNode.Proper) (ms : List Modifier) :
    Yields (namedClassMember r ms) fun x => ∀ t ∈ x.1.types, t.Proper := by
  unfold namedClassMember
  refine .behind fun generator => .behind fun x => .behind fun _ => .ite (fun _ => ?_) fun _ => ?_
  · exact .ite (fun _ => yields_fails) fun _ => yields_constructorMember hr ms x.1
  · refine .behind fun optional => .behind fun _ => .ite (fun _ => ?_) fun _ => ?_
    · refine .ite (fun _ => yields_fails) fun _ => ?_
      exact (yields_callable hr _ generator).bind fun f hf => yields_pure hf
    · exact (yields_fieldMember hr ms x.1 optional).bind fun y hy => yields_pure hy

theorem yields_classElement (hr : Yields r.type TypeNode.Proper) :
    Yields (classElement r) fun x => ∀ e ∈ x.1, ∀ t ∈ e.types, t.Proper := by
  unfold classElement
  refine .behind fun _ => .ite (fun _ => yields_pure fun _ he => nomatch he) fun _ =>
    .behind fun _ => .behind fun _ => .ite (fun _ => ?_) fun _ => ?_
  · exact .behind fun _ => .behind fun _ => yields_pure fun e he => Option.some.inj he ▸ nofun
  refine .behind fun ms => .ite (fun _ => yields_fails) fun _ => ?_
  refine .behind fun _ => .behind fun _ => .behind fun _ => ?_
  extract_lets rest
  have hrest (x : ClassElement × List Expr) (hx : ∀ t ∈ x.1.types, t.Proper) :
      Yields (rest x) fun x => ∀ e ∈ x.1, ∀ t ∈ e.types, t.Proper :=
    yields_pure fun e he => Option.some.inj he ▸ hx
  refine .ite (fun _ => (yields_accessorMember hr ms _).bind hrest) fun _ =>
    .ite (fun _ => (yields_accessorMember hr ms _).bind hrest) fun _ => .ite (fun _ => ?_) fun _ =>
      (yields_namedClassMember hr ms).bind hrest
  refine .ite (fun _ => ?_) fun _ => yields_fails
  exact .behind fun _ => .behind fun _ => .pure_bind (hrest (.indexSignature, []) nofun)

theorem yields_classBody (hr : Yields r.type TypeNode.Proper) :
    Yields (classBody r) fun x => ∀ e ∈ x.1, ∀ t ∈ e.types, t.Proper := by
  unfold classBody
  refine .behind fun _ => Yields.bind
    (P := fun found => ∀ x ∈ found, ∀ e ∈ x.1, ∀ t ∈ e.types, t.Proper) (.many ?_)
    fun found hfound => .behind fun _ => yields_pure ?_
  · exact .behind fun _ => .ite (fun _ => yields_none) fun _ => (yields_classElement hr).some
  · intro e he
    obtain ⟨x, hx, he⟩ := List.mem_filterMap.1 he
    exact hfound x hx e he

theorem yields_classRest (hr : Yields r.type TypeNode.Proper) :
    Yields (classRest r) fun x => ∀ t ∈ x.1.types, t.Proper := by
  unfold classRest
  refine .behind fun _ => .behind fun _ => .join fun name => .behind fun _ => .behind fun _ => ?_
  have hbody (base : Option Expr) : Yields (do
      let x ← classBody r
      return ((⟨name, base, x.1⟩ : ClassNode), base.toList ++ x.2))
      fun x => ∀ t ∈ x.1.types, t.Proper := by
    refine (yields_classBody hr).bind fun x hx => yields_pure fun t ht => ?_
    obtain ⟨e, he, ht⟩ := List.mem_flatMap.1 ht
    exact hx e he t ht
  refine .ite (fun _ => ?_) fun _ => ?_
  · refine .behind fun _ => .behind fun _ => .behind fun base => .behind fun _ => ?_
    exact .after fun _ => hbody base
  · refine .behind fun base => .behind fun _ => ?_
    exact .after fun _ => hbody base

/-! ### Statements -/

theorem yields_interfaceDeclaration (hr : Yields r.type TypeNode.Proper) :
    Yields (interfaceDeclaration r)
      fun node => ∀ t ∈ node.members.flatMap Signature.types, t.Proper := by
  unfold interfaceDeclaration
  refine .behind fun _ => .behind fun _ => .behind fun _ => .behind fun _ => .join fun _ => ?_
  exact (yields_typeMembers hr).bind fun members hmembers => yields_pure hmembers

theorem yields_aliasDeclaration (hr : Yields r.type TypeNode.Proper) :
    Yields (aliasDeclaration r) fun node => node.type.Proper := by
  unfold aliasDeclaration
  refine .behind fun _ => .behind fun _ => .behind fun _ => .behind fun _ => hr.bind fun t ht => ?_
  exact .behind fun _ => yields_pure ht

section Statements

variable {P : Declaration → Prop}

def Sound (P : Declaration → Prop) (x : Item) : Prop := ∀ st ∈ x.1, ∀ d ∈ st.declared, P d.2

theorem sound_none (parts : List Expr) : Sound P (none, parts) := fun _ hst => nomatch hst

theorem sound_some {st : Statement} (h : ∀ d ∈ st.declared, P d.2) (parts : List Expr) :
    Sound P (some st, parts) :=
  fun _ hst => Option.some.inj hst ▸ h

theorem sound_leaf {st : Statement} (h : st.declared = []) (parts : List Expr) :
    Sound P (some st, parts) :=
  sound_some (h ▸ nofun) parts

theorem sound_one {st : Statement} {d : Export × Declaration} (hst : st.declared = [d])
    (h : P d.2) (parts : List Expr) : Sound P (some st, parts) := by
  refine sound_some ?_ parts
  rw [hst]
  exact List.forall_mem_singleton.2 h

theorem sound_exportDeclared {x : Declaration × List Expr} (h : P x.1) :
    Sound P (exportDeclared x) := sound_one (d := (.named, x.1)) rfl h x.2

theorem sound_declared {x : Declaration × List Expr} (h : P x.1) : Sound P (declared x) := by
  obtain ⟨node, parts⟩ := x
  cases node with
  | other => exact sound_none parts
  | _ => exact sound_one rfl h parts

structure YieldsDeclared (r : Rules) (P : Declaration → Prop) : Prop where
  interface : Yields (interfaceDeclaration r) fun node => P (.interface node)
  typeAlias : Yields (aliasDeclaration r) fun node => P (.alias node)
  enum : Yields (enumDeclaration r) fun node => P (.enum node)
  classRest : Yields (classRest r) fun x => P (.classDef x.1)
  other : P .other

theorem YieldsDeclared.bare (h : YieldsDeclared r P) (elsewhere : Bool) :
    Yields (declaration.bare r elsewhere) fun x => P x.1 := by
  have hclass {x : ClassNode × List Expr} (hx : P (.classDef x.1)) : Yields (do
        unless x.1.name.isSome do failure
        return (Declaration.classDef x.1, x.2)) fun x => P x.1 :=
    .ite (fun _ => yields_pure hx) fun _ => yields_fails
  have hfunction : Yields (do
        let f ← functionDeclaration r true
        if elsewhere && f.hasBody then failure
        return (Declaration.other, f.parts)) fun x => P x.1 :=
    .behind fun _ => .ite (fun _ => yields_fails) fun _ => yields_pure h.other
  unfold declaration.bare
  refine .behind fun _ => ?_
  split
  · exact h.interface.bind fun node hnode => yields_pure hnode
  · exact h.typeAlias.bind fun node hnode => yields_pure hnode
  · exact h.enum.bind fun node hnode => yields_pure hnode
  · exact .behind fun _ => .behind fun _ => h.classRest.bind fun x hx => hclass hx
  · exact .behind fun _ => .behind fun _ => h.classRest.bind fun x hx => hclass hx
  · exact .behind fun _ => yields_pure h.other
  · exact .behind fun _ => yields_pure h.other
  · exact .behind fun _ => .behind fun _ => yields_pure h.other
  · exact hfunction
  · exact hfunction
  · refine .behind fun keyword => ?_
    cases keyword with
    | some constant => exact .behind fun _ => yields_pure h.other
    | none => exact .behind fun _ => h.enum.bind fun node hnode => yields_pure hnode

theorem YieldsDeclared.declaration (h : YieldsDeclared r P) :
    Yields (declaration r) fun x => P x.1 := by
  unfold Grammar.declaration
  exact .behind fun _ => .ite (fun _ => (h.bare _).within _) fun _ => h.bare _

theorem yields_exportDefault (h : YieldsDeclared r P) : Yields (exportDefault r) (Sound P) := by
  have hnone (parts : List Expr) : Sound P (some (.exportDefault none), parts) :=
    sound_leaf rfl parts
  unfold exportDefault
  refine .behind fun _ => .behind fun _ => .behind fun _ => .after fun _ => .behind fun _ =>
    .ite (fun _ => .behind fun _ => ?_) fun _ => .ite (fun _ => ?_) fun _ => yields_fails
  · exact h.classRest.bind fun x hx =>
      yields_pure (sound_one (d := (.default, .classDef x.1)) rfl hx _)
  · refine .ite (fun _ => .behind fun _ => yields_pure (hnone _)) fun _ =>
      .behind fun _ => .behind fun _ => .ite (fun _ => ?_) fun _ => ?_
    · exact .behind fun _ => yields_pure (hnone _)
    · exact .behind fun _ => .behind fun _ => yields_pure (hnone _)

theorem yields_exportNames (types : Bool) : Yields (exportNames r types) (Sound P) := by
  unfold exportNames
  refine .behind fun _ => .behind fun _ => .join fun module =>
    .ite (fun _ => ?_) fun _ => yields_fails
  exact .behind fun _ => yields_pure (sound_leaf rfl _)

theorem yields_exportAll : Yields (exportAll r) (Sound P) := by
  unfold exportAll
  refine .behind fun _ => .behind fun _ => .join fun _ => .behind fun _ => .behind fun _ => ?_
  exact yields_pure (sound_leaf rfl _)

theorem yields_exportStatement (h : YieldsDeclared r P) :
    Yields (exportStatement r) (Sound P) := by
  unfold exportStatement
  refine .behind fun _ => .behind fun _ => .after fun _ => .behind fun _ => ?_
  split
  · exact yields_exportAll
  · exact yields_exportNames _
  · exact .behind fun _ => .behind fun _ => .behind fun _ => yields_pure (sound_none _)
  · refine .behind fun _ => h.declaration.bind fun x hx => ?_
    obtain ⟨node, inside⟩ := x
    cases node with
    | classDef node => exact yields_pure (sound_exportDeclared hx)
    | _ => exact yields_failure
  · exact .behind fun _ => yields_exportDefault h
  · exact .behind fun _ => .behind fun _ => .behind fun _ => .behind fun _ =>
      yields_pure (sound_none _)
  · exact .behind fun _ => .behind fun _ => .behind fun _ => .behind fun _ =>
      yields_pure (sound_one (d := (.named, .other)) rfl h.other _)
  · exact h.declaration.bind fun x hx => yields_pure (sound_exportDeclared hx)

theorem yields_decoratedStatement (h : YieldsDeclared r P) :
    Yields (decoratedStatement r) (Sound P) := by
  unfold decoratedStatement
  refine .behind fun decorations => .behind fun _ => ?_
  extract_lets rest
  have hrest (x : Item) (hx : Sound P x) : Yields (rest x) (Sound P) := by
    obtain ⟨statement, inside⟩ := x
    unfold rest
    dsimp only
    split
    iterate 3 exact yields_pure (sound_some (hx _ rfl) _)
    exact yields_failure
  refine .ite (fun _ => (yields_exportStatement h).bind hrest) fun _ => ?_
  exact (h.declaration.map fun _ => sound_declared).bind hrest

theorem yields_only (p : Parser (List Expr)) : Yields (only p) (Sound P) :=
  .behind fun parts => yields_pure (sound_none parts)

theorem yields_importDeclaration : Yields (importDeclaration r) (Sound P) := by
  unfold importDeclaration
  refine .behind fun _ => .behind fun _ => .ite (fun _ => ?_) fun _ => ?_
  · exact .behind fun _ => .behind fun _ => .behind fun _ => yields_pure (sound_leaf rfl _)
  refine .behind fun _ => .behind fun _ => .after fun _ => .behind fun _ => .join fun _ =>
    .behind fun _ => .ite (fun _ => .behind fun _ => yields_pure (sound_none _)) fun _ => ?_
  exact .behind fun _ => .join fun _ => .behind fun _ => .behind fun _ =>
    yields_pure (sound_leaf rfl _)

theorem yields_statement (h : YieldsDeclared r P) : Yields (statement r) (Sound P) := by
  unfold statement
  refine .behind fun _ => ?_
  split
  · exact yields_only _
  · exact .behind fun _ => yields_pure (sound_none _)
  · exact yields_decoratedStatement h
  · split
    iterate 12 exact yields_only _
    · exact yields_exportStatement h
    · exact .behind fun _ => .ite (fun _ => yields_only _) fun _ => yields_importDeclaration
    · refine .behind fun _ => .behind fun _ => .ite (fun _ => ?_) fun _ => yields_only _
      exact h.declaration.bind fun _ hx => yields_pure (sound_declared hx)
  · exact yields_only _

theorem yields_moduleItems (h : YieldsDeclared r P) :
    Yields (moduleItems r) fun m => ∀ d ∈ Module.declared m, P d.2 := by
  unfold moduleItems
  refine Yields.bind (.many (Q := fun st : Statement => ∀ d ∈ st.declared, P d.2) ?_) fun m hm =>
    .behind fun _ => .ite (fun _ => yields_pure ?_) fun _ => yields_fails
  · unfold moduleItem
    refine .behind fun _ => .ite (fun _ => yields_none) fun _ => ?_
    refine (yields_statement h).bind fun x hx => yields_pure fun st hst => ?_
    obtain rfl := Option.some.inj hst
    cases hkept : x.1 with
    | some st => exact hx st hkept
    | none => exact nofun
  · intro d hd
    obtain ⟨st, hst, hd⟩ := List.mem_flatMap.1 hd
    exact hm st hst d hd

end Statements

end Grammar

/-- Whatever holds of all that can be declared at any depth holds of what a source declares. -/
theorem SourceFile.declared_of_parse {file : SourceFile} {m : Module} {P : Declaration → Prop}
    (h : file.parse = .ok m) (hP : ∀ n, Grammar.YieldsDeclared (Grammar.rules n) P) :
    ∀ d ∈ m.declared, P d.2 := by
  unfold SourceFile.parse at h
  split at h
  · next found hfound =>
      obtain rfl := Except.ok.inj h
      obtain ⟨⟨_, d⟩, hd, rfl⟩ := Option.map_eq_some_iff.1 hfound
      exact Grammar.yields_moduleItems (hP _) _ _ d hd
  · cases h

theorem Tree.Module.mem_types {m : Module} {t : TypeNode} (h : t ∈ m.types) :
    ∃ d ∈ m.declared, t ∈ d.2.types := by
  obtain ⟨st, hst, ht⟩ := List.mem_flatMap.1 h
  have hdeclared : ∃ d ∈ st.declared, t ∈ d.2.types := by
    cases st with
    | declare d => exact ⟨_, List.mem_singleton_self _, ht⟩
    | exportDeclaration d => exact ⟨_, List.mem_singleton_self _, ht⟩
    | exportDefault node =>
        obtain ⟨n, hnode, hn⟩ := List.mem_flatMap.1 ht
        obtain rfl := Option.mem_toList.1 hnode
        exact ⟨(.default, .classDef n), List.mem_singleton_self _, hn⟩
    | _ => exact absurd ht List.not_mem_nil
  obtain ⟨d, hd, ht⟩ := hdeclared
  exact ⟨d, List.mem_flatMap.2 ⟨st, hst, hd⟩, ht⟩

theorem Grammar.yieldsDeclared_proper (n : Nat) :
    YieldsDeclared (rules n) fun d => ∀ t ∈ d.types, t.Proper where
  interface := yields_interfaceDeclaration (yields_type n)
  typeAlias := (yields_aliasDeclaration (yields_type n)).imp fun _ => List.forall_mem_singleton.2
  enum := fun _ _ _ _ => nofun
  classRest := yields_classRest (yields_type n)
  other := nofun

theorem SourceFile.proper_of_parse {file : SourceFile} {m : Module} (h : file.parse = .ok m) :
    ∀ t ∈ m.types, t.Proper := by
  intro t ht
  obtain ⟨d, hd, ht⟩ := Module.mem_types ht
  exact SourceFile.declared_of_parse h Grammar.yieldsDeclared_proper d hd t ht

end ElementBridge
