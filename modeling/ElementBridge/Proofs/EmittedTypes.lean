import ElementBridge.Bridge.OfSurface
import ElementBridge.Proofs.PrintedTypes

namespace ElementBridge.Surface

open ClosureType

variable {s : Surface}

inductive Inherits (s : Surface) : Interface → Interface → Prop where
  | self (d : Interface) : Inherits s d d
  | base {d b e : Interface} {base : String} : base ∈ d.bases → s.interface? base = some b →
      Inherits s b e → Inherits s d e

theorem mem_mergeField {fields : List Field} {f g : Field} (h : g ∈ mergeField fields f) :
    g = f ∨ g ∈ fields := by
  induction fields with
  | nil => exact .inl (List.mem_singleton.1 h)
  | cons first rest ih =>
      unfold mergeField at h
      split at h
      · exact (List.mem_cons.1 h).imp_right (List.mem_cons_of_mem _)
      · rcases List.mem_cons.1 h with rfl | h
        · exact .inr List.mem_cons_self
        · exact (ih h).imp_right (List.mem_cons_of_mem _)

theorem mem_mergeFields {fields more : List Field} {g : Field} (h : g ∈ mergeFields fields more) :
    g ∈ fields ∨ g ∈ more := by
  unfold mergeFields at h
  induction more generalizing fields with
  | nil => exact .inl h
  | cons f more ih =>
      rcases ih h with h | h
      · rcases mem_mergeField h with rfl | h
        · exact .inr List.mem_cons_self
        · exact .inl h
      · exact .inr (List.mem_cons_of_mem _ h)

theorem mem_flattenFrom {depth : Nat} {visited : List String} {d : Interface} {f : Field}
    (h : f ∈ (s.flattenFrom depth visited d).1) : ∃ e, s.Inherits d e ∧ f ∈ ownFields e := by
  induction depth generalizing visited d f with
  | zero => exact absurd h List.not_mem_nil
  | succ depth ih =>
      simp only [flattenFrom] at h
      split at h
      · exact absurd h List.not_mem_nil
      · rcases mem_mergeFields h with h | h
        · refine List.foldlRecOn (motive := fun found : List Field × List String =>
            f ∈ found.1 → ∃ e, s.Inherits d e ∧ f ∈ ownFields e) d.bases _ ?_ ?_ h
          · exact fun h => absurd h List.not_mem_nil
          · intro found hfound base hbase h
            split at h
            · exact hfound h
            · next b hb =>
                rcases mem_mergeFields h with h | h
                · exact hfound h
                · obtain ⟨e, he, hf⟩ := ih h
                  exact ⟨e, .base hbase hb he, hf⟩
        · exact ⟨d, .self d, h⟩

theorem mem_flatten {d : Interface} {f : Field} (h : f ∈ s.flatten d) :
    ∃ e, s.Inherits d e ∧ f ∈ ownFields e := mem_flattenFrom h

theorem Inherits.mem_interfaces {d e : Interface} (h : s.Inherits d e) (hd : d ∈ s.interfaces) :
    e ∈ s.interfaces := by
  induction h with
  | self d => exact hd
  | base _ hb _ ih => exact ih (List.mem_of_find?_eq_some hb)

variable {Q : TypeExpr → Prop}

theorem Has.flatten (hs : s.Has Q) {d : Interface} (hd : d ∈ s.interfaces) {f : Field}
    (hf : f ∈ s.flatten d) : TypeExpr.Kept.Good Q f := by
  obtain ⟨e, he, hf⟩ := mem_flatten hf
  have hshape := (hs.interfaces e (he.mem_interfaces hd)).shape
  unfold ownFields at hf
  split at hf
  · next fields hrecord =>
      rw [hrecord] at hshape
      exact hshape f hf
  · exact absurd hf List.not_mem_nil

/-- The types of the stubs and of the creator, and the text that each is printed as, the mark of an
optional parameter left out. -/
inductive Signs (s : Surface) (globals : List String) : TypeExpr → String → Prop where
  | param {m : Member} {p : Param} {text : String} : m ∈ s.members → m.kind = .method →
      p ∈ m.params → s.paramType globals p = text ++ (if p.optional then "=" else "") →
      Signs s globals p.type text
  | result {m : Member} {t : TypeExpr} : m ∈ s.members → m.kind = .method → m.result = some t →
      Signs s globals t (s.closureType globals t)
  | accessor {m : Member} {t : TypeExpr} : m ∈ s.members → m.kind ≠ .method →
      m.valueType = some t → Signs s globals t (Bridge.accessorType s globals m)
  | creatorParam {p : Param} {text : String} : p ∈ s.component.params →
      s.paramType globals p = text ++ (if p.optional then "=" else "") →
      Signs s globals p.type text

inductive Defines (s : Surface) (globals : List String) (d : Interface) :
    TypeExpr → String → Prop where
  | alias {t : TypeExpr} : d.shape = .alias t → Defines s globals d t (s.closureType globals t)
  | field {f : Field} : f ∈ s.flatten d → Defines s globals d f.type (s.fieldType globals f)

inductive Emits (s : Surface) (globals : List String) : TypeExpr → String → Prop where
  | signature {t : TypeExpr} {text : String} : s.Signs globals t text → Emits s globals t text
  | typedef {d : Interface} {t : TypeExpr} {text : String} : d ∈ s.interfaces →
      s.isReferenced d.name = true → s.Defines globals d t text → Emits s globals t text
  | part {t u : TypeExpr} {text : String} : Emits s globals t text → u.IsPart t →
      Emits s globals u (s.closureType globals u)
  | partField {t : TypeExpr} {text : String} {fields : List Field} {f : Field} :
      Emits s globals t text → TypeExpr.IsPart (.record fields) t → f ∈ fields →
      Emits s globals f.type (s.fieldType globals f)

variable {globals : List String} {t : TypeExpr} {text : String}

theorem Signs.has (hmembers : ∀ m ∈ s.members, m.Has Q)
    (hparams : ∀ p ∈ s.component.params, Q p.type) (h : s.Signs globals t text) : Q t := by
  cases h with
  | param hm _ hp _ => exact (hmembers _ hm).param hp
  | result hm _ ht => exact (hmembers _ hm).result ht
  | accessor hm _ ht => exact (hmembers _ hm).valueType ht
  | creatorParam hp _ => exact hparams _ hp

theorem Defines.has (hs : s.Has Q) {d : Interface} (hd : d ∈ s.interfaces)
    (h : s.Defines globals d t text) : Q t := by
  cases h with
  | «alias» hshape =>
      have htype := (hs.interfaces d hd).shape
      rwa [hshape] at htype
  | field hf => exact (hs.flatten hd hf).2

theorem Emits.wellNamed (hs : s.Has TypeExpr.WellNamed) (h : s.Emits globals t text) :
    t.WellNamed := by
  induction h with
  | signature h => exact h.has hs.members hs.params
  | typedef hd _ h => exact h.has hs hd
  | part _ hpart ih => exact ih.part hpart
  | partField _ hpart hf ih =>
      cases ih.part hpart with
      | record _ htypes => exact htypes _ hf

def IsPrinted (s : Surface) (globals : List String) (t : TypeExpr) (text : String) : Prop :=
  text = s.closureType globals t ∨ text = orUndefined (s.closureType globals t)

theorem IsPrinted.typeText (h : s.IsPrinted globals t text)
    (hs : ∃ name : Name, s.component.name = name.text) (ht : t.WellNamed) {P : List Char → Prop}
    (hbuiltin : ∀ name ∈ builtinNames, P name.toList)
    (hP : ∀ name ∈ s.shown globals t, P name.toList) : TypeText P text.toList := by
  have htext := typeText_of_shown hs ht hbuiltin hP
  rcases h with rfl | rfl
  · exact htext
  · exact typeText_orUndefined (hbuiltin "undefined" (by decide)) htext

theorem isPrinted_fieldType (f : Field) : s.IsPrinted globals f.type (s.fieldType globals f) := by
  unfold fieldType
  cases f.optional with
  | false => exact .inl rfl
  | true => exact .inr rfl

theorem exists_paramType (s : Surface) (globals : List String) (p : Param) :
    ∃ text, s.paramType globals p = text ++ if p.optional then "=" else "" := by
  unfold paramType
  cases p.optional with
  | false => exact ⟨_, (String.append_empty).symm⟩
  | true =>
      simp only [Bool.not_true, Bool.false_eq_true, if_false, if_true]
      split
      · exact ⟨_, rfl⟩
      · exact ⟨_, rfl⟩

theorem isPrinted_paramType {p : Param}
    (h : s.paramType globals p = text ++ if p.optional then "=" else "") :
    s.IsPrinted globals p.type text := by
  unfold paramType at h
  cases hp : p.optional with
  | false =>
      simp only [hp] at h
      exact .inl (by simpa using h.symm)
  | true =>
      simp only [hp, Bool.not_true, Bool.false_eq_true, if_false, if_true] at h
      split at h
      · exact .inl ((String.append_left_inj _).1 h).symm
      · exact .inr ((String.append_left_inj _).1 h).symm

theorem Signs.isPrinted (h : s.Signs globals t text) : s.IsPrinted globals t text := by
  cases h with
  | param _ _ _ hp => exact isPrinted_paramType hp
  | result => exact .inl rfl
  | @accessor m _ _ _ ht =>
      unfold Bridge.accessorType
      rw [ht]
      cases m.optional with
      | false => exact .inl rfl
      | true => exact .inr rfl
  | creatorParam _ hp => exact isPrinted_paramType hp

theorem Defines.isPrinted {d : Interface} (h : s.Defines globals d t text) :
    s.IsPrinted globals t text := by
  cases h with
  | «alias» => exact .inl rfl
  | field => exact isPrinted_fieldType _

theorem Emits.isPrinted (h : s.Emits globals t text) : s.IsPrinted globals t text := by
  cases h with
  | signature h => exact h.isPrinted
  | typedef _ _ h => exact h.isPrinted
  | part => exact .inl rfl
  | partField => exact isPrinted_fieldType _

end ElementBridge.Surface
