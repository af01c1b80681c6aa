import ElementBridge.Bridge.OfSurface
import ElementBridge.Proofs.AlikeRuns
import ElementBridge.Proofs.BaseWalks

namespace ElementBridge

open ElementBridge.Bridge

theorem Member.mem_types_of_valueType {m : Member} {t : TypeExpr} (h : m.valueType = some t) :
    t ∈ m.types := by
  unfold Member.valueType at h
  split at h
  · obtain ⟨p, hp, rfl⟩ := Option.map_eq_some_iff.1 h
    exact List.mem_append_left _ (List.mem_map_of_mem (List.mem_of_mem_head? hp))
  · exact List.mem_append_right _ (by simp [h])

namespace Surface

def Consults (s : Surface) (d : Interface) (name : String) : Prop :=
  ∃ e, s.Inherits d e ∧ ∃ mention ∈ Mention.ofInterface e, mention.name = name

variable {s : Surface} {is : List Interface} {es : List Enumeration} {names : String → Prop}
  {globals : List String}

theorem consults_base {d : Interface} {base : String} (h : base ∈ d.bases) :
    s.Consults d base :=
  ⟨d, .self d, ⟨base, d.name⟩, List.mem_append_left _ (List.mem_map_of_mem h), rfl⟩

theorem consults_shape {d : Interface} {t : TypeExpr} {name : String} (ht : t ∈ d.shape.types)
    (hn : name ∈ t.references) : s.Consults d name := by
  obtain ⟨mention, hmention, rfl⟩ := Shape.exists_mention ht hn
  exact ⟨d, .self d, mention, List.mem_append_right _ hmention, rfl⟩

theorem Inherits.consults {d e : Interface} {name : String} (h : s.Inherits d e)
    (he : s.Consults e name) : s.Consults d name := by
  obtain ⟨f, hf, hmention⟩ := he
  exact ⟨f, inherits_iff.2 ((inherits_iff.1 h).trans (inherits_iff.1 hf)), hmention⟩

theorem consults_of_mem_flatten {d : Interface} {f : Field} {name : String} (hf : f ∈ s.flatten d)
    (hn : name ∈ f.type.references) : s.Consults d name := by
  obtain ⟨e, he, hf⟩ := mem_flatten hf
  refine he.consults (consults_shape ?_ hn)
  unfold ownFields at hf
  split at hf
  · next fields hrecord =>
      rw [hrecord]
      exact List.mem_map_of_mem hf
  · exact absurd hf List.not_mem_nil

namespace Alike

theorem nameType (h : s.Alike is es names) {name : String} (hn : names name) :
    (s.redeclare is es).nameType globals name = s.nameType globals name := by
  unfold Surface.nameType
  rw [h.resolve hn]
  rfl

mutual

theorem closureType (h : s.Alike is es names) : ∀ t : TypeExpr,
    (∀ name ∈ t.references, names name) →
    (s.redeclare is es).closureType globals t = s.closureType globals t
  | .primitive p, _ => by rw [Surface.closureType, Surface.closureType]
  | .reference name args, hn => by
      rw [TypeExpr.references, List.forall_mem_cons] at hn
      rw [Surface.closureType, Surface.closureType, h.nameType hn.1, closureTypes h args hn.2]
  | .array element, hn => by
      rw [Surface.closureType, Surface.closureType, closureType h element hn]
  | .union members, hn => by
      rw [Surface.closureType, Surface.closureType, closureTypes h members hn,
        closureTypesButNull h members hn]
  | .function params result, hn => by
      rw [TypeExpr.references, List.forall_mem_append] at hn
      rw [Surface.closureType, Surface.closureType, closureTypes h params hn.1,
        closureType h result hn.2]
  | .record fields, hn => by
      rw [Surface.closureType, Surface.closureType, fieldTypes h fields hn]

theorem closureTypes (h : s.Alike is es names) : ∀ ts : List TypeExpr,
    (∀ name ∈ TypeExpr.referencesAll ts, names name) →
    (s.redeclare is es).closureTypes globals ts = s.closureTypes globals ts
  | [], _ => by rw [Surface.closureTypes, Surface.closureTypes]
  | t :: ts, hn => by
      rw [TypeExpr.referencesAll, List.forall_mem_append] at hn
      rw [Surface.closureTypes, Surface.closureTypes, closureType h t hn.1,
        closureTypes h ts hn.2]

theorem closureTypesButNull (h : s.Alike is es names) : ∀ ts : List TypeExpr,
    (∀ name ∈ TypeExpr.referencesAll ts, names name) →
    (s.redeclare is es).closureTypesButNull globals ts = s.closureTypesButNull globals ts
  | [], _ => by rw [Surface.closureTypesButNull, Surface.closureTypesButNull]
  | t :: ts, hn => by
      rw [TypeExpr.referencesAll, List.forall_mem_append] at hn
      rw [Surface.closureTypesButNull, Surface.closureTypesButNull, closureType h t hn.1,
        closureTypesButNull h ts hn.2]

theorem fieldTypes (h : s.Alike is es names) : ∀ fs : List Field,
    (∀ name ∈ TypeExpr.referencesFields fs, names name) →
    (s.redeclare is es).fieldTypes globals fs = s.fieldTypes globals fs
  | [], _ => by rw [Surface.fieldTypes, Surface.fieldTypes]
  | ⟨name, t, optional⟩ :: fs, hn => by
      rw [TypeExpr.referencesFields, List.forall_mem_append] at hn
      rw [Surface.fieldTypes, Surface.fieldTypes, closureType h t hn.1, fieldTypes h fs hn.2]

end

theorem fieldType (h : s.Alike is es names) {f : Field}
    (hn : ∀ name ∈ f.type.references, names name) :
    (s.redeclare is es).fieldType globals f = s.fieldType globals f := by
  unfold Surface.fieldType
  rw [h.closureType f.type hn]

theorem paramTags (h : s.Alike is es names) {params : List Param}
    (hn : ∀ p ∈ params, ∀ name ∈ p.type.references, names name) :
    Bridge.paramTags (s.redeclare is es) globals params = Bridge.paramTags s globals params := by
  refine List.map_congr_left fun p hp => ?_
  unfold Surface.paramType
  rw [h.closureType p.type (hn p hp)]

theorem stubs (h : s.Alike is es names) {m : Member}
    (hn : ∀ t ∈ m.types, ∀ name ∈ t.references, names name) :
    Bridge.stubs (s.redeclare is es) globals m = Bridge.stubs s globals m := by
  have hparams : Bridge.paramTags (s.redeclare is es) globals m.params
      = Bridge.paramTags s globals m.params :=
    h.paramTags fun p hp => hn _ (List.mem_append_left _ (List.mem_map_of_mem hp))
  have hresult : resultTags (s.redeclare is es) globals m.result
      = resultTags s globals m.result := by
    unfold resultTags
    cases hr : m.result with
    | none => rfl
    | some t => simp only [h.closureType t (hn t (List.mem_append_right _ (by simp [hr])))]
  have haccessor : accessorType (s.redeclare is es) globals m = accessorType s globals m := by
    unfold accessorType
    cases ht : m.valueType with
    | none => rfl
    | some t =>
        simp only [Option.map_some, h.closureType t (hn t (Member.mem_types_of_valueType ht))]
  unfold Bridge.stubs methodStub setterStub getterStub
  rw [hparams, hresult, haccessor]

theorem facadeClass (h : s.Alike is es names)
    (hn : ∀ m ∈ s.members, ∀ t ∈ m.types, ∀ name ∈ t.references, names name) :
    Bridge.facadeClass (s.redeclare is es) globals = Bridge.facadeClass s globals := by
  have hstubs : s.members.flatMap (Bridge.stubs (s.redeclare is es) globals)
      = s.members.flatMap (Bridge.stubs s globals) :=
    List.flatMap_congr fun m hm => h.stubs (hn m hm)
  exact congrArg (fun lines => _ ++ lines ++ _) hstubs

theorem creatorFunction (h : s.Alike is es names)
    (hn : ∀ p ∈ s.component.params, ∀ name ∈ p.type.references, names name) :
    Bridge.creatorFunction (s.redeclare is es) globals = Bridge.creatorFunction s globals := by
  have hparams : Bridge.paramTags (s.redeclare is es) globals (s.redeclare is es).component.params
      = Bridge.paramTags s globals s.component.params := h.paramTags hn
  unfold Bridge.creatorFunction
  simp only [hparams]
  rfl

theorem gathers (h : s.Alike is es names) {met met' bases : List String} {taken : List Interface}
    (hw : s.Gathers met bases taken met')
    (hn : ∀ base ∈ bases, names base ∧
      ∀ b, s.interface? base = some b → ∀ name, s.Consults b name → names name) :
    (s.redeclare is es).Gathers met bases taken met' := by
  induction hw with
  | done met => exact .done met
  | absent hb _ ih =>
      obtain ⟨hbase, hbases⟩ := List.forall_mem_cons.1 hn
      rw [← h.interface? _ hbase.1] at hb
      exact .absent hb (ih hbases)
  | again hb hmet _ ih =>
      obtain ⟨hbase, hbases⟩ := List.forall_mem_cons.1 hn
      rw [← h.interface? _ hbase.1] at hb
      exact .again hb hmet (ih hbases)
  | @fresh met bases mid met' base b inner taken hb hnew _ _ ihInner ih =>
      obtain ⟨hbase, hbases⟩ := List.forall_mem_cons.1 hn
      have hinner := ihInner fun base hmem => by
        refine ⟨hbase.2 b hb base (consults_base hmem), fun c hc name hname => ?_⟩
        have hinherits : s.Inherits b c := .base hmem hc (.self c)
        exact hbase.2 b hb name (hinherits.consults hname)
      rw [← h.interface? _ hbase.1] at hb
      exact .fresh hb hnew hinner (ih hbases)

theorem flatten (h : s.Alike is es names) {d : Interface}
    (hn : ∀ name, s.Consults d name → names name) :
    (s.redeclare is es).flatten d = s.flatten d := by
  obtain ⟨taken, met, hw⟩ := s.exists_gathers [d.name] d.bases
  have hw' : (s.redeclare is es).Gathers [d.name] d.bases taken met := by
    refine h.gathers hw fun base hbase => ?_
    refine ⟨hn base (consults_base hbase), fun b hb name hname => ?_⟩
    have hinherits : s.Inherits d b := .base hbase hb (.self b)
    exact hn name (hinherits.consults hname)
  have hroom (t : Surface) : (t.unmet [d.name]).length < t.interfaces.length + 2 :=
    Nat.lt_of_le_of_lt (List.length_filter_le _ _) (by omega)
  unfold Surface.flatten
  rw [hw.flattenFrom (hroom s), hw'.flattenFrom (hroom _)]

theorem typedef (h : s.Alike is es names) {d : Interface}
    (hn : ∀ name, s.Consults d name → names name) :
    Bridge.typedef (s.redeclare is es) globals d = Bridge.typedef s globals d := by
  have hbody : typedefBody (s.redeclare is es) globals d = typedefBody s globals d := by
    unfold typedefBody
    cases hshape : d.shape with
    | record fields =>
        have hfields : (s.flatten d).map (fun f =>
            "* " ++ f.name ++ ":" ++ (s.redeclare is es).fieldType globals f)
            = (s.flatten d).map fun f => "* " ++ f.name ++ ":" ++ s.fieldType globals f := by
          refine List.map_congr_left fun f hf => ?_
          rw [h.fieldType fun name hname => hn name (consults_of_mem_flatten hf hname)]
        simp only [h.flatten hn, hfields]
    | «alias» t =>
        have ht : t ∈ d.shape.types := by simp [hshape, Shape.types]
        simp only [h.closureType t fun name hname => hn name (consults_shape ht hname)]
  unfold Bridge.typedef
  rw [hbody]

end Alike

end Surface

end ElementBridge
