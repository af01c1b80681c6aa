import ElementBridge.Proofs.MethodRuns
import ElementBridge.Proofs.ParsedTypes
import ElementBridge.Proofs.PrintedTypes
import ElementBridge.Proofs.RespelledTypes
import ElementBridge.Proofs.WrittenSources

namespace ElementBridge

open ElementBridge.Tree

namespace TypeExpr

def Settled : TypeExpr → Prop
  | .union members => members ≠ [] ∧ ∀ inner, .union inner ∉ members
  | .reference name args => name = "Array" ∨ name = "ReadonlyArray" → args.length ≠ 1
  | .record fields => ∀ f ∈ fields, Text.isBareKey f.name = true
  | .primitive _ | .array _ | .function _ _ => True

def IsNormal (t : TypeExpr) : Prop := ∀ u : TypeExpr, u.IsPart t → u.Settled

variable {t : TypeExpr} {ts : List TypeExpr}

def IsMember (t : TypeExpr) : Prop := t.IsNormal ∧ ∀ inner, t ≠ .union inner

theorem isNormal_union (hne : ts ≠ []) (h : ∀ t ∈ ts, t.IsMember) : IsNormal (.union ts) := by
  intro u hu
  cases hu with
  | self => exact ⟨hne, fun inner hinner => (h _ hinner).2 inner rfl⟩
  | member ht hu => exact (h _ ht).1 u hu

theorem isNormal_record {fields : List Field} (h : ∀ f ∈ fields, Kept.Good IsNormal f) :
    IsNormal (.record fields) := by
  intro u hu
  cases hu with
  | self => exact fun f hf => (h f hf).1
  | field hf hu => exact (h _ hf).2 u hu

theorem IsNormal.alternatives (h : t.IsNormal) :
    t.alternatives ≠ [] ∧ ∀ u ∈ t.alternatives, u.IsMember := by
  cases t with
  | union ts =>
      obtain ⟨hne, hflat⟩ := h (.union ts) .self
      refine ⟨hne, fun u hu => ⟨fun v hv => h v (.member hu hv), fun inner heq => ?_⟩⟩
      exact hflat inner (heq ▸ hu)
  | _ => exact ⟨List.cons_ne_nil _ _, List.forall_mem_singleton.2 ⟨h, nofun⟩⟩

theorem isMember_alternatives (h : ∀ t ∈ ts, t.IsNormal) :
    ∀ u ∈ ts.flatMap alternatives, u.IsMember := by
  intro u hu
  obtain ⟨t, ht, hu⟩ := List.mem_flatMap.1 hu
  exact (h t ht).alternatives.2 u hu

theorem alternatives_ne_nil (hne : ts ≠ []) (h : ∀ t ∈ ts, t.IsNormal) :
    ts.flatMap alternatives ≠ [] := by
  obtain ⟨t, ht⟩ := List.exists_mem_of_ne_nil ts hne
  exact fun hnil => (h t ht).alternatives.1 (List.flatMap_eq_nil_iff.1 hnil t ht)

/-- Lowering gives types in normal form, if no union that is written is empty. -/
theorem isNormal_kept : KeptFrom (· ≠ .union []) IsNormal where
  primitive p := by
    rintro u ⟨⟩
    trivial
  named {n args} hargs := by
    unfold named
    split
    · intro u hu
      cases hu with
      | self => trivial
      | element hu => exact hargs _ List.mem_cons_self u hu
    · next hother =>
        intro u hu
        cases hu with
        | self =>
            intro harray hone
            obtain ⟨element, rfl⟩ := List.length_eq_one_iff.1 hone
            exact hother element (by simpa [isArrayName] using harray) rfl
        | argument ht hu => exact hargs _ ht u hu
  array ht := by
    intro u hu
    cases hu with
    | self => trivial
    | element hu => exact ht u hu
  union {members ts} hmembers hmap hts := by
    have hne : ts ≠ [] := by
      rintro rfl
      exact hmembers (congrArg _ (List.map_eq_nil_iff.1 hmap))
    exact isNormal_union (alternatives_ne_nil hne hts) (isMember_alternatives hts)
  function hparams hresult := by
    intro u hu
    cases hu with
    | self => trivial
    | parameter ht hu => exact hparams _ ht u hu
    | result hu => exact hresult u hu
  record _ _ hfields := isNormal_record hfields
  unionOf {ts} hne hts := by
    have hall : ∀ u ∈ (ts.flatMap TypeExpr.alternatives).eraseDups, u.IsMember := fun u hu =>
      isMember_alternatives hts u (List.mem_eraseDups.1 hu)
    have hsome : (ts.flatMap TypeExpr.alternatives).eraseDups ≠ [] := by
      obtain ⟨u, hu⟩ := List.exists_mem_of_ne_nil _ (alternatives_ne_nil hne hts)
      exact List.ne_nil_of_mem (List.mem_eraseDups.2 hu)
    unfold unionOf
    split
    · next t hone => exact (hall t (by simp [hone])).1
    · exact isNormal_union hsome hall

def Distinct (t : TypeExpr) : Prop :=
  ∀ members, t = .union members → members.Nodup ∧ members.length ≠ 1

theorem distinct_unionOf (h : ∀ t ∈ ts, t.Flat) : (unionOf ts).Distinct := by
  intro members hunion
  have hmembers : members = (ts.flatMap alternatives).eraseDups := by
    rw [← alternatives_unionOf h, hunion]
    rfl
  refine ⟨hmembers ▸ FirstOccurrences.nodup_eraseDups _, fun hone => ?_⟩
  obtain ⟨t, rfl⟩ := List.length_eq_one_iff.1 hone
  unfold unionOf at hunion
  rw [← hmembers] at hunion
  -- A union is larger than its members.
  have hsize := congrArg sizeOf (show t = .union [t] from hunion)
  simp only [union.sizeOf_spec, List.cons.sizeOf_spec] at hsize
  omega

end TypeExpr

variable {m : Member} {r : Run}

theorem Member.distinct_foldOverloads {first : Member} {rest : List Member}
    (h : ∀ n ∈ first :: rest, n.Has TypeExpr.Flat) (implementation : Option Member) :
    ∀ t ∈ (foldOverloads first rest implementation).types, t.Distinct := by
  intro t ht
  rcases List.mem_append.1 ht with ht | ht
  · obtain ⟨q, hq, rfl⟩ := List.mem_map.1 ht
    obtain ⟨i, hi⟩ := List.mem_iff_getElem?.1 hq
    rw [param_foldOverloads hi]
    refine TypeExpr.distinct_unionOf fun t ht => ?_
    obtain ⟨p, hp, rfl⟩ := List.mem_map.1 ht
    obtain ⟨n, hn, hp⟩ := List.mem_filterMap.1 hp
    exact (h n hn).param (List.mem_of_getElem? hp)
  · rw [result_foldOverloads (Option.mem_toList.1 ht)]
    exact TypeExpr.distinct_unionOf (List.forall_mem_map.2 fun n hn => flat_returned (h n hn))

theorem distinct_of_mem_runs {node : ClassNode} (hr : r ∈ runs node.publicMethods)
    (hfolded : r.signatures ≠ []) (hm : r.member? = some m) : ∀ t ∈ m.types, t.Distinct := by
  obtain ⟨hsignatures, -⟩ := of_mem_runs hr
  obtain ⟨- | ⟨first, rest⟩, implementation⟩ := r
  · exact absurd rfl hfolded
  · obtain rfl := Option.some.inj hm
    exact Member.distinct_foldOverloads
      (fun n hn => Candidate.flat_of_publicMethods (hsignatures n hn).2) implementation

def Shape.type : Shape → TypeExpr
  | .record fields => .record fields
  | .alias t => t

theorem Shape.type_ofNode {node : TypeNode} {shape : Shape} (h : ofNode node = .ok shape) :
    TypeExpr.ofNode node = .ok shape.type := by
  unfold ofNode at h
  split at h
  · simp only [bind_eq_ok, pure_eq_ok] at h
    obtain ⟨fields, hfields, rfl⟩ := h
    rw [TypeExpr.ofNode, hfields]
    rfl
  · simp only [bind_eq_ok, pure_eq_ok] at h
    obtain ⟨t, ht, rfl⟩ := h
    exact ht

namespace Surface

variable {config : Config} {disk : Disk} {file : SourceFile} {module : Module} {s : Surface}

/-- The types of a surface: of its members, of the parameters of its constructor and of its
interfaces and aliases. -/
inductive HasType (s : Surface) : TypeExpr → Prop where
  | member {m : Member} {t : TypeExpr} : m ∈ s.members → t ∈ m.types → HasType s t
  | constructor {p : Param} : p ∈ s.component.params → HasType s p.type
  | declared {d : Interface} : d ∈ s.interfaces → HasType s d.shape.type

theorem Has.isNormal (h : s.Has TypeExpr.IsNormal) {t : TypeExpr} (ht : s.HasType t) :
    t.IsNormal := by
  cases ht with
  | member hm ht => exact h.members _ hm t ht
  | constructor hp => exact h.params _ hp
  | @declared d hd =>
      have hshape := (h.interfaces d hd).shape
      unfold Shape.type
      split
      · next fields heq =>
          rw [heq] at hshape
          exact TypeExpr.isNormal_record hshape
      · next t heq =>
          rw [heq] at hshape
          exact hshape

/-- All types of a surface are in normal form, those folded from several signatures have no member
twice, and how a type is spelled does not matter. -/
theorem isNormal_of_surface (hm : file.parse = .ok module)
    (hs : file.surface config disk = .ok s) :
    (∀ t, s.HasType t → t.IsNormal) ∧
    (∃ kind node, module.hosts config = [(kind, node)] ∧
      (∀ m, m ∈ s.members ∧ m.kind = .method
        ↔ ∃ r ∈ runs node.publicMethods, r.IsMethod ∧ r.member? = some m) ∧
      ∀ r ∈ runs node.publicMethods, r.signatures ≠ [] → ∀ m, r.member? = some m →
        ∀ t ∈ m.types, t.Distinct) ∧
    (∀ t u : TypeNode, t.plain = u.plain →
      (∀ e, TypeExpr.ofNode t = .ok e ↔ TypeExpr.ofNode u = .ok e) ∧
      ∀ a b, Shape.ofNode t = .ok a → Shape.ofNode u = .ok b → a.type = b.type) ∧
    ∀ t : TypeNode, t.parenthesized.plain = t.plain ∧ t.readonly.plain = t.plain ∧
      ∀ name : DottedName, name.text = "Array" ∨ name.text = "ReadonlyArray" →
        (TypeNode.reference name [t]).plain = t.array.plain := by
  have hnormal := has_of_parse TypeExpr.isNormal_kept hm (SourceFile.proper_of_parse hm) hs
  obtain ⟨o⟩ := origin_of_parse hm hs
  obtain ⟨kind, node, hhost, hlowered, hsame⟩ := o.host
  refine ⟨fun t ht => hnormal.isNormal ht, ⟨kind, node, hhost, fun m => ?_, ?_⟩,
    fun t u h => ⟨fun e => TypeExpr.ofNode_iff_of_plain_eq h, fun a b ha hb => ?_⟩, fun t => ?_⟩
  · rw [hsame]
    exact Candidate.mem_methods_iff hlowered
  · exact fun r hr hfolded m hm => distinct_of_mem_runs hr hfolded hm
  · have hconverted := (TypeExpr.ofNode_iff_of_plain_eq h).1 (Shape.type_ofNode ha)
    exact Except.ok.inj (hconverted.symm.trans (Shape.type_ofNode hb))
  · refine ⟨TypeNode.plain_parenthesized, TypeNode.plain_readonly, fun name harray => ?_⟩
    exact TypeNode.plain_array_reference (by simpa [TypeExpr.isArrayName] using harray)

def spelledSource : SourceFile where
  path := ⟨"a.ts"⟩
  text := "type N=(\x7bp:readonly string[]\x7d);export class A extends HTMLElement\x7b"
    ++ "m(a:'x'|'y'):void;m(a:string,b:Array<string|(number|null)>):readonly string[];"
    ++ "m(a:any,b?:any)\x7b\x7d\x7d"

def spelledTypes : List TypeExpr :=
  [.primitive .string, .array (.union [.primitive .string, .primitive .number, .primitive .null]),
    .union [.primitive .void, .array (.primitive .string)],
    .record [⟨"p", .array (.primitive .string), false⟩]]

def strings (named : Bool) : TypeNode :=
  if named then .reference ⟨⟨"Array", by decide⟩, []⟩ [.keyword .string]
  else .readonly (.array (.parenthesized (.keyword .string)))

theorem isNormal_spelledSource : ∃ module s kind node, spelledSource.parse = .ok module ∧
    spelledSource.surface .standard ⟨[], []⟩ = .ok s ∧
    s.members.flatMap Member.types ++ s.interfaces.map (·.shape.type) = spelledTypes ∧
    (∀ t ∈ spelledTypes, t.IsNormal) ∧
    module.hosts .standard = [(kind, node)] ∧
    (runs node.publicMethods).map (·.signatures.length) = [2] ∧
    (∀ r ∈ runs node.publicMethods, ∀ m, r.member? = some m → ∀ t ∈ m.types, t.Distinct) ∧
    TypeExpr.ofNode (strings false) = TypeExpr.ofNode (strings true) := by
  have hread : (spelledSource.parse.toOption.bind fun m =>
      (Surface.ofModule .standard spelledSource
        (ModuleGraph.load ⟨[], []⟩ spelledSource m) m).toOption.map fun s =>
          (s.members.flatMap Member.types ++ s.interfaces.map (·.shape.type),
            (m.hosts .standard).map fun c => (runs c.2.publicMethods).map (·.signatures.length)))
      = some (spelledTypes, [[2]]) := by
    rw [spelledSource.parse_eq_elim (ofList_append (ofList_append rfl rfl) rfl)]
    decide +kernel
  simp only [Option.bind_eq_some_iff, Option.map_eq_some_iff, toOption_eq_some] at hread
  obtain ⟨module, hm, s, hs, hparts⟩ := hread
  obtain ⟨htypes, hlengths⟩ := Prod.mk.inj hparts
  have hs : spelledSource.surface .standard ⟨[], []⟩ = .ok s := by
    rw [SourceFile.surface, hm]
    exact hs
  obtain ⟨hnormal, ⟨kind, node, hhost, -, hfolded⟩, hspelled, -⟩ := isNormal_of_surface hm hs
  rw [hhost] at hlengths
  have htwo : (runs node.publicMethods).map (·.signatures.length) = [2] :=
    List.head_eq_of_cons_eq hlengths
  refine ⟨module, s, kind, node, hm, hs, htypes, fun t ht => hnormal t ?_, hhost, htwo,
    fun r hr => hfolded r hr ?_, ?_⟩
  · rw [← htypes, List.mem_append] at ht
    rcases ht with ht | ht
    · obtain ⟨m, hm, ht⟩ := List.mem_flatMap.1 ht
      exact .member hm ht
    · obtain ⟨d, hd, rfl⟩ := List.mem_map.1 ht
      exact .declared hd
  · intro hnil
    have hlength : r.signatures.length ∈ [2] := htwo ▸ List.mem_map_of_mem hr
    simp [hnil] at hlength
  · have hstrings : TypeExpr.ofNode (strings true) = .ok (.array (.primitive .string)) := by
      decide
    rw [hstrings]
    exact ((hspelled (strings false) (strings true) rfl).1 _).2 hstrings

end Surface

end ElementBridge
