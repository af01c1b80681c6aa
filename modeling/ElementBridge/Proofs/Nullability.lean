import ElementBridge.Proofs.EmittedTypes
import ElementBridge.Proofs.NullableText
import ElementBridge.Proofs.WrittenSources

namespace ElementBridge

def Primitive.admitsNull : Primitive → Bool
  | .null | .any | .unknown => true
  | _ => false

theorem Name.text_ne_null (name : Name) : name.text ≠ "null" := by
  intro h
  have hfree := name.isFree
  rw [Word.isReserved, show name.word.text = "null" from h] at hfree
  exact absurd hfree (by decide)

namespace Surface

open ClosureType

variable {s : Surface} {globals : List String} {t : TypeExpr}

/-- Null is one of the values. An alias stands for its type. -/
inductive AdmitsNull (s : Surface) (globals : List String) : TypeExpr → Prop where
  | primitive {p : Primitive} : p.admitsNull = true → AdmitsNull s globals (.primitive p)
  | keyword {name : String} {p : Primitive} : s.resolve globals name = some (.primitive p) →
      p.admitsNull = true → AdmitsNull s globals (.reference name [])
  | union {ts : List TypeExpr} {t : TypeExpr} : t ∈ ts → AdmitsNull s globals t →
      AdmitsNull s globals (.union ts)
  | alias {name : String} {args : List TypeExpr} {d : Interface} {t : TypeExpr} :
      s.resolve globals name = some (.interface d) → d.shape = .alias t →
      AdmitsNull s globals t → AdmitsNull s globals (.reference name args)

/-- Null is one of the values, but behind the names of aliases only. -/
inductive HidesNull (s : Surface) (globals : List String) : TypeExpr → Prop where
  | alias {name : String} {args : List TypeExpr} {d : Interface} {t : TypeExpr} :
      s.resolve globals name = some (.interface d) → d.shape = .alias t →
      s.AdmitsNull globals t → HidesNull s globals (.reference name args)
  | union {ts : List TypeExpr} {t : TypeExpr} : t ∈ ts → s.AdmitsNull globals t →
      (∀ u ∈ ts, s.AdmitsNull globals u → HidesNull s globals u) → HidesNull s globals (.union ts)

/-- The type `never`, which is printed as `*`, stands nowhere in a type. -/
def NeverFree (s : Surface) (globals : List String) (t : TypeExpr) : Prop :=
  ∀ u : TypeExpr, u.IsPart t → u ≠ .primitive .never ∧
    ∀ name args, u = .reference name args → s.resolve globals name ≠ some (.primitive .never)

theorem NeverFree.part (h : s.NeverFree globals t) {u : TypeExpr} (hu : u.IsPart t) :
    s.NeverFree globals u := fun v hv => h v (hv.trans hu)

theorem neverFree_primitive {p : Primitive} (hp : p ≠ .never) :
    s.NeverFree globals (.primitive p) := by
  intro u hu
  cases hu with
  | self => exact ⟨fun h => hp (TypeExpr.primitive.inj h), fun _ _ h => TypeExpr.noConfusion h⟩

theorem neverFree_reference {name : String}
    (hr : s.resolve globals name ≠ some (.primitive .never)) :
    s.NeverFree globals (.reference name []) := by
  intro u hu
  cases hu with
  | self => exact ⟨TypeExpr.noConfusion, fun _ _ h => (TypeExpr.reference.inj h).1 ▸ hr⟩
  | argument hmem => exact absurd hmem List.not_mem_nil

theorem neverFree_union {ts : List TypeExpr} (h : ∀ t ∈ ts, s.NeverFree globals t) :
    s.NeverFree globals (.union ts) := by
  intro u hu
  cases hu with
  | self => exact ⟨TypeExpr.noConfusion, fun _ _ h => TypeExpr.noConfusion h⟩
  | member ht hu => exact h _ ht u hu

theorem HidesNull.admitsNull (h : s.HidesNull globals t) : s.AdmitsNull globals t := by
  cases h with
  | «alias» hr hshape hnull => exact .alias hr hshape hnull
  | union ht hnull _ => exact .union ht hnull

theorem not_hidesNull_primitive (p : Primitive) : ¬ s.HidesNull globals (.primitive p) := by
  intro h
  cases h

theorem admitsNull_union_iff {ts : List TypeExpr} :
    s.AdmitsNull globals (.union ts) ↔ ∃ t ∈ ts, s.AdmitsNull globals t := by
  constructor
  · intro h
    cases h with
    | union ht hnull => exact ⟨_, ht, hnull⟩
  · rintro ⟨t, ht, hnull⟩
    exact .union ht hnull

theorem shows_union_iff {ts : List TypeExpr} :
    s.AdmitsNull globals (.union ts) ∧ ¬ s.HidesNull globals (.union ts) ↔
      ∃ t ∈ ts, s.AdmitsNull globals t ∧ ¬ s.HidesNull globals t := by
  constructor
  · rintro ⟨hnull, hshows⟩
    obtain ⟨t, ht, hadmits⟩ := admitsNull_union_iff.1 hnull
    by_contra hnone
    refine hshows (.union ht hadmits fun u hu hadmits => ?_)
    by_contra hhides
    exact hnone ⟨u, hu, hadmits, hhides⟩
  · rintro ⟨t, ht, hadmits, hshows⟩
    refine ⟨.union ht hadmits, fun hhides => ?_⟩
    cases hhides with
    | union _ _ hall => exact hshows (hall t ht hadmits)

theorem admitsNull_primitive {p : Primitive} (h : p ≠ .never) :
    ClosureType.AdmitsNull p.closureType.toList ↔ p.admitsNull = true := by
  have other {name : String} (hall : name.toList.all isNameLetter = true)
      (hne : name.toList ≠ "null".toList) : ¬ ClosureType.AdmitsNull name.toList :=
    fun hnull => hne ((admitsNull_name hall).1 hnull)
  cases p with
  | string => exact iff_of_false (other (by decide) (by decide)) (by decide)
  | number => exact iff_of_false (other (by decide) (by decide)) (by decide)
  | boolean => exact iff_of_false (other (by decide) (by decide)) (by decide)
  | void => exact iff_of_false (other (by decide) (by decide)) (by decide)
  | undefined => exact iff_of_false (other (by decide) (by decide)) (by decide)
  | null => exact iff_of_true .null rfl
  | any => exact iff_of_true .any rfl
  | unknown => exact iff_of_true .any rfl
  | never => exact absurd rfl h
  | object => exact iff_of_false (not_admitsNull_cons (by decide) _) (by decide)

theorem not_admitsNull_arguments {base : List Char} {args : List (List Char)} (hargs : args ≠ [])
    (hmark : base.head? ≠ some '?') (hparen : base.head? ≠ some '(') (hne : base ≠ []) :
    ¬ ClosureType.AdmitsNull (base ++ arguments args) := by
  have hangle : '<' ∈ base ++ arguments args := by
    simp [arguments, hargs]
  obtain ⟨c, rest, rfl⟩ := List.exists_cons_of_ne_nil hne
  rw [admitsNull_iff]
  rintro (h | h | ⟨_, h⟩ | ⟨_, h, -⟩)
  · rw [h] at hangle
    exact absurd hangle (by decide)
  · rw [h] at hangle
    exact absurd hangle (by decide)
  · exact hmark (congrArg some (List.cons.inj h).1)
  · exact hparen (congrArg some (List.cons.inj h).1)

theorem admitsNull_arguments_primitive {p : Primitive} (hp : p ≠ .never)
    (args : List (List Char)) :
    ClosureType.AdmitsNull (p.closureType.toList ++ arguments args) ↔
      args = [] ∧ p.admitsNull = true := by
  cases args with
  | nil => simpa [arguments] using admitsNull_primitive hp
  | cons a args =>
      have hhead : p.closureType.toList.head? ≠ some '?' ∧ p.closureType.toList.head? ≠ some '(' ∧
          p.closureType.toList ≠ [] := by
        cases p <;> decide
      obtain ⟨hmark, hparen, hne⟩ := hhead
      refine iff_of_false ?_ (by simp)
      exact not_admitsNull_arguments (List.cons_ne_nil _ _) hmark hparen hne

theorem not_admitsNull_enum (hs : s.Has TypeExpr.WellNamed) {name : String} {d : Enumeration}
    (hr : s.resolve globals name = some (.enum d)) (args : List (List Char)) :
    ¬ ClosureType.AdmitsNull (name.toList ++ arguments args) := by
  have henum := localMeaning_enum ((resolve_type rfl).1 hr)
  obtain ⟨enumName, hname⟩ := hs.enums d (List.mem_of_find?_eq_some henum)
  obtain rfl : name = enumName.text := (enum?_name henum).symm.trans hname
  have hletters : enumName.text.toList.all isNameLetter = true := enumName.word.all_isNameLetter
  cases args with
  | nil =>
      rw [arguments, if_pos List.isEmpty_nil, List.append_nil, admitsNull_name hletters]
      exact fun h => enumName.text_ne_null (String.toList_injective h)
  | cons a args =>
      have hhead (c : Char) (hc : isNameLetter c = false) :
          enumName.text.toList.head? ≠ some c := by
        intro h
        have hletter := List.all_eq_true.1 hletters c (List.mem_of_mem_head? h)
        exact absurd (hc.symm.trans hletter) (by decide)
      exact not_admitsNull_arguments (List.cons_ne_nil _ _) (hhead '?' (by decide))
        (hhead '(' (by decide)) enumName.word.toList_ne_nil

theorem admitsNull_reference (hs : s.Has TypeExpr.WellNamed) {name : String}
    (hnever : s.resolve globals name ≠ some (.primitive .never)) (args : List (List Char)) :
    ClosureType.AdmitsNull ((s.nameType globals name).toList ++ arguments args) ↔
      args = [] ∧ ∃ p, s.resolve globals name = some (.primitive p) ∧ p.admitsNull = true := by
  have marked (text : String) : ¬ ClosureType.AdmitsNull (("!" ++ text).toList ++ arguments args) := by
    rw [String.toList_append, List.append_assoc]
    exact not_admitsNull_cons (by decide) _
  unfold nameType
  rcases hr : s.resolve globals name with - | ⟨d | d | - | p | - | - | ⟨module, symbol⟩⟩
  · exact iff_of_false (marked name) (by simp)
  · exact iff_of_false (marked name) (by simp)
  · exact iff_of_false (not_admitsNull_enum hs hr args) (by simp)
  · exact iff_of_false (marked _) (by simp)
  · have hp : p ≠ .never := fun h => hnever (h ▸ hr)
    simpa [ofMeaning] using admitsNull_arguments_primitive hp args
  · exact iff_of_false (marked name) (by simp)
  · exact iff_of_false (marked name) (by simp)
  · exact iff_of_false (marked name) (by simp)

theorem sealed_closureType (hs : s.Has TypeExpr.WellNamed) (ht : t.WellNamed) :
    Sealed (s.closureType globals t).toList :=
  composes_closureType composes_sealed hs.component ht

theorem shows_primitive_iff {p : Primitive} (hp : p ≠ .never) :
    ClosureType.AdmitsNull (s.closureType globals (.primitive p)).toList ↔
      s.AdmitsNull globals (.primitive p) ∧ ¬ s.HidesNull globals (.primitive p) := by
  rw [closureType, admitsNull_primitive hp]
  constructor
  · intro hnull
    exact ⟨.primitive hnull, not_hidesNull_primitive p⟩
  · rintro ⟨hnull, -⟩
    cases hnull with
    | primitive hp => exact hp

theorem shows_reference_iff (hs : s.Has TypeExpr.WellNamed) {name : String} {args : List TypeExpr}
    (hnever : s.resolve globals name ≠ some (.primitive .never)) :
    ClosureType.AdmitsNull (s.closureType globals (.reference name args)).toList ↔
      s.AdmitsNull globals (.reference name args) ∧
        ¬ s.HidesNull globals (.reference name args) := by
  rw [closureType, toList_generic, admitsNull_reference hs hnever, closureTypes_eq_map]
  constructor
  · rintro ⟨hargs, p, hr, hp⟩
    obtain rfl : args = [] := by simpa using hargs
    refine ⟨.keyword hr hp, fun hhides => ?_⟩
    cases hhides with
    | «alias» hr' => exact absurd (hr.symm.trans hr') (by simp)
  · rintro ⟨hnull, hshows⟩
    cases hnull with
    | keyword hr hp => exact ⟨rfl, _, hr, hp⟩
    | «alias» hr hshape hnull => exact absurd (.alias hr hshape hnull) hshows

theorem shows_members_iff {ts : List TypeExpr}
    (hsealed : ∀ t ∈ ts, Sealed (s.closureType globals t).toList)
    (hmember : ∀ t ∈ ts, ClosureType.AdmitsNull (s.closureType globals t).toList ↔
      s.AdmitsNull globals t ∧ ¬ s.HidesNull globals t) :
    ClosureType.AdmitsNull (s.closureType globals (.union ts)).toList ↔
      s.AdmitsNull globals (.union ts) ∧ ¬ s.HidesNull globals (.union ts) := by
  rw [shows_union_iff, closureType]
  split
  · next text hnull hone =>
      obtain ⟨u, hu, hisNull⟩ := List.any_eq_true.1 hnull
      obtain rfl := TypeExpr.eq_null_of_isNull hisNull
      exact iff_of_true (admitsNull_nullable text) ⟨_, hu, .primitive rfl, not_hidesNull_primitive _⟩
  · have htexts : ∀ text ∈ s.closureTypes globals ts, Sealed text.toList := by
      rw [closureTypes_eq_map]
      exact List.forall_mem_map.2 hsealed
    rw [admitsNull_union htexts, closureTypes_eq_map]
    constructor
    · rintro ⟨text, htext, hnull⟩
      obtain ⟨t, ht, rfl⟩ := List.mem_map.1 htext
      exact ⟨t, ht, (hmember t ht).1 hnull⟩
    · rintro ⟨t, ht, hshown⟩
      exact ⟨_, List.mem_map_of_mem ht, (hmember t ht).2 hshown⟩

theorem admitsNull_closureType (hs : s.Has TypeExpr.WellNamed) (ht : t.WellNamed)
    (hn : s.NeverFree globals t) :
    ClosureType.AdmitsNull (s.closureType globals t).toList ↔
      s.AdmitsNull globals t ∧ ¬ s.HidesNull globals t := by
  induction ht with
  | primitive p => exact shows_primitive_iff fun h => (hn _ .self).1 (h ▸ rfl)
  | @reference name args _ _ => exact shows_reference_iff hs ((hn _ .self).2 name.text args rfl)
  | array _ _ =>
      rw [closureType]
      refine iff_of_false ?_ fun h => by cases h.1
      simp only [String.toList_append, List.append_assoc]
      exact not_admitsNull_cons (by decide) _
  | @union ts hts ih =>
      refine shows_members_iff (fun t ht => sealed_closureType hs (hts t ht)) fun t ht => ?_
      exact ih t ht (hn.part (.member ht .self))
  | function _ _ _ _ =>
      rw [closureType]
      refine iff_of_false ?_ fun h => by cases h.1
      simp only [String.toList_append, List.append_assoc]
      exact not_admitsNull_cons (by decide) _
  | record _ _ _ =>
      rw [closureType]
      refine iff_of_false ?_ fun h => by cases h.1
      simp only [braces, String.toList_append, List.append_assoc]
      exact not_admitsNull_cons (by decide) _

theorem nullability_of_emits {config : Config} {disk : Disk} {file : SourceFile} {text : String}
    (hs : file.surface config disk = .ok s) (ht : s.Emits config.globalTypes t text)
    (hn : s.NeverFree config.globalTypes t) :
    (ClosureType.AdmitsNull text.toList ↔ s.AdmitsNull config.globalTypes t) ↔
      ¬ s.HidesNull config.globalTypes t := by
  have hnamed := has_of_surface TypeExpr.wellNamed_kept hs
  have hprinted := admitsNull_closureType hnamed (ht.wellNamed hnamed) hn
  have hshown : ClosureType.AdmitsNull text.toList ↔
      s.AdmitsNull config.globalTypes t ∧ ¬ s.HidesNull config.globalTypes t := by
    rcases ht.isPrinted with rfl | rfl
    · exact hprinted
    · rw [admitsNull_orUndefined (sealed_closureType hnamed (ht.wellNamed hnamed))]
      exact hprinted
  rw [hshown]
  constructor
  · exact fun hagree hhides => (hagree.2 hhides.admitsNull).2 hhides
  · exact fun hshows => ⟨fun h => h.1, fun h => ⟨h, hshows⟩⟩

def aliasSource : SourceFile where
  path := ⟨"a.ts"⟩
  text := "type N=string|null;export class A extends HTMLElement\x7bm(x:N,y?:N|null)\x7b\x7d\x7d"

def aliasSurface : Surface where
  fileName := "a"
  interfaces := [⟨"N", [], .alias (.union [.primitive .string, .primitive .null])⟩]
  enums := []
  component := ⟨"A", "HTMLElement", .named, none, none⟩
  members := [⟨"m", .method, [⟨"x", .reference "N" [], false⟩,
    ⟨"y", .union [.reference "N" [], .primitive .null], true⟩], none, .implied, false, false⟩]
  imports := []
  referenced := ["N"]

theorem surface_aliasSource : aliasSource.surface .standard ⟨[], []⟩ = .ok aliasSurface := by
  have h : (aliasSource.surface .standard ⟨[], []⟩).toOption = some aliasSurface := by
    rw [SourceFile.surface, aliasSource.parse_eq_elim rfl]
    decide +kernel
  exact eq_ok_of_toOption h

theorem nullability_of_union_aliasSource :
    aliasSource.surface .standard ⟨[], []⟩ = .ok aliasSurface ∧
    ((ClosureType.AdmitsNull "(?N|undefined)".toList ↔
        aliasSurface.AdmitsNull Config.standard.globalTypes
          (.union [.reference "N" [], .primitive .null])) ↔
      ¬ aliasSurface.HidesNull Config.standard.globalTypes
          (.union [.reference "N" [], .primitive .null])) := by
  refine ⟨surface_aliasSource, nullability_of_emits surface_aliasSource ?_ ?_⟩
  · exact .signature (.param (p := ⟨"y", .union [.reference "N" [], .primitive .null], true⟩)
      List.mem_cons_self rfl (by simp) (by decide +kernel))
  · refine neverFree_union fun t ht => ?_
    rcases List.mem_pair.1 ht with rfl | rfl
    · exact neverFree_reference (by decide +kernel)
    · exact neverFree_primitive (by decide)

theorem nullability_lost_aliasSource :
    aliasSource.surface .standard ⟨[], []⟩ = .ok aliasSurface ∧
    aliasSurface.Emits Config.standard.globalTypes (.reference "N" []) "!N" ∧
    aliasSurface.NeverFree Config.standard.globalTypes (.reference "N" []) ∧
    aliasSurface.AdmitsNull Config.standard.globalTypes (.reference "N" []) ∧
    ¬ ClosureType.AdmitsNull "!N".toList := by
  have hr : aliasSurface.resolve Config.standard.globalTypes "N"
      = some (.interface ⟨"N", [], .alias (.union [.primitive .string, .primitive .null])⟩) := by
    decide +kernel
  refine ⟨surface_aliasSource, ?_, neverFree_reference (by simp [hr]), ?_, ?_⟩
  · exact .signature (.param (p := ⟨"x", .reference "N" [], false⟩) List.mem_cons_self rfl
      List.mem_cons_self (by decide +kernel))
  · exact .alias hr rfl (.union (List.mem_cons_of_mem _ List.mem_cons_self) (.primitive rfl))
  · exact not_admitsNull_cons (by decide) _

end Surface

end ElementBridge
