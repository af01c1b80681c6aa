import ElementBridge.Proofs.FirstOccurrences
import ElementBridge.Proofs.SurfaceTypes

namespace ElementBridge

namespace TypeExpr

def Flat (t : TypeExpr) : Prop := ∀ u ∈ t.alternatives, u.alternatives = [u]

theorem flat_of_alternatives {t : TypeExpr} (h : t.alternatives = [t]) : t.Flat := by
  intro u hu
  rw [h] at hu
  rwa [List.mem_singleton.1 hu]

theorem flat_alternatives {ts : List TypeExpr} (h : ∀ t ∈ ts, t.Flat) {u : TypeExpr}
    (hu : u ∈ ts.flatMap alternatives) : u.alternatives = [u] := by
  obtain ⟨t, ht, hu⟩ := List.mem_flatMap.1 hu
  exact h t ht u hu

variable {ts : List TypeExpr}

theorem alternatives_unionOf (h : ∀ t ∈ ts, t.Flat) :
    (unionOf ts).alternatives = (ts.flatMap alternatives).eraseDups := by
  unfold unionOf
  split
  · next t hone =>
      have ht : t ∈ (ts.flatMap alternatives).eraseDups := by simp [hone]
      rw [hone, flat_alternatives h (List.mem_eraseDups.1 ht)]
  · rfl

theorem mem_alternatives_unionOf (h : ∀ t ∈ ts, t.Flat) {u : TypeExpr} :
    u ∈ (unionOf ts).alternatives ↔ ∃ t ∈ ts, u ∈ t.alternatives := by
  rw [alternatives_unionOf h, List.mem_eraseDups, List.mem_flatMap]

theorem nodup_alternatives_unionOf (h : ∀ t ∈ ts, t.Flat) : (unionOf ts).alternatives.Nodup := by
  rw [alternatives_unionOf h]
  exact FirstOccurrences.nodup_eraseDups _

theorem flat_kept : Kept Flat where
  primitive p := flat_of_alternatives rfl
  named {n args} _ := by
    unfold TypeExpr.named
    split <;> exact flat_of_alternatives rfl
  array _ := flat_of_alternatives rfl
  union h := fun _ hu => flat_alternatives h hu
  function _ _ := flat_of_alternatives rfl
  record _ := flat_of_alternatives rfl
  unionOf h := by
    intro u hu
    rw [alternatives_unionOf h, List.mem_eraseDups] at hu
    exact flat_alternatives h hu

end TypeExpr

namespace Member

def Accepts (m : Member) (count : Nat) : Prop :=
  count ≤ m.params.length ∧ ∀ p ∈ m.params.drop count, p.optional = true

/-- What a method returns; one that does not say returns anything. -/
def returned (m : Member) : TypeExpr := m.result.getD .any

structure Covers (signatures : List Member) (implementation : Option Member) (m : Member) :
    Prop where
  accepts : ∀ s ∈ signatures, ∀ count, s.Accepts count → m.Accepts count
  takes : ∀ s ∈ signatures, ∀ (i : Nat) (p : Param), s.params[i]? = some p →
    ∃ q : Param, m.params[i]? = some q ∧ p.type.alternatives ⊆ q.type.alternatives
  returns : ∀ s ∈ signatures, ∀ t, m.result = some t → s.returned.alternatives ⊆ t.alternatives
  silent : m.result = none ↔ ∀ s ∈ signatures, s.result = none
  taken : ∀ (i : Nat) (q : Param), m.params[i]? = some q → ∀ u ∈ q.type.alternatives,
    ∃ s ∈ signatures, ∃ p : Param, s.params[i]? = some p ∧ u ∈ p.type.alternatives
  gotBack : ∀ t, m.result = some t → ∀ u ∈ t.alternatives,
    ∃ s ∈ signatures, u ∈ s.returned.alternatives
  nodup : ∀ t ∈ m.types, t.alternatives.Nodup
  reaches : ∀ i, i < m.params.length ↔ ∃ s ∈ signatures, i < s.params.length
  optional : ∀ (i : Nat) (q : Param), m.params[i]? = some q → (q.optional = true
    ↔ ∃ s ∈ signatures, ∀ p : Param, s.params[i]? = some p → p.optional = true)
  named : ∀ (i : Nat) (q : Param), m.params[i]? = some q →
    some q.name = ((implementation.bind (·.params[i]?)).or
      (signatures.findSome? (·.params[i]?))).map (·.name)

variable {first : Member} {rest signatures : List Member} {implementation : Option Member} {i : Nat}

theorem optional_foldedParam : (foldedParam signatures implementation i).optional = true
    ↔ ∃ s ∈ signatures, ∀ p : Param, s.params[i]? = some p → p.optional = true := by
  simp only [foldedParam, Bool.or_eq_true, decide_eq_true_eq, List.any_eq_true,
    List.length_filterMap_lt_length_iff_exists, List.mem_filterMap]
  constructor
  · rintro (⟨s, hs, hnone⟩ | ⟨p, ⟨s, hs, hp⟩, hoptional⟩)
    · exact ⟨s, hs, fun p hp => by simp [hp] at hnone⟩
    · exact ⟨s, hs, fun q hq => Option.some.inj (hp.symm.trans hq) ▸ hoptional⟩
  · rintro ⟨s, hs, hall⟩
    cases hp : s.params[i]? with
    | none => exact .inl ⟨s, hs, by simp [hp]⟩
    | some p => exact .inr ⟨p, ⟨s, hs, hp⟩, hall p hp⟩

theorem lt_length_params_foldOverloads :
    i < (foldOverloads first rest implementation).params.length
      ↔ ∃ s ∈ first :: rest, i < s.params.length := by
  simp only [foldOverloads, List.length_map, List.length_range, lt_foldl_max, List.mem_map,
    Nat.not_lt_zero, false_or]
  constructor
  · rintro ⟨_, ⟨s, hs, rfl⟩, hi⟩
    exact ⟨s, hs, hi⟩
  · rintro ⟨s, hs, hi⟩
    exact ⟨_, ⟨s, hs, rfl⟩, hi⟩

theorem param_foldOverloads {q : Param}
    (hq : (foldOverloads first rest implementation).params[i]? = some q) :
    q = foldedParam (first :: rest) implementation i := by
  obtain ⟨hi, rfl⟩ := List.getElem?_eq_some_iff.1 hq
  simp [foldOverloads]

theorem exists_param_foldOverloads {s : Member} (hs : s ∈ first :: rest)
    (hi : i < s.params.length) : (foldOverloads first rest implementation).params[i]?
      = some (foldedParam (first :: rest) implementation i) := by
  have hlength : i < (foldOverloads first rest implementation).params.length :=
    lt_length_params_foldOverloads.2 ⟨s, hs, hi⟩
  rw [List.getElem?_eq_getElem hlength]
  exact congrArg some (param_foldOverloads (List.getElem?_eq_getElem hlength))

theorem accepts_foldOverloads {s : Member} (hs : s ∈ first :: rest) {count : Nat}
    (h : s.Accepts count) : (foldOverloads first rest implementation).Accepts count := by
  obtain ⟨hcount, hoptional⟩ := h
  constructor
  · refine Nat.le_of_not_lt fun hless => ?_
    exact Nat.lt_irrefl _ (lt_length_params_foldOverloads.2 ⟨s, hs, Nat.lt_of_lt_of_le hless hcount⟩)
  · intro q hq
    obtain ⟨j, hj⟩ := List.mem_iff_getElem?.1 hq
    rw [List.getElem?_drop] at hj
    rw [param_foldOverloads hj, optional_foldedParam]
    refine ⟨s, hs, fun p hp => hoptional p ?_⟩
    exact List.mem_iff_getElem?.2 ⟨j, by rw [List.getElem?_drop, hp]⟩

theorem name_foldedParam {s : Member} (hs : s ∈ signatures) (hi : i < s.params.length) :
    some (foldedParam signatures implementation i).name
      = ((implementation.bind (·.params[i]?)).or
          (signatures.findSome? (·.params[i]?))).map (·.name) := by
  have hfound : (signatures.findSome? (·.params[i]?)).isSome :=
    List.findSome?_isSome_iff.2 ⟨s, hs, by simpa using hi⟩
  obtain ⟨p, hp⟩ := Option.isSome_iff_exists.1 hfound
  simp only [foldedParam, List.head?_filterMap, hp]
  cases implementation.bind (·.params[i]?) with
  | none => rfl
  | some q => rfl

theorem flat_returned {m : Member} (h : m.Has TypeExpr.Flat) : m.returned.Flat := by
  unfold returned
  cases hresult : m.result with
  | none => exact TypeExpr.flat_of_alternatives rfl
  | some t => exact h.result hresult

theorem result_foldOverloads {t : TypeExpr}
    (ht : (foldOverloads first rest implementation).result = some t) :
    t = TypeExpr.unionOf ((first :: rest).map returned) := by
  have ht : foldedResult (first :: rest) = some t := ht
  unfold foldedResult at ht
  split at ht
  · cases ht
  · exact (Option.some.inj ht).symm

variable {u : TypeExpr}

theorem mem_alternatives_foldedParam (h : ∀ s ∈ signatures, s.Has TypeExpr.Flat) :
    u ∈ (foldedParam signatures implementation i).type.alternatives
      ↔ ∃ s ∈ signatures, ∃ p : Param, s.params[i]? = some p ∧ u ∈ p.type.alternatives := by
  unfold foldedParam
  rw [TypeExpr.mem_alternatives_unionOf]
  · simp only [List.mem_map, List.mem_filterMap]
    constructor
    · rintro ⟨_, ⟨p, ⟨s, hs, hp⟩, rfl⟩, hu⟩
      exact ⟨s, hs, p, hp, hu⟩
    · rintro ⟨s, hs, p, hp, hu⟩
      exact ⟨_, ⟨p, ⟨s, hs, hp⟩, rfl⟩, hu⟩
  · intro t ht
    obtain ⟨p, hp, rfl⟩ := List.mem_map.1 ht
    obtain ⟨s, hs, hp⟩ := List.mem_filterMap.1 hp
    exact (h s hs).param (List.mem_of_getElem? hp)

theorem mem_alternatives_returned (h : ∀ s ∈ signatures, s.Has TypeExpr.Flat) :
    u ∈ (TypeExpr.unionOf (signatures.map returned)).alternatives
      ↔ ∃ s ∈ signatures, u ∈ s.returned.alternatives := by
  rw [TypeExpr.mem_alternatives_unionOf]
  · simp only [List.mem_map, exists_exists_and_eq_and]
  · exact List.forall_mem_map.2 fun s hs => flat_returned (h s hs)

theorem covers_foldOverloads (h : ∀ s ∈ first :: rest, s.Has TypeExpr.Flat)
    (implementation : Option Member) :
    Covers (first :: rest) implementation (foldOverloads first rest implementation) where
  accepts s hs count := accepts_foldOverloads hs
  takes s hs i p hp := by
    refine ⟨_, exists_param_foldOverloads hs (List.getElem?_eq_some_iff.1 hp).1, fun u hu => ?_⟩
    exact (mem_alternatives_foldedParam h).2 ⟨s, hs, p, hp, hu⟩
  returns s hs t ht u hu := by
    rw [result_foldOverloads ht]
    exact (mem_alternatives_returned h).2 ⟨s, hs, hu⟩
  silent := by simp [foldOverloads, foldedResult]
  taken i q hq u hu := by
    rw [param_foldOverloads hq] at hu
    exact (mem_alternatives_foldedParam h).1 hu
  gotBack t ht u hu := by
    rw [result_foldOverloads ht] at hu
    exact (mem_alternatives_returned h).1 hu
  nodup t ht := by
    rcases List.mem_append.1 ht with ht | ht
    · obtain ⟨q, hq, rfl⟩ := List.mem_map.1 ht
      obtain ⟨i, hi⟩ := List.mem_iff_getElem?.1 hq
      rw [param_foldOverloads hi]
      refine TypeExpr.nodup_alternatives_unionOf fun t ht => ?_
      obtain ⟨p, hp, rfl⟩ := List.mem_map.1 ht
      obtain ⟨s, hs, hp⟩ := List.mem_filterMap.1 hp
      exact (h s hs).param (List.mem_of_getElem? hp)
    · rw [result_foldOverloads (Option.mem_toList.1 ht)]
      exact TypeExpr.nodup_alternatives_unionOf
        (List.forall_mem_map.2 fun s hs => flat_returned (h s hs))
  reaches i := lt_length_params_foldOverloads
  optional i q hq := by
    rw [param_foldOverloads hq]
    exact optional_foldedParam
  named i q hq := by
    obtain ⟨s, hs, hi⟩ := lt_length_params_foldOverloads.1 (List.getElem?_eq_some_iff.1 hq).1
    rw [param_foldOverloads hq]
    exact name_foldedParam hs hi

end Member

end ElementBridge
