import Mathlib.Logic.Relation
import ElementBridge.Proofs.EmittedTypes
import ElementBridge.Proofs.MergedFields

namespace ElementBridge.Surface

variable {s : Surface}

def Extends (s : Surface) (j k : Interface) : Prop :=
  ∃ base ∈ j.bases, s.interface? base = some k

theorem inherits_iff {d e : Interface} :
    s.Inherits d e ↔ Relation.ReflTransGen s.Extends d e := by
  constructor
  · intro h
    induction h with
    | self d => exact .refl
    | base hbase hb _ ih => exact .head ⟨_, hbase, hb⟩ ih
  · intro h
    induction h using Relation.ReflTransGen.head_induction_on with
    | refl => exact .self e
    | head hstep _ ih =>
        obtain ⟨base, hbase, hb⟩ := hstep
        exact .base hbase hb ih

theorem interface?_self {name : String} {b : Interface} (hb : s.interface? name = some b) :
    s.interface? b.name = some b := by rwa [interface?_name hb]

/-! ### The walk through the bases -/

def unmet (s : Surface) (met : List String) : List Interface :=
  s.interfaces.filter fun e => !met.contains e.name

theorem mem_unmet {met : List String} {e : Interface} :
    e ∈ s.unmet met ↔ e ∈ s.interfaces ∧ e.name ∉ met := by
  simp [unmet]

theorem length_unmet_mono {met met' : List String} (h : ∀ x ∈ met, x ∈ met') :
    (s.unmet met').length ≤ (s.unmet met).length := by
  unfold unmet
  rw [← List.countP_eq_length_filter, ← List.countP_eq_length_filter]
  refine List.countP_mono_left fun e _ he => ?_
  simp only [Bool.not_eq_true', List.contains_eq_mem, decide_eq_false_iff_not] at he ⊢
  exact fun hmem => he (h _ hmem)

theorem length_unmet_cons {met : List String} {b : Interface} (hb : b ∈ s.interfaces)
    (hnew : b.name ∉ met) : (s.unmet (b.name :: met)).length < (s.unmet met).length := by
  have hfilter : s.unmet (b.name :: met) = (s.unmet met).filter fun e => !(e.name == b.name) := by
    rw [unmet, unmet, List.filter_filter]
    refine List.filter_congr fun e _ => ?_
    rw [List.contains_cons, Bool.not_or]
  rw [hfilter]
  exact List.length_filter_lt_length_iff_exists.2 ⟨b, mem_unmet.2 ⟨hb, hnew⟩, by simp⟩

/-- A walk through bases: the interfaces that it takes, each behind those that it takes for its own
bases, and the names that it has met in the end. -/
inductive Gathers (s : Surface) :
    List String → List String → List Interface → List String → Prop where
  | done (met : List String) : Gathers s met [] [] met
  | absent {met bases met' : List String} {base : String} {taken : List Interface} :
      s.interface? base = none → Gathers s met bases taken met' →
      Gathers s met (base :: bases) taken met'
  | again {met bases met' : List String} {base : String} {b : Interface} {taken : List Interface} :
      s.interface? base = some b → b.name ∈ met → Gathers s met bases taken met' →
      Gathers s met (base :: bases) taken met'
  | fresh {met bases mid met' : List String} {base : String} {b : Interface}
      {inner taken : List Interface} :
      s.interface? base = some b → b.name ∉ met → Gathers s (b.name :: met) b.bases inner mid →
      Gathers s mid bases taken met' → Gathers s met (base :: bases) (inner ++ b :: taken) met'

namespace Gathers

variable {met met' bases : List String} {taken : List Interface}

theorem mem_met_iff (h : s.Gathers met bases taken met') (name : String) :
    name ∈ met' ↔ name ∈ met ∨ ∃ e ∈ taken, e.name = name := by
  induction h with
  | done met => simp
  | absent _ _ ih => exact ih
  | again _ _ _ ih => exact ih
  | @fresh met bases mid met' base b inner taken _ _ _ _ ihInner ih =>
      simp only [ih, ihInner, List.mem_cons, List.mem_append, or_and_right, exists_or,
        exists_eq_left, @eq_comm _ name b.name]
      grind

theorem mem_of_met (h : s.Gathers met bases taken met') {name : String} (hname : name ∈ met) :
    name ∈ met' := (h.mem_met_iff name).2 (.inl hname)

theorem mem_of_taken (h : s.Gathers met bases taken met') {e : Interface} (he : e ∈ taken) :
    e.name ∈ met' := (h.mem_met_iff e.name).2 (.inr ⟨e, he, rfl⟩)

theorem first (h : s.Gathers met bases taken met') : ∀ e ∈ taken, s.interface? e.name = some e := by
  induction h with
  | done met => exact fun _ he => absurd he List.not_mem_nil
  | absent _ _ ih => exact ih
  | again _ _ _ ih => exact ih
  | fresh hb _ _ _ ihInner ih =>
      intro e he
      rcases List.mem_append.1 he with he | he
      · exact ihInner e he
      · rcases List.mem_cons.1 he with rfl | he
        · exact interface?_self hb
        · exact ih e he

theorem inherited (h : s.Gathers met bases taken met') :
    ∀ e ∈ taken, ∃ base ∈ bases, ∃ b, s.interface? base = some b ∧ s.Inherits b e := by
  induction h with
  | done met => exact fun _ he => absurd he List.not_mem_nil
  | absent _ _ ih =>
      intro e he
      obtain ⟨base, hbase, hreach⟩ := ih e he
      exact ⟨base, List.mem_cons_of_mem _ hbase, hreach⟩
  | again _ _ _ ih =>
      intro e he
      obtain ⟨base, hbase, hreach⟩ := ih e he
      exact ⟨base, List.mem_cons_of_mem _ hbase, hreach⟩
  | @fresh _ _ _ _ base b _ _ hb _ _ _ ihInner ih =>
      intro e he
      rcases List.mem_append.1 he with he | he
      · obtain ⟨inner, hinner, c, hc, hreach⟩ := ihInner e he
        exact ⟨base, List.mem_cons_self, b, hb, .base hinner hc hreach⟩
      · rcases List.mem_cons.1 he with rfl | he
        · exact ⟨base, List.mem_cons_self, e, hb, .self e⟩
        · obtain ⟨base, hbase, hreach⟩ := ih e he
          exact ⟨base, List.mem_cons_of_mem _ hbase, hreach⟩

theorem meets_bases (h : s.Gathers met bases taken met') {base : String} {b : Interface}
    (hbase : base ∈ bases) (hb : s.interface? base = some b) : b.name ∈ met' := by
  induction h with
  | done met => exact absurd hbase List.not_mem_nil
  | absent hnone _ ih =>
      rcases List.mem_cons.1 hbase with rfl | hbase
      · rw [hnone] at hb
        cases hb
      · exact ih hbase
  | again hb' hmem hrest ih =>
      rcases List.mem_cons.1 hbase with rfl | hbase
      · obtain rfl := Option.some.inj (hb'.symm.trans hb)
        exact hrest.mem_of_met hmem
      · exact ih hbase
  | fresh hb' _ hinner hrest _ ih =>
      rcases List.mem_cons.1 hbase with rfl | hbase
      · obtain rfl := Option.some.inj (hb'.symm.trans hb)
        exact hrest.mem_of_met (hinner.mem_of_met List.mem_cons_self)
      · exact ih hbase

theorem meets_extended (h : s.Gathers met bases taken met') :
    ∀ e ∈ taken, ∀ b, s.Extends e b → b.name ∈ met' := by
  induction h with
  | done met => exact fun _ he => absurd he List.not_mem_nil
  | absent _ _ ih => exact ih
  | again _ _ _ ih => exact ih
  | fresh _ _ hinner hrest ihInner ih =>
      intro e he b hstep
      rcases List.mem_append.1 he with he | he
      · exact hrest.mem_of_met (ihInner e he b hstep)
      · rcases List.mem_cons.1 he with rfl | he
        · obtain ⟨base, hbase, hb⟩ := hstep
          exact hrest.mem_of_met (hinner.meets_bases hbase hb)
        · exact ih e he b hstep

theorem unmet_before (h : s.Gathers met bases taken met') : ∀ e ∈ taken, e.name ∉ met := by
  induction h with
  | done met => exact fun _ he => absurd he List.not_mem_nil
  | absent _ _ ih => exact ih
  | again _ _ _ ih => exact ih
  | fresh _ hnew hinner _ ihInner ih =>
      intro e he hmem
      rcases List.mem_append.1 he with he | he
      · exact ihInner e he (List.mem_cons_of_mem _ hmem)
      · rcases List.mem_cons.1 he with rfl | he
        · exact hnew hmem
        · exact ih e he (hinner.mem_of_met (List.mem_cons_of_mem _ hmem))

theorem nodup (h : s.Gathers met bases taken met') : taken.Nodup := by
  induction h with
  | done met => exact List.nodup_nil
  | absent _ _ ih => exact ih
  | again _ _ _ ih => exact ih
  | fresh _ _ hinner hrest ihInner ih =>
      have hmid := hrest.unmet_before
      refine List.nodup_append'.2 ⟨ihInner, List.nodup_cons.2 ⟨fun he => ?_, ih⟩, fun e he he' => ?_⟩
      · exact hmid _ he (hinner.mem_of_met List.mem_cons_self)
      · rcases List.mem_cons.1 he' with rfl | he'
        · exact hinner.unmet_before e he List.mem_cons_self
        · exact hmid e he' (hinner.mem_of_taken he)

theorem pairwise (h : s.Gathers met bases taken met') :
    taken.Pairwise fun x y => s.Extends x y → s.Inherits y x := by
  induction h with
  | done met => exact .nil
  | absent _ _ ih => exact ih
  | again _ _ _ ih => exact ih
  | fresh _ _ hinner hrest ihInner ih =>
      have hmid := hrest.unmet_before
      refine List.pairwise_append.2
        ⟨ihInner, List.pairwise_cons.2 ⟨fun y hy hstep => ?_, ih⟩, fun x hx y hy hstep => ?_⟩
      · obtain ⟨base, hbase, hb⟩ := hstep
        exact absurd (hinner.meets_bases hbase hb) (hmid y hy)
      · rcases List.mem_cons.1 hy with rfl | hy
        · obtain ⟨base, hbase, b, hb, hreach⟩ := hinner.inherited x hx
          exact .base hbase hb hreach
        · exact absurd (hinner.meets_extended x hx y hstep) (hmid y hy)

end Gathers

theorem exists_gathers (s : Surface) (met bases : List String) :
    ∃ taken met', s.Gathers met bases taken met' := by
  induction hroom : (s.unmet met).length using Nat.strongRecOn generalizing met bases with
  | ind room ih =>
      subst hroom
      -- The bases that remain are walked with no fewer names met.
      suffices hwalk : ∀ met' : List String, (∀ x ∈ met, x ∈ met') →
          ∃ taken met'', s.Gathers met' bases taken met'' from hwalk met fun _ hx => hx
      induction bases with
      | nil => exact fun met' _ => ⟨[], met', .done met'⟩
      | cons base bases ihBases =>
          intro met' hmet
          cases hb : s.interface? base with
          | none =>
              obtain ⟨taken, met'', htaken⟩ := ihBases met' hmet
              exact ⟨taken, met'', .absent hb htaken⟩
          | some b =>
              by_cases hnew : b.name ∈ met'
              · obtain ⟨taken, met'', htaken⟩ := ihBases met' hmet
                exact ⟨taken, met'', .again hb hnew htaken⟩
              · have hroom : (s.unmet (b.name :: met')).length < (s.unmet met).length :=
                  Nat.lt_of_lt_of_le (length_unmet_cons (List.mem_of_find?_eq_some hb) hnew)
                    (length_unmet_mono hmet)
                obtain ⟨inner, mid, hinner⟩ := ih _ hroom (b.name :: met') b.bases rfl
                have hmid : ∀ x ∈ met, x ∈ mid := fun x hx =>
                  hinner.mem_of_met (List.mem_cons_of_mem _ (hmet x hx))
                obtain ⟨taken, met'', htaken⟩ := ihBases mid hmid
                exact ⟨inner ++ b :: taken, met'', .fresh hb hnew hinner htaken⟩

/-! ### The walk as it is run -/

theorem flattenFrom_of_mem {visited : List String} {d : Interface} (h : d.name ∈ visited)
    (depth : Nat) : s.flattenFrom depth visited d = ([], visited) := by
  cases depth with
  | zero => rfl
  | succ depth => rw [flattenFrom, if_pos (List.contains_iff_mem.2 h)]

def inheritFrom (s : Surface) (depth : Nat) (found : List Field × List String) (base : String) :
    List Field × List String :=
  match s.interface? base with
  | none => found
  | some b =>
      (mergeFields found.1 (s.flattenFrom depth found.2 b).1, (s.flattenFrom depth found.2 b).2)

theorem flattenFrom_succ {visited : List String} {d : Interface} (h : d.name ∉ visited)
    (depth : Nat) : s.flattenFrom (depth + 1) visited d
      = (mergeFields (d.bases.foldl (s.inheritFrom depth) ([], d.name :: visited)).1 (ownFields d),
          (d.bases.foldl (s.inheritFrom depth) ([], d.name :: visited)).2) := by
  rw [flattenFrom, if_neg fun hmem => h (List.contains_iff_mem.1 hmem)]
  rfl

/-- With room for every name that is still to be met, the bases give the fields of the interfaces
that are taken, in the order in which they are taken. -/
theorem Gathers.foldl_inheritFrom {met met' bases : List String} {taken : List Interface}
    (h : s.Gathers met bases taken met') {depth : Nat} (hroom : (s.unmet met).length ≤ depth)
    {fields : List Field} (hfields : (fieldNames fields).Nodup) :
    bases.foldl (s.inheritFrom depth) (fields, met)
      = (mergeFields fields (taken.flatMap ownFields), met') := by
  induction h generalizing depth fields with
  | done met => rfl
  | absent hnone _ ih =>
      rw [List.foldl_cons, inheritFrom, hnone]
      exact ih hroom hfields
  | again hb hmem _ ih =>
      rw [List.foldl_cons, inheritFrom, hb]
      simp only [flattenFrom_of_mem hmem]
      exact ih hroom hfields
  | @fresh met bases mid met' base b inner taken hb hnew hinner _ ihInner ih =>
      have hless := length_unmet_cons (List.mem_of_find?_eq_some hb) hnew
      have hnil : (fieldNames []).Nodup := List.nodup_nil
      obtain ⟨depth, rfl⟩ : ∃ k, depth = k + 1 := ⟨depth - 1, by omega⟩
      have hflat : s.flattenFrom (depth + 1) met b
          = (mergeFields [] (inner.flatMap ownFields ++ ownFields b), mid) := by
        rw [flattenFrom_succ hnew, ihInner (by omega) hnil, mergeFields_append]
      have hmid : (s.unmet mid).length ≤ (s.unmet met).length :=
        length_unmet_mono fun x hx => hinner.mem_of_met (List.mem_cons_of_mem _ hx)
      rw [List.foldl_cons, inheritFrom, hb]
      simp only [hflat]
      rw [mergeFields_mergeFields hfields, ih (Nat.le_trans hmid hroom) (nodup_mergeFields hfields _),
        ← mergeFields_append, List.flatMap_append, List.flatMap_cons, List.append_assoc]

theorem Gathers.flattenFrom {met : List String} {d : Interface} {taken : List Interface}
    (h : s.Gathers [d.name] d.bases taken met) {depth : Nat}
    (hroom : (s.unmet [d.name]).length < depth) :
    s.flattenFrom depth [] d = (mergeFields [] ((taken ++ [d]).flatMap ownFields), met) := by
  obtain ⟨depth, rfl⟩ : ∃ k, depth = k + 1 := ⟨depth - 1, by omega⟩
  have hnil : (fieldNames []).Nodup := List.nodup_nil
  rw [flattenFrom_succ List.not_mem_nil, h.foldl_inheritFrom (by omega) hnil, ← mergeFields_append,
    List.flatMap_append, List.flatMap_cons, List.flatMap_nil, List.append_nil]

end ElementBridge.Surface
