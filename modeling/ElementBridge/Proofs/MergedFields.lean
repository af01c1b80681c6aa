import ElementBridge.Bridge.Types
import ElementBridge.Proofs.FirstOccurrences

namespace ElementBridge.Surface

def fieldNames (fields : List Field) : List String := fields.map (·.name)

def lastField? (fields : List Field) (name : String) : Option Field :=
  fields.reverse.find? (·.name == name)

variable {fields more : List Field} {f : Field} {name : String}

theorem mergeFields_append (fields more rest : List Field) :
    mergeFields fields (more ++ rest) = mergeFields (mergeFields fields more) rest :=
  List.foldl_append

theorem mergeFields_snoc (fields more : List Field) (f : Field) :
    mergeFields fields (more ++ [f]) = mergeField (mergeFields fields more) f :=
  mergeFields_append fields more [f]

theorem fieldNames_mergeField (fields : List Field) (f : Field) : fieldNames (mergeField fields f)
    = if f.name ∈ fieldNames fields then fieldNames fields else fieldNames fields ++ [f.name] := by
  induction fields with
  | nil => rfl
  | cons g rest ih =>
      unfold fieldNames at ih ⊢
      by_cases hg : g.name = f.name
      · simp [mergeField, hg]
      · rw [mergeField, if_neg hg, List.map_cons, ih]
        by_cases hrest : f.name ∈ rest.map (·.name)
        · simp only [List.map_cons, List.mem_cons, hrest, or_true, if_true]
        · have hnew : ¬ f.name ∈ (g :: rest).map (·.name) := by
            rw [List.map_cons, List.mem_cons]
            exact fun h => h.elim (fun h => hg h.symm) hrest
          rw [if_neg hrest, if_neg hnew]
          rfl

theorem fieldNames_mergeFields (hfields : (fieldNames fields).Nodup) (more : List Field) :
    fieldNames (mergeFields fields more) = (fieldNames fields ++ fieldNames more).eraseDups := by
  induction more using List.reverseRecOn with
  | nil =>
      have hnone : fieldNames fields ++ fieldNames [] = fieldNames fields := List.append_nil _
      rw [hnone, FirstOccurrences.eraseDups_of_nodup hfields]
      rfl
  | append_singleton more f ih =>
      have hmore : fieldNames (more ++ [f]) = fieldNames more ++ [f.name] := by simp [fieldNames]
      rw [mergeFields_snoc, fieldNames_mergeField, ih, hmore, ← List.append_assoc,
        FirstOccurrences.eraseDups_snoc]
      simp only [List.mem_eraseDups, List.contains_iff_mem]

theorem nodup_mergeFields (hfields : (fieldNames fields).Nodup) (more : List Field) :
    (fieldNames (mergeFields fields more)).Nodup := by
  rw [fieldNames_mergeFields hfields]
  exact FirstOccurrences.nodup_eraseDups _

theorem find?_mergeField (fields : List Field) (f : Field) (name : String) :
    (mergeField fields f).find? (·.name == name)
      = if f.name = name then some f else fields.find? (·.name == name) := by
  have hcons : ∀ g : Field, ∀ rest : List Field, (g :: rest).find? (·.name == name)
      = if g.name = name then some g else rest.find? (·.name == name) := by
    intro g rest
    by_cases hg : g.name = name
    · rw [if_pos hg]
      exact List.find?_cons_of_pos (by simpa using hg)
    · rw [if_neg hg]
      exact List.find?_cons_of_neg (by simpa using hg)
  induction fields with
  | nil => exact hcons f []
  | cons g rest ih =>
      unfold mergeField
      split
      · next hg =>
          rw [hcons, hcons]
          by_cases hf : f.name = name
          · rw [if_pos hf, if_pos hf]
          · rw [if_neg hf, if_neg hf, if_neg fun h => hf (hg.symm.trans h)]
      · next hg =>
          rw [hcons, hcons, ih]
          by_cases hf : f.name = name
          · rw [if_pos hf, if_pos hf, if_neg fun h => hg (h.trans hf.symm)]
          · rw [if_neg hf, if_neg hf]

theorem find?_mergeFields (fields more : List Field) (name : String) :
    (mergeFields fields more).find? (·.name == name)
      = (lastField? more name).or (fields.find? (·.name == name)) := by
  induction more using List.reverseRecOn with
  | nil => simp [mergeFields, lastField?]
  | append_singleton more f ih =>
      rw [mergeFields_snoc, find?_mergeField, ih]
      by_cases hf : f.name = name <;> simp [lastField?, hf]

theorem find?_of_mem (h : (fieldNames fields).Nodup) (hf : f ∈ fields) :
    fields.find? (·.name == f.name) = some f := by
  induction fields with
  | nil => exact absurd hf List.not_mem_nil
  | cons g rest ih =>
      obtain ⟨hg, hrest⟩ := List.nodup_cons.1 h
      rcases List.mem_cons.1 hf with rfl | hf
      · simp
      · have hne : g.name ≠ f.name := fun heq => hg (List.mem_map.2 ⟨f, hf, heq.symm⟩)
        rw [List.find?_cons, beq_false_of_ne hne]
        exact ih hrest hf

theorem eq_of_find? (h : (fieldNames fields).Nodup) (hnames : fieldNames more = fieldNames fields)
    (hfind : ∀ name, more.find? (·.name == name) = fields.find? (·.name == name)) :
    more = fields := by
  refine List.ext_getElem (by simpa [fieldNames] using congrArg List.length hnames) ?_
  intro i hi hj
  have hname : more[i].name = fields[i].name := by
    have := congrArg (·[i]?) hnames
    simpa [fieldNames, hi, hj] using this
  have hmore : more.find? (·.name == more[i].name) = some more[i] :=
    find?_of_mem (hnames ▸ h) (List.getElem_mem hi)
  have hfields : fields.find? (·.name == fields[i].name) = some fields[i] :=
    find?_of_mem h (List.getElem_mem hj)
  rw [hfind, hname, hfields] at hmore
  exact (Option.some.inj hmore).symm

theorem lastField?_append (fields more : List Field) (name : String) :
    lastField? (fields ++ more) name = (lastField? more name).or (lastField? fields name) := by
  rw [lastField?, List.reverse_append, List.find?_append]
  rfl

theorem lastField?_eq_none : lastField? fields name = none ↔ name ∉ fieldNames fields := by
  simp [lastField?, fieldNames]

theorem exists_last_of_flatMap {ds : List Interface}
    (h : lastField? (ds.flatMap ownFields) name = some f) : ∃ before d after,
      ds = before ++ d :: after ∧ lastField? (ownFields d) name = some f ∧
        ∀ e ∈ after, name ∉ fieldNames (ownFields e) := by
  induction ds with
  | nil => cases h
  | cons d ds ih =>
      rw [List.flatMap_cons, lastField?_append] at h
      cases hlater : lastField? (ds.flatMap ownFields) name with
      | some g =>
          rw [hlater, Option.some_or] at h
          obtain ⟨before, e, after, hds, he, hafter⟩ := ih (hlater.trans h)
          exact ⟨d :: before, e, after, by rw [hds, List.cons_append], he, hafter⟩
      | none =>
          rw [hlater, Option.none_or] at h
          refine ⟨[], d, ds, rfl, h, fun e he hname => lastField?_eq_none.1 hlater ?_⟩
          obtain ⟨g, hg, hname⟩ := List.mem_map.1 hname
          exact List.mem_map.2 ⟨g, List.mem_flatMap.2 ⟨e, he, hg⟩, hname⟩

theorem lastField?_of_nodup (h : (fieldNames fields).Nodup) (name : String) :
    lastField? fields name = fields.find? (·.name == name) := by
  have hreverse : (fieldNames fields.reverse).Nodup := by
    rw [fieldNames, List.map_reverse]
    exact List.nodup_reverse.2 h
  cases hfind : fields.find? (·.name == name) with
  | none => simpa [lastField?] using hfind
  | some f =>
      obtain rfl : f.name = name := by simpa using List.find?_some hfind
      exact find?_of_mem hreverse (List.mem_reverse.2 (List.mem_of_find?_eq_some hfind))

theorem mergeFields_mergeFields (hfields : (fieldNames fields).Nodup) (more : List Field) :
    mergeFields fields (mergeFields [] more) = mergeFields fields more := by
  have hnil : (fieldNames []).Nodup := List.nodup_nil
  have hmerged : (fieldNames (mergeFields [] more)).Nodup := nodup_mergeFields hnil more
  refine eq_of_find? (nodup_mergeFields hfields more) ?_ fun name => ?_
  · rw [fieldNames_mergeFields hfields, fieldNames_mergeFields hfields,
      fieldNames_mergeFields hnil]
    exact FirstOccurrences.eraseDups_append_eraseDups _ _
  · rw [find?_mergeFields, find?_mergeFields, lastField?_of_nodup hmerged, find?_mergeFields]
    simp

end ElementBridge.Surface
