import Mathlib.Data.List.Induction
import Mathlib.Data.List.Nodup

namespace ElementBridge.FirstOccurrences

variable {α : Type} [BEq α] [LawfulBEq α]

theorem eraseDups_snoc (l : List α) (a : α) :
    (l ++ [a]).eraseDups = if l.contains a then l.eraseDups else l.eraseDups ++ [a] := by
  have hone : [a].removeAll l = if l.contains a then [] else [a] := by
    cases h : l.contains a with
    | true => simp only [List.removeAll, List.filter_cons, List.elem_eq_contains, h]; rfl
    | false => simp only [List.removeAll, List.filter_cons, List.elem_eq_contains, h]; rfl
  rw [List.eraseDups_append, hone]
  split
  · simp
  · simp [List.eraseDups_cons]

theorem nodup_eraseDups (l : List α) : l.eraseDups.Nodup := by
  induction l using List.reverseRecOn with
  | nil => simp
  | append_singleton l a ih =>
      rw [eraseDups_snoc]
      split
      · exact ih
      · next ha =>
          refine ih.append (List.nodup_singleton a) (List.disjoint_singleton.2 fun h => ha ?_)
          exact List.contains_iff_mem.2 (List.mem_eraseDups.1 h)

theorem eraseDups_of_nodup {l : List α} (h : l.Nodup) : l.eraseDups = l := by
  induction l using List.reverseRecOn with
  | nil => simp
  | append_singleton l a ih =>
      obtain ⟨hl, -, ha⟩ := List.nodup_append.1 h
      have hnew : ¬ l.contains a = true := fun hmem =>
        ha a (List.contains_iff_mem.1 hmem) a (List.mem_singleton_self a) rfl
      rw [eraseDups_snoc, if_neg hnew, ih hl]

theorem eraseDups_append_eraseDups (l more : List α) :
    (l ++ more.eraseDups).eraseDups = (l ++ more).eraseDups := by
  induction more using List.reverseRecOn with
  | nil => simp
  | append_singleton more a ih =>
      rw [eraseDups_snoc more, ← List.append_assoc l more, eraseDups_snoc (l ++ more), ← ih]
      cases hmore : more.contains a with
      | true =>
          have hboth : (l ++ more).contains a = true := by
            rw [List.contains_append, hmore, Bool.or_true]
          rw [if_pos rfl, if_pos hboth]
      | false =>
          have hboth : (l ++ more).contains a = (l ++ more.eraseDups).contains a := by
            rw [Bool.eq_iff_iff, List.contains_iff_mem, List.contains_iff_mem, List.mem_append,
              List.mem_append, List.mem_eraseDups]
          rw [if_neg Bool.false_ne_true, ← List.append_assoc, eraseDups_snoc, hboth]

theorem eraseDups_append_cons {l : List α} {a : α} (ha : a ∉ l) (more : List α) :
    (l ++ a :: more).eraseDups
      = l.eraseDups ++ a :: (more.filter fun x => !(x == a) && !l.contains x).eraseDups := by
  have hrest : (a :: more).removeAll l = a :: more.removeAll l := by
    rw [List.removeAll, List.filter_cons_of_pos (by simpa using ha)]
    rfl
  rw [List.eraseDups_append, hrest, List.eraseDups_cons, List.removeAll, List.filter_filter]

theorem eraseDups_absorb {l more : List α} (h : ∀ a ∈ more, a ∈ l) (rest : List α) :
    (l ++ (more ++ rest)).eraseDups = (l ++ rest).eraseDups := by
  have hnone : (more ++ rest).removeAll l = rest.removeAll l := by
    have hmore : more.filter (fun a => !l.elem a) = [] := by simpa using h
    rw [List.removeAll, List.removeAll, List.filter_append, hmore, List.nil_append]
  rw [List.eraseDups_append, hnone, ← List.eraseDups_append]

theorem eraseDups_flatMap_eraseDups {β : Type} [BEq β] [LawfulBEq β] (l : List β) (g : β → List α)
    (rest : List α) :
    (l.eraseDups.flatMap g ++ rest).eraseDups = (l.flatMap g ++ rest).eraseDups := by
  induction l using List.reverseRecOn generalizing rest with
  | nil => simp
  | append_singleton l b ih =>
      have hlast : (l ++ [b]).flatMap g ++ rest = l.flatMap g ++ (g b ++ rest) := by simp
      rw [eraseDups_snoc, hlast]
      split
      · next hb =>
          rw [ih, eraseDups_absorb]
          exact fun a ha => List.mem_flatMap.2 ⟨b, List.contains_iff_mem.1 hb, ha⟩
      · rw [List.flatMap_append, List.flatMap_cons, List.flatMap_nil, List.append_nil,
          List.append_assoc, ih]

end ElementBridge.FirstOccurrences
