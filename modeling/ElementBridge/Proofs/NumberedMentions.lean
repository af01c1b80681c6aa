import ElementBridge.Proofs.Reach

namespace ElementBridge

namespace Mention

variable {ds : List Interface} {seen : List String} {layer : List Mention}

def newTypes (ds : List Interface) (seen : List String) : List Mention → List Interface
  | [] => []
  | m :: rest =>
      match ds.find? (·.name == m.name) with
      | none => newTypes ds seen rest
      | some d =>
          if d.name ∈ seen then newTypes ds seen rest
          else d :: newTypes ds (seen ++ [d.name]) rest

def seenAfter (ds : List Interface) (seen : List String) (layer : List Mention) : List String :=
  seen ++ (newTypes ds seen layer).map (·.name)

def nextLayer (ds : List Interface) (seen : List String) (layer : List Mention) : List Mention :=
  (newTypes ds seen layer).flatMap ofInterface

def unseen (ds : List Interface) (seen : List String) : List Interface :=
  ds.filter fun d => d.name ∉ seen

theorem mem_newTypes {d : Interface} (h : d ∈ newTypes ds seen layer) :
    d ∈ ds ∧ d.name ∉ seen := by
  induction layer generalizing seen with
  | nil => exact absurd h List.not_mem_nil
  | cons m rest ih =>
      rw [newTypes] at h
      split at h
      · exact ih h
      · next d' hd =>
          split at h
          · exact ih h
          · next hseen =>
              rcases List.mem_cons.1 h with rfl | h
              · exact ⟨List.mem_of_find?_eq_some hd, hseen⟩
              · obtain ⟨hmem, hnew⟩ := ih h
                exact ⟨hmem, fun hs => hnew (List.mem_append_left _ hs)⟩

theorem length_unseen_lt (h : newTypes ds seen layer ≠ []) :
    (unseen ds (seenAfter ds seen layer)).length < (unseen ds seen).length := by
  obtain ⟨d, rest, hd⟩ := List.exists_cons_of_ne_nil h
  obtain ⟨hmem, hnew⟩ := mem_newTypes (hd ▸ List.mem_cons_self : d ∈ newTypes ds seen layer)
  have hsub : (unseen ds (seenAfter ds seen layer)).Sublist (unseen ds seen) :=
    List.monotone_filter_right _ fun x hx => by
      simp only [seenAfter, decide_eq_true_eq, List.mem_append, not_or] at hx ⊢
      exact hx.1
  refine Nat.lt_of_le_of_ne hsub.length_le fun hlength => ?_
  have hd' : d ∈ unseen ds (seenAfter ds seen layer) := by
    rw [hsub.eq_of_length hlength]
    simpa [unseen] using ⟨hmem, hnew⟩
  simp [unseen, seenAfter, hd] at hd'

/-- A layer and behind it all that it leads to, when some types have been seen before. -/
def numberedFrom (ds : List Interface) (seen : List String) (layer : List Mention) :
    List Mention :=
  layer ++ if _ : newTypes ds seen layer = [] then []
    else numberedFrom ds (seenAfter ds seen layer) (nextLayer ds seen layer)
termination_by (unseen ds seen).length
decreasing_by exact length_unseen_lt ‹_›

theorem numberedFrom_nil (ds : List Interface) (seen : List String) :
    numberedFrom ds seen [] = [] := by
  rw [numberedFrom]
  simp [newTypes]

theorem numberedFrom_eq (ds : List Interface) (seen : List String) (layer : List Mention) :
    numberedFrom ds seen layer
      = layer ++ numberedFrom ds (seenAfter ds seen layer) (nextLayer ds seen layer) := by
  rw [numberedFrom]
  split
  · next h => rw [nextLayer, h, List.flatMap_nil, numberedFrom_nil]
  · rfl

theorem newTypes_append (ds : List Interface) (seen : List String) (a b : List Mention) :
    newTypes ds seen (a ++ b) = newTypes ds seen a ++ newTypes ds (seenAfter ds seen a) b := by
  induction a generalizing seen with
  | nil => simp [newTypes, seenAfter]
  | cons m rest ih =>
      simp only [List.cons_append, newTypes, seenAfter]
      split
      · exact ih seen
      · split
        · exact ih seen
        · rw [ih]
          simp [seenAfter]

theorem seenAfter_append (ds : List Interface) (seen : List String) (a b : List Mention) :
    seenAfter ds seen (a ++ b) = seenAfter ds (seenAfter ds seen a) b := by
  simp [seenAfter, newTypes_append]

theorem nextLayer_append (ds : List Interface) (seen : List String) (a b : List Mention) :
    nextLayer ds seen (a ++ b)
      = nextLayer ds seen a ++ nextLayer ds (seenAfter ds seen a) b := by
  simp [nextLayer, newTypes_append]

theorem numberedFrom_append (ds : List Interface) (seen : List String) (a b : List Mention) :
    numberedFrom ds seen (a ++ b)
      = a ++ numberedFrom ds (seenAfter ds seen a) (b ++ nextLayer ds seen a) := by
  by_cases hnew : newTypes ds seen a = []
  · rw [numberedFrom_eq, numberedFrom_eq ds (seenAfter ds seen a), nextLayer_append,
      seenAfter_append]
    simp [nextLayer, seenAfter, hnew]
  · have hlt := length_unseen_lt hnew
    have hrest := numberedFrom_append ds (seenAfter ds seen a) b (nextLayer ds seen a)
    rw [hrest, numberedFrom_eq, seenAfter_append, nextLayer_append, List.append_assoc]
termination_by (unseen ds seen).length

variable {m : Mention} {d : Interface}

theorem numberedFrom_seen (seen : List String) (rest : List Mention)
    (h : ∀ d, ds.find? (·.name == m.name) = some d → d.name ∈ seen) :
    numberedFrom ds seen (m :: rest) = m :: numberedFrom ds seen rest := by
  have hnew : newTypes ds seen [m] = [] := by
    rw [newTypes]
    split
    · rfl
    · next d hd => rw [if_pos (h d hd), newTypes]
  rw [← List.singleton_append, numberedFrom_append]
  simp [seenAfter, nextLayer, hnew]

theorem numberedFrom_new (rest : List Mention) (hd : ds.find? (·.name == m.name) = some d)
    (h : d.name ∉ seen) :
    numberedFrom ds seen (m :: rest)
      = m :: numberedFrom ds (seen ++ [d.name]) (rest ++ ofInterface d) := by
  have hnew : newTypes ds seen [m] = [d] := by simp [newTypes, hd, h]
  rw [← List.singleton_append, numberedFrom_append]
  simp [seenAfter, nextLayer, hnew]

end Mention

def Surface.numbered (s : Surface) : List Mention :=
  Mention.numberedFrom s.interfaces [] s.mentions

/-- Where a mention stands: in a public member, in the constructor, in the bases of a local type, in
a field of one or in an alias. -/
inductive Surface.Mentioned (s : Surface) : Mention → Prop where
  | member {m : Member} {type : TypeExpr} {name : String} (hm : m ∈ s.members)
      (ht : type ∈ m.types) (hn : name ∈ type.references) : Mentioned s ⟨name, m.name⟩
  | constructor {p : Param} {name : String} (hp : p ∈ s.component.params)
      (hn : name ∈ p.type.references) : Mentioned s ⟨name, "constructor"⟩
  | base {d : Interface} {base : String} (hd : d ∈ s.interfaces) (hb : base ∈ d.bases) :
      Mentioned s ⟨base, d.name⟩
  | field {d : Interface} {fields : List Field} {f : Field} {name : String}
      (hd : d ∈ s.interfaces) (hs : d.shape = .record fields) (hf : f ∈ fields)
      (hn : name ∈ f.type.references) : Mentioned s ⟨name, d.name ++ "." ++ f.name⟩
  | alias {d : Interface} {type : TypeExpr} {name : String} (hd : d ∈ s.interfaces)
      (hs : d.shape = .alias type) (hn : name ∈ type.references) : Mentioned s ⟨name, d.name⟩

namespace Surface

variable {s : Surface} {m : Mention}

theorem Mentioned.of_mentions (h : m ∈ s.mentions) : s.Mentioned m := by
  rcases List.mem_append.1 h with h | h
  · obtain ⟨member, hm, h⟩ := List.mem_flatMap.1 h
    obtain ⟨type, ht, h⟩ := List.mem_flatMap.1 h
    obtain ⟨name, hn, rfl⟩ := List.mem_map.1 h
    exact .member hm ht hn
  · obtain ⟨p, hp, h⟩ := List.mem_flatMap.1 h
    obtain ⟨name, hn, rfl⟩ := List.mem_map.1 h
    exact .constructor hp hn

theorem Mentioned.of_interface {d : Interface} (hd : d ∈ s.interfaces)
    (h : m ∈ Mention.ofInterface d) : s.Mentioned m := by
  rcases List.mem_append.1 h with h | h
  · obtain ⟨base, hb, rfl⟩ := List.mem_map.1 h
    exact .base hd hb
  · cases hs : d.shape with
    | record fields =>
        rw [hs] at h
        obtain ⟨f, hf, h⟩ := List.mem_flatMap.1 h
        obtain ⟨name, hn, rfl⟩ := List.mem_map.1 h
        exact .field hd hs hf hn
    | «alias» type =>
        rw [hs] at h
        obtain ⟨name, hn, rfl⟩ := List.mem_map.1 h
        exact .alias hd hs hn

theorem mentioned_of_numberedFrom {seen : List String} {layer : List Mention}
    (hlayer : ∀ m ∈ layer, s.Mentioned m) (h : m ∈ Mention.numberedFrom s.interfaces seen layer) :
    s.Mentioned m := by
  rw [Mention.numberedFrom] at h
  rcases List.mem_append.1 h with h | h
  · exact hlayer m h
  · split at h
    · exact absurd h List.not_mem_nil
    · next hnew =>
        have hlt := Mention.length_unseen_lt hnew
        refine mentioned_of_numberedFrom (fun m hm => ?_) h
        obtain ⟨d, hd, hm⟩ := List.mem_flatMap.1 hm
        exact .of_interface (Mention.mem_newTypes hd).1 hm
termination_by (Mention.unseen s.interfaces seen).length

theorem mentioned_of_numbered (h : m ∈ s.numbered) : s.Mentioned m :=
  mentioned_of_numberedFrom (fun _ => Mentioned.of_mentions) h

end Surface

end ElementBridge
