import Mathlib.Data.List.Nodup
import ElementBridge.Proofs.Results
import ElementBridge.Surface.OfSource

namespace ElementBridge

def Meaning.isType : Meaning → Bool
  | .interface _ | .enum _ => true
  | _ => false

namespace ImportTable

theorem insert_of_notMem {t : ImportTable} {k : String} {v : Imported}
    (h : k ∉ t.map Prod.fst) : t.insert k v = t ++ [(k, v)] := by
  induction t with
  | nil => rfl
  | cons entry rest ih =>
      obtain ⟨n, s⟩ := entry
      simp only [List.map_cons, List.mem_cons, not_or] at h
      rw [ImportTable.insert, if_neg (Ne.symm h.1), ih h.2]
      rfl

theorem lookup_eq_none_iff (t : ImportTable) (k : String) :
    t.lookup k = none ↔ k ∉ t.map Prod.fst := by
  simp only [List.lookup_eq_none_iff, List.mem_map, bne_iff_ne, ne_eq]
  grind

end ImportTable

namespace Surface

variable {s t : Surface} {globals : List String}

def IsForeign (s : Surface) (globals : List String) (name : String) : Prop :=
  s.localMeaning name = none ∧ builtinMeaning globals name = none

/-- The names in the public members and in the constructor, and with a local type the names in its
declaration. -/
inductive Reached (s : Surface) (globals : List String) : String → Prop
  | member {m : Member} {type : TypeExpr} {name : String} (hm : m ∈ s.members)
      (ht : type ∈ m.types) (hn : name ∈ type.references) : Reached s globals name
  | constructor {p : Param} {name : String} (hp : p ∈ s.component.params)
      (hn : name ∈ p.type.references) : Reached s globals name
  | base {name base : String} {d : Interface} (h : Reached s globals name)
      (hd : s.resolve globals name = some (.interface d)) (hb : base ∈ d.bases) :
      Reached s globals base
  | shape {name inner : String} {d : Interface} {type : TypeExpr} (h : Reached s globals name)
      (hd : s.resolve globals name = some (.interface d)) (ht : type ∈ d.shape.types)
      (hn : inner ∈ type.references) : Reached s globals inner

/-- The types of the public members and of the constructor, and those in the declarations that are
reached. -/
inductive Exposes (s : Surface) (globals : List String) : TypeExpr → Prop
  | member {m : Member} {type : TypeExpr} (hm : m ∈ s.members) (ht : type ∈ m.types) :
      Exposes s globals type
  | constructor {p : Param} (hp : p ∈ s.component.params) : Exposes s globals p.type
  | shape {name : String} {d : Interface} {type : TypeExpr} (h : Reached s globals name)
      (hd : s.interface? name = some d) (ht : type ∈ d.shape.types) : Exposes s globals type

def SameDeclarations (s t : Surface) : Prop :=
  t = { s with imports := t.imports, referenced := t.referenced }

theorem SameDeclarations.refl (s : Surface) : SameDeclarations s s := rfl

theorem SameDeclarations.symm (h : SameDeclarations s t) : SameDeclarations t s := by
  rw [SameDeclarations] at h
  rw [h]
  rfl

theorem SameDeclarations.localMeaning (h : SameDeclarations s t) (name : String) :
    t.localMeaning name = s.localMeaning name := by
  rw [h]
  rfl

theorem SameDeclarations.interface? (h : SameDeclarations s t) (name : String) :
    t.interface? name = s.interface? name := by
  rw [h]
  rfl

theorem SameDeclarations.interfaces (h : SameDeclarations s t) : t.interfaces = s.interfaces := by
  rw [h]

theorem SameDeclarations.component (h : SameDeclarations s t) : t.component = s.component := by
  rw [h]

theorem SameDeclarations.members (h : SameDeclarations s t) : t.members = s.members := by
  rw [h]

theorem SameDeclarations.fileName (h : SameDeclarations s t) : t.fileName = s.fileName := by
  rw [h]

theorem SameDeclarations.mentions (h : SameDeclarations s t) : t.mentions = s.mentions := by
  rw [h]
  rfl

theorem SameDeclarations.isForeign (h : SameDeclarations s t) {name : String} :
    t.IsForeign globals name ↔ s.IsForeign globals name := by
  rw [IsForeign, IsForeign, h.localMeaning]

theorem interface?_name {name : String} {d : Interface} (h : s.interface? name = some d) :
    d.name = name := by
  simpa using List.find?_some h

theorem enum?_name {name : String} {d : Enumeration} (h : s.enum? name = some d) :
    d.name = name := by
  simpa using List.find?_some h

theorem localMeaning_interface {name : String} {d : Interface} :
    s.localMeaning name = some (.interface d) ↔ s.interface? name = some d := by
  unfold Surface.localMeaning
  split
  · simp_all
  · simp_all
  · split <;> simp_all

theorem localMeaning_enum {name : String} {d : Enumeration}
    (h : s.localMeaning name = some (.enum d)) : s.enum? name = some d := by
  unfold Surface.localMeaning at h
  split at h
  · simp at h
  · simp_all
  · split at h <;> simp at h

theorem builtinMeaning_not_type {name : String} {m : Meaning}
    (h : builtinMeaning globals name = some m) : m.isType = false := by
  unfold builtinMeaning at h
  split at h
  · cases h
    rfl
  · split at h
    · cases h
      rfl
    · split at h
      · cases h
        rfl
      · cases h

theorem resolve_of_not_foreign {name : String} (h : ¬ s.IsForeign globals name) :
    s.resolve globals name = (s.localMeaning name).or (builtinMeaning globals name) := by
  unfold Surface.resolve
  cases hl : s.localMeaning name with
  | some m => rfl
  | none =>
      cases hb : builtinMeaning globals name with
      | some m => rfl
      | none => exact absurd ⟨hl, hb⟩ h

theorem resolve_of_foreign {name : String} (h : s.IsForeign globals name) :
    s.resolve globals name = s.importMeaning name := by
  simp [Surface.resolve, h.1, h.2]

theorem isSome_resolve_of_not_foreign {name : String} (h : ¬ s.IsForeign globals name) :
    (s.resolve globals name).isSome := by
  rw [Option.isSome_iff_ne_none, resolve_of_not_foreign h]
  intro hn
  exact h (Option.or_eq_none_iff.1 hn)

theorem isSome_resolve_iff_of_foreign {name : String} (h : s.IsForeign globals name) :
    (s.resolve globals name).isSome ↔ rootName name ∈ s.imports.map Prod.fst := by
  rw [resolve_of_foreign h, Surface.importMeaning, Option.isSome_map,
    ← not_iff_not, ← ImportTable.lookup_eq_none_iff, Option.not_isSome_iff_eq_none]

theorem isForeign_of_resolve_eq_none {name : String} (h : s.resolve globals name = none) :
    s.IsForeign globals name := by
  by_contra hn
  simpa [h] using isSome_resolve_of_not_foreign hn

theorem resolve_type {name : String} {m : Meaning} (hm : m.isType = true) :
    s.resolve globals name = some m ↔ s.localMeaning name = some m := by
  by_cases hf : s.IsForeign globals name
  · rw [resolve_of_foreign hf, hf.1, Surface.importMeaning]
    constructor
    · intro h
      obtain ⟨symbol, -, rfl⟩ := Option.map_eq_some_iff.1 h
      simp [Meaning.isType] at hm
    · intro h
      simp at h
  · rw [resolve_of_not_foreign hf, Option.or_eq_some_iff]
    constructor
    · rintro (h | ⟨-, h⟩)
      · exact h
      · simp [builtinMeaning_not_type h] at hm
    · exact Or.inl

theorem resolve_interface {name : String} {d : Interface} :
    s.resolve globals name = some (.interface d) ↔ s.interface? name = some d :=
  (resolve_type rfl).trans localMeaning_interface

theorem isType_resolve (globals : List String) (name : String) :
    (s.resolve globals name).any Meaning.isType = (s.localMeaning name).any Meaning.isType := by
  rw [Bool.eq_iff_iff, Option.any_eq_true, Option.any_eq_true]
  constructor
  · rintro ⟨m, hr, hm⟩
    exact ⟨m, (resolve_type hm).1 hr, hm⟩
  · rintro ⟨m, hl, hm⟩
    exact ⟨m, (resolve_type hm).2 hl, hm⟩

theorem SameDeclarations.resolve_interface (h : SameDeclarations s t) {name : String}
    {d : Interface} (hd : s.resolve globals name = some (.interface d)) :
    t.resolve globals name = some (.interface d) := by
  rw [Surface.resolve_interface] at hd ⊢
  rwa [h.interface?]

theorem SameDeclarations.reached (h : SameDeclarations s t) {name : String}
    (hn : Reached s globals name) : Reached t globals name := by
  induction hn with
  | @member m _ _ hm ht hn =>
      have hm' : m ∈ t.members := by
        rw [h]
        exact hm
      exact .member hm' ht hn
  | @constructor p _ hp hn =>
      have hp' : p ∈ t.component.params := by
        rw [h]
        exact hp
      exact .constructor hp' hn
  | base _ hd hb ih => exact .base ih (h.resolve_interface hd) hb
  | shape _ hd ht hn ih => exact .shape ih (h.resolve_interface hd) ht hn

theorem Shape.mem_types_of_mention {d : Interface} {m : Mention}
    (h : m ∈ Mention.ofShape d.name d.shape) :
    ∃ type ∈ d.shape.types, m.name ∈ type.references := by
  cases hs : d.shape with
  | record fields =>
      rw [hs] at h
      obtain ⟨f, hf, hm⟩ := List.mem_flatMap.1 h
      obtain ⟨name, hn, rfl⟩ := List.mem_map.1 hm
      exact ⟨f.type, List.mem_map.2 ⟨f, hf, rfl⟩, hn⟩
  | «alias» type =>
      rw [hs] at h
      obtain ⟨name, hn, rfl⟩ := List.mem_map.1 h
      exact ⟨type, List.mem_singleton.2 rfl, hn⟩

theorem Shape.exists_mention {d : Interface} {type : TypeExpr} {name : String}
    (ht : type ∈ d.shape.types) (hn : name ∈ type.references) :
    ∃ m ∈ Mention.ofShape d.name d.shape, m.name = name := by
  cases hs : d.shape with
  | record fields =>
      rw [hs] at ht
      obtain ⟨f, hf, rfl⟩ := List.mem_map.1 ht
      exact ⟨_, List.mem_flatMap.2 ⟨f, hf, List.mem_map.2 ⟨name, hn, rfl⟩⟩, rfl⟩
  | «alias» type' =>
      rw [hs] at ht
      obtain rfl := List.mem_singleton.1 ht
      exact ⟨_, List.mem_map.2 ⟨name, hn, rfl⟩, rfl⟩

theorem Exposes.reached {type : TypeExpr} {name : String} (h : s.Exposes globals type)
    (hn : name ∈ type.references) : Reached s globals name := by
  cases h with
  | member hm ht => exact .member hm ht hn
  | constructor hp => exact .constructor hp hn
  | shape hr hd ht => exact .shape hr (Surface.resolve_interface.2 hd) ht hn

theorem exposes_of_mention {m : Mention} (h : m ∈ s.mentions) :
    ∃ type, s.Exposes globals type ∧ m.name ∈ type.references := by
  rcases List.mem_append.1 h with h | h
  · obtain ⟨member, hm, h⟩ := List.mem_flatMap.1 h
    obtain ⟨type, ht, h⟩ := List.mem_flatMap.1 h
    obtain ⟨name, hn, rfl⟩ := List.mem_map.1 h
    exact ⟨type, .member hm ht, hn⟩
  · obtain ⟨p, hp, h⟩ := List.mem_flatMap.1 h
    obtain ⟨name, hn, rfl⟩ := List.mem_map.1 h
    exact ⟨p.type, .constructor hp, hn⟩

theorem Reached.of_mention {m : Mention} (h : m ∈ s.mentions) : Reached s globals m.name := by
  obtain ⟨type, htype, hn⟩ := exposes_of_mention h
  exact htype.reached hn

theorem Reached.of_declaration {m : Mention} {d : Interface} {name : String}
    (hn : Reached s globals name) (hd : s.resolve globals name = some (.interface d))
    (h : m ∈ Mention.ofInterface d) : Reached s globals m.name := by
  rcases List.mem_append.1 h with h | h
  · obtain ⟨base, hb, rfl⟩ := List.mem_map.1 h
    exact .base hn hd hb
  · obtain ⟨type, ht, hm⟩ := Shape.mem_types_of_mention h
    exact .shape hn hd ht hm

end Surface

end ElementBridge
