import Mathlib.Data.List.Flatten
import ElementBridge.Proofs.ReachedNames

/-!
The run that takes in mentions, step by step: what one step may do, the bound on the number of
steps, and the invariant that ties the mentions still pending to the names reached.
-/

namespace ElementBridge

open Surface

namespace Setting

variable {e : Setting} {s t s₀ : Surface} {m : Mention} {found pending : List Mention}

/-- The surface in which a mention is looked up: the import it needs is there. -/
inductive Admits (e : Setting) (s : Surface) (m : Mention) : Surface → Prop
  | known (h : (s.resolve e.globals m.name).isSome) : Admits e s m s
  | imported {symbol : Imported} (hf : s.IsForeign e.globals m.name)
      (hk : rootName m.name ∉ s.imports.map Prod.fst)
      (hs : e.imports.lookup (rootName m.name) = some symbol) (he : e.isExported symbol = true) :
      Admits e s m { s with imports := s.imports ++ [(rootName m.name, symbol)] }

/-- What taking in a mention makes of a surface, and the mentions that follow from it. -/
inductive Takes (e : Setting) (t : Surface) (m : Mention) : Surface → List Mention → Prop
  | again {d : Interface} (hd : t.resolve e.globals m.name = some (.interface d))
      (hr : d.name ∈ t.referenced) : Takes e t m t []
  | interface {d : Interface} (hd : t.resolve e.globals m.name = some (.interface d))
      (hr : d.name ∉ t.referenced) (hb : ∀ base ∈ d.bases, e.isInterface t base = true) :
      Takes e t m { t with referenced := t.referenced ++ [d.name] } (Mention.ofInterface d)
  | enum {d : Enumeration} (hd : t.resolve e.globals m.name = some (.enum d)) :
      Takes e t m (addReferenced t d.name) []
  | terminal {meaning : Meaning} (hd : t.resolve e.globals m.name = some meaning)
      (hm : meaning.isType = false) : Takes e t m t []

theorem takeImport_ok (h : e.takeImport s m = .ok t) (hs : (t.resolve e.globals m.name).isSome) :
    Admits e s m t := by
  unfold takeImport at h
  split at h
  · next hr =>
      cases h
      exact .known (by simp [hr])
  · next hr =>
      split at h
      · cases h
        simp [hr] at hs
      · next symbol hl =>
          split at h
          · next he =>
              have hf := isForeign_of_resolve_eq_none hr
              have hk : rootName m.name ∉ s.imports.map Prod.fst := by
                rw [← isSome_resolve_iff_of_foreign hf, hr]
                simp
              rw [ImportTable.insert_of_notMem hk] at h
              cases h
              exact .imported hf hk hl he
          · cases h

theorem visit_ok (h : e.visit s m = .ok (t, found)) :
    e.obstacles.lookup (rootName m.name) = none ∧
      ∃ u, Admits e s m u ∧ Takes e u m t found := by
  unfold visit at h
  cases ho : e.obstacles.lookup (rootName m.name) with
  | some o => simp [ho, bind, Except.bind] at h
  | none =>
      refine ⟨rfl, ?_⟩
      cases hi : e.takeImport s m with
      | error f => simp [ho, hi, bind, Except.bind] at h
      | ok u =>
          have admits (hs : (u.resolve e.globals m.name).isSome) : Admits e s m u :=
            takeImport_ok hi hs
          simp only [ho, hi, bind, Except.bind, pure, Except.pure] at h
          split at h
          · simp at h
          · next d hr =>
              refine ⟨u, admits (by simp [hr]), ?_⟩
              split at h
              · next hd =>
                  obtain ⟨rfl, rfl⟩ : u = t ∧ [] = found := by simpa using h
                  exact .again hr (by simpa [isReferenced] using hd)
              · next hd =>
                  split at h
                  · simp at h
                  · next hb =>
                      obtain ⟨rfl, rfl⟩ :
                          addReferenced u d.name = t ∧ Mention.ofInterface d = found := by
                        simpa using h
                      rw [addReferenced, if_neg hd]
                      refine .interface hr (by simpa [isReferenced] using hd) ?_
                      simpa using hb
          · next d hr =>
              obtain ⟨rfl, rfl⟩ : addReferenced u d.name = t ∧ [] = found := by simpa using h
              exact ⟨u, admits (by simp [hr]), .enum hr⟩
          · next meaning hi' he hr =>
              obtain ⟨rfl, rfl⟩ : u = t ∧ [] = found := by simpa using h
              refine ⟨u, admits (by simp [hr]), .terminal hr ?_⟩
              cases meaning with
              | interface d => exact absurd rfl (hi' d)
              | enum d => exact absurd rfl (he d)
              | _ => rfl

theorem Admits.sameDeclarations (h : Admits e s m t) : SameDeclarations s t := by
  cases h <;> rfl

theorem Takes.sameDeclarations (h : Takes e s m t found) : SameDeclarations s t := by
  cases h with
  | enum =>
      unfold addReferenced
      split <;> rfl
  | _ => rfl

theorem Takes.imports (h : Takes e s m t found) : t.imports = s.imports := by
  cases h with
  | enum =>
      unfold addReferenced
      split <;> rfl
  | _ => rfl

theorem Admits.referenced (h : Admits e s m t) : t.referenced = s.referenced := by
  cases h <;> rfl

theorem Admits.isSome_resolve_mono (h : Admits e s m t) {name : String}
    (hn : (s.resolve e.globals name).isSome) : (t.resolve e.globals name).isSome := by
  by_cases hf : s.IsForeign e.globals name
  · rw [isSome_resolve_iff_of_foreign hf] at hn
    rw [isSome_resolve_iff_of_foreign (h.sameDeclarations.isForeign.2 hf)]
    cases h with
    | known _ => exact hn
    | imported _ _ _ _ => simp [hn]
  · exact isSome_resolve_of_not_foreign (mt h.sameDeclarations.isForeign.1 hf)

/-- A name has a meaning, and if that is a local type, the surface holds it. -/
def Settled (e : Setting) (s : Surface) (name : String) : Prop :=
  (s.resolve e.globals name).isSome ∧
    ((s.localMeaning name).any Meaning.isType = true → name ∈ s.referenced)

/-- The mentions that have been found: those of the members and those of each type held. -/
def Due (s : Surface) (m : Mention) : Prop :=
  m ∈ s.mentions ∨
    ∃ d, s.interface? d.name = some d ∧ d.name ∈ s.referenced ∧ m ∈ Mention.ofInterface d

theorem Takes.subset (h : Takes e s m t found) : s.referenced ⊆ t.referenced := by
  cases h with
  | interface => exact List.subset_append_left _ _
  | enum =>
      unfold addReferenced
      split
      · exact List.Subset.refl _
      · exact List.subset_append_left _ _
  | _ => exact List.Subset.refl _

theorem Takes.mem_referenced (h : Takes e s m t found) {name : String} (hn : name ∈ t.referenced) :
    name ∈ s.referenced ∨
      name = m.name ∧ (s.localMeaning m.name).any Meaning.isType = true := by
  cases h with
  | interface hd =>
      have hl := (resolve_type rfl).1 hd
      have hname := interface?_name (localMeaning_interface.1 hl)
      rcases List.mem_append.1 hn with hn | hn
      · exact .inl hn
      · exact .inr ⟨by rw [List.mem_singleton.1 hn, hname], by simp [hl, Meaning.isType]⟩
  | enum hd =>
      have hl := (resolve_type rfl).1 hd
      have hname := enum?_name (localMeaning_enum hl)
      unfold addReferenced at hn
      split at hn
      · exact .inl hn
      · rcases List.mem_append.1 hn with hn | hn
        · exact .inl hn
        · exact .inr ⟨by rw [List.mem_singleton.1 hn, hname], by simp [hl, Meaning.isType]⟩
  | _ => exact .inl hn

theorem Takes.nodup (h : Takes e s m t found) (hs : s.referenced.Nodup) : t.referenced.Nodup := by
  cases h with
  | interface _ hr => exact hs.append (List.nodup_singleton _) (by simpa using hr)
  | enum _ =>
      unfold addReferenced
      split
      · exact hs
      · next hr =>
          exact hs.append (List.nodup_singleton _) (by simpa [isReferenced] using hr)
  | _ => exact hs

theorem Takes.resolve (h : Takes e s m t found) (name : String) :
    t.resolve e.globals name = s.resolve e.globals name := by
  unfold Surface.resolve Surface.importMeaning
  rw [h.sameDeclarations.localMeaning, h.imports]

theorem Takes.settled (h : Takes e s m t found) : Settled e t m.name := by
  rw [Settled, h.resolve, h.sameDeclarations.localMeaning,
    ← isType_resolve e.globals]
  cases h with
  | again hd hr =>
      rw [interface?_name (resolve_interface.1 hd)] at hr
      exact ⟨by simp [hd], fun _ => hr⟩
  | interface hd =>
      rw [interface?_name (resolve_interface.1 hd)]
      exact ⟨by simp [hd], fun _ => by simp⟩
  | enum hd =>
      refine ⟨by simp [hd], fun _ => ?_⟩
      rw [enum?_name (localMeaning_enum ((resolve_type rfl).1 hd))]
      unfold addReferenced
      split
      · next hr => simpa [isReferenced] using hr
      · simp
  | terminal hd hm =>
      exact ⟨by simp [hd], fun ht => by simp [hd, hm] at ht⟩

theorem Takes.due (h : Takes e s m t found) {other : Mention} (hd : Due t other) :
    Due s other ∨ other ∈ found := by
  have same := h.sameDeclarations
  rcases hd with hd | ⟨d, hi, hr, hm⟩
  · rw [same.mentions] at hd
    exact .inl (.inl hd)
  · rw [same.interface?] at hi
    rcases h.mem_referenced hr with hs | ⟨hname, -⟩
    · exact .inl (.inr ⟨d, hi, hs, hm⟩)
    · cases h with
      | again _ _ => exact .inl (.inr ⟨d, hi, hr, hm⟩)
      | @interface d' hd' _ _ =>
          have heq : d' = d := by
            rw [resolve_interface, ← hname, hi] at hd'
            exact (Option.some.inj hd').symm
          exact .inr (heq ▸ hm)
      | enum hd' =>
          rw [resolve_type rfl, ← hname, localMeaning_interface.2 hi] at hd'
          cases hd'
      | terminal _ _ => exact .inl (.inr ⟨d, hi, hr, hm⟩)

theorem Takes.found_reached (h : Takes e s m t found) (hm : Reached s e.globals m.name) :
    ∀ other ∈ found, Reached s e.globals other.name := by
  cases h with
  | interface hd =>
      intro other ho
      exact hm.of_declaration hd ho
  | _ => simp

/-- The mentions that are still to come: those pending, and those of each local type that has not
been reached. -/
def weight (s : Surface) (pending : List Mention) : Nat :=
  pending.length
    + ((s.interfaces.filter (!s.isReferenced ·.name)).flatMap Mention.ofInterface).length

theorem length_flatMap_filter_add_le {p q : Interface → Bool} {ds : List Interface} {d : Interface}
    (hpq : ∀ x, q x = true → p x = true) (hd : d ∈ ds) (hp : p d = true) (hq : q d = false) :
    ((ds.filter q).flatMap Mention.ofInterface).length + (Mention.ofInterface d).length
      ≤ ((ds.filter p).flatMap Mention.ofInterface).length := by
  induction ds with
  | nil => simp at hd
  | cons x xs ih =>
      have htail : ((xs.filter q).flatMap Mention.ofInterface).length
          ≤ ((xs.filter p).flatMap Mention.ofInterface).length :=
        ((List.monotone_filter_right xs hpq).flatMap _).length_le
      rcases List.mem_cons.1 hd with rfl | hd
      · simp only [List.filter_cons, hp, hq, if_true, Bool.false_eq_true, if_false,
          List.flatMap_cons, List.length_append]
        omega
      · have := ih hd
        by_cases hx : q x = true
        · simp only [List.filter_cons, hx, hpq x hx, if_true, List.flatMap_cons,
            List.length_append]
          omega
        · by_cases hx' : p x = true
          · simp only [List.filter_cons, hx, hx', if_true, Bool.false_eq_true, if_false,
              List.flatMap_cons, List.length_append]
            omega
          · simpa only [List.filter_cons, hx, hx', Bool.false_eq_true, if_false] using this

theorem Admits.weight (h : Admits e s m t) (pending : List Mention) :
    weight t pending = weight s pending := by
  cases h <;> rfl

theorem isReferenced_mono (h : s.referenced ⊆ t.referenced) (d : Interface)
    (hd : (!t.isReferenced d.name) = true) : (!s.isReferenced d.name) = true := by
  simp only [isReferenced, Bool.not_eq_true', List.contains_eq_mem, decide_eq_false_iff_not]
    at hd ⊢
  exact fun hs => hd (h hs)

theorem Takes.weight_lt (h : Takes e s m t found) :
    weight t (pending ++ found) < weight s (m :: pending) := by
  have hi : t.interfaces = s.interfaces := by
    rw [h.sameDeclarations]
  have mono := isReferenced_mono h.subset
  have kept : ((t.interfaces.filter (!t.isReferenced ·.name)).flatMap Mention.ofInterface).length
      ≤ ((s.interfaces.filter (!s.isReferenced ·.name)).flatMap Mention.ofInterface).length :=
    hi ▸ ((List.monotone_filter_right _ mono).flatMap _).length_le
  unfold weight
  cases h with
  | @interface d hd hr =>
      have hmem : d ∈ s.interfaces := List.mem_of_find?_eq_some (resolve_interface.1 hd)
      have := length_flatMap_filter_add_le mono hmem
        (by simpa [isReferenced] using hr) (by simp [isReferenced])
      simp only [List.length_append, List.length_cons]
      omega
  | _ =>
      simp only [List.length_append, List.length_cons, List.length_nil]
      omega

structure Progress (e : Setting) (s₀ : Surface) (pending : List Mention) (s : Surface) : Prop where
  same : SameDeclarations s₀ s
  reached : ∀ m ∈ pending, Reached s₀ e.globals m.name
  unique : s.referenced.Nodup
  types : ∀ name ∈ s.referenced, Reached s₀ e.globals name ∧
    (s₀.localMeaning name).any Meaning.isType = true
  importsUnique : (s.imports.map Prod.fst).Nodup
  imports : ∀ k symbol, (k, symbol) ∈ s.imports → e.imports.lookup k = some symbol ∧
    ∃ name, Reached s₀ e.globals name ∧ s₀.IsForeign e.globals name ∧ rootName name = k
  settled : ∀ m, Due s m → Settled e s m.name ∨ m ∈ pending

theorem Settled.mono {name : String} (h : Settled e s name) (same : SameDeclarations s t)
    (hr : (s.resolve e.globals name).isSome → (t.resolve e.globals name).isSome)
    (hsub : s.referenced ⊆ t.referenced) : Settled e t name := by
  refine ⟨hr h.1, fun ht => hsub (h.2 ?_)⟩
  rwa [same.localMeaning] at ht

theorem Progress.admits (h : Progress e s₀ (m :: pending) s) (ha : Admits e s m t) :
    Progress e s₀ (m :: pending) t := by
  have same : SameDeclarations s₀ t := by
    rw [SameDeclarations, ha.sameDeclarations, h.same]
  have hdue : ∀ other, Due t other → Due s other := by
    intro other hd
    simpa only [Due, ha.sameDeclarations.mentions, ha.sameDeclarations.interface?, ha.referenced]
      using hd
  refine
    { same
      reached := h.reached
      unique := ha.referenced ▸ h.unique
      types := ha.referenced ▸ h.types
      importsUnique := ?_
      imports := ?_
      settled := fun other hd => (h.settled other (hdue other hd)).imp_left fun hs =>
        hs.mono ha.sameDeclarations ha.isSome_resolve_mono (ha.referenced ▸ List.Subset.refl _) }
  · cases ha with
    | known _ => exact h.importsUnique
    | imported _ hk _ _ =>
        rw [List.map_append]
        exact h.importsUnique.append (List.nodup_singleton _) (by simpa using hk)
  · intro k symbol hk
    cases ha with
    | known _ => exact h.imports k symbol hk
    | imported hf _ hl _ =>
        rcases List.mem_append.1 hk with hk | hk
        · exact h.imports k symbol hk
        · obtain ⟨rfl, rfl⟩ := Prod.mk.inj (List.mem_singleton.1 hk)
          exact ⟨hl, m.name, h.reached m (by simp), h.same.isForeign.1 hf, rfl⟩

theorem Progress.takes (h : Progress e s₀ (m :: pending) s) (ht : Takes e s m t found) :
    Progress e s₀ (pending ++ found) t := by
  have hm : Reached s₀ e.globals m.name := h.reached m (by simp)
  refine
    { same := by
        rw [SameDeclarations, ht.sameDeclarations, h.same]
      reached := ?_
      unique := ht.nodup h.unique
      types := ?_
      importsUnique := ht.imports ▸ h.importsUnique
      imports := ht.imports ▸ h.imports
      settled := ?_ }
  · intro other ho
    rcases List.mem_append.1 ho with ho | ho
    · exact h.reached other (List.mem_cons_of_mem _ ho)
    · exact h.same.symm.reached (ht.found_reached (h.same.reached hm) other ho)
  · intro name hn
    rcases ht.mem_referenced hn with hs | ⟨rfl, hl⟩
    · exact h.types name hs
    · exact ⟨hm, by rwa [h.same.localMeaning] at hl⟩
  · intro other hd
    rcases ht.due hd with hd | ho
    · rcases h.settled other hd with hs | hp
      · exact .inl (hs.mono ht.sameDeclarations (ht.resolve _ ▸ id) ht.subset)
      · rcases List.mem_cons.1 hp with rfl | hp
        · exact .inl ht.settled
        · exact .inr (List.mem_append_left _ hp)
    · exact .inr (List.mem_append_right _ ho)

theorem Progress.visit (h : Progress e s₀ (m :: pending) s)
    (hv : e.visit s m = .ok (t, found)) : Progress e s₀ (pending ++ found) t := by
  obtain ⟨-, u, ha, ht⟩ := visit_ok hv
  exact (h.admits ha).takes ht

theorem weight_visit (pending : List Mention) (hv : e.visit s m = .ok (t, found)) :
    weight t (pending ++ found) < weight s (m :: pending) := by
  obtain ⟨-, u, ha, ht⟩ := visit_ok hv
  rw [← ha.weight]
  exact ht.weight_lt

theorem Progress.reach {n : Nat} (h : Progress e s₀ pending s) (hn : weight s pending ≤ n)
    (hr : e.reach n pending s = .ok t) : Progress e s₀ [] t := by
  -- the bound cannot run out before the mentions do, for each visit takes from their weight
  induction n generalizing pending s with
  | zero =>
      cases pending with
      | nil =>
          cases hr
          exact h
      | cons m rest => simp [weight] at hn
  | succ n ih =>
      cases pending with
      | nil =>
          cases hr
          exact h
      | cons m rest =>
          rw [Setting.reach, bind_eq_ok] at hr
          obtain ⟨⟨u, found⟩, hv, hr⟩ := hr
          have hlt := weight_visit rest hv
          exact ih (h.visit hv) (by omega) hr

theorem Progress.start (hi : s.imports = []) (hr : s.referenced = []) :
    Progress e s s.mentions s where
  same := .refl s
  reached _ hm := .of_mention hm
  unique := by simp [hr]
  types := by simp [hr]
  importsUnique := by simp [hi]
  imports := by simp [hi]
  settled m hd := by
    rcases hd with hd | ⟨d, -, hd, -⟩
    · exact .inr hd
    · simp [hr] at hd

theorem Progress.settles (h : Progress e s₀ [] s) {name : String}
    (hn : Reached s₀ e.globals name) : Settled e s name := by
  have due : ∀ m, Due s m → Settled e s m.name := fun m hd =>
    (h.settled m hd).resolve_right (by simp)
  have held {name : String} {d : Interface} (hs : Settled e s name)
      (hd : s₀.resolve e.globals name = some (.interface d)) (m : Mention)
      (hm : m ∈ Mention.ofInterface d) : Settled e s m.name := by
    rw [resolve_interface, ← h.same.interface?] at hd
    have hname := interface?_name hd
    have hr := hs.2 (by simp [localMeaning_interface.2 hd, Meaning.isType])
    rw [← hname] at hd hr
    exact due m (.inr ⟨d, hd, hr, hm⟩)
  -- on how the name is reached: with nothing pending, all that a settled type mentions is settled
  induction hn with
  | @member m _ name hm ht hn =>
      refine due ⟨name, m.name⟩ (.inl ?_)
      rw [h.same.mentions]
      exact List.mem_append_left _ (List.mem_flatMap.2
        ⟨m, hm, List.mem_flatMap.2 ⟨_, ht, List.mem_map.2 ⟨name, hn, rfl⟩⟩⟩)
  | @constructor p name hp hn =>
      refine due ⟨name, "constructor"⟩ (.inl ?_)
      rw [h.same.mentions]
      exact List.mem_append_right _ (List.mem_flatMap.2 ⟨p, hp, List.mem_map.2 ⟨name, hn, rfl⟩⟩)
  | @base name base d _ hd hb ih =>
      exact held ih hd ⟨base, d.name⟩ (List.mem_append_left _ (List.mem_map.2 ⟨base, hb, rfl⟩))
  | @shape name inner d type _ hd ht hn ih =>
      obtain ⟨m, hm, rfl⟩ := Shape.exists_mention ht hn
      exact held ih hd m (List.mem_append_right _ hm)

end Setting

end ElementBridge
