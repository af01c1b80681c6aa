import ElementBridge.Proofs.ModuleTables

namespace ElementBridge

/-- Where loading stands: the modules met so far, and those among them that are completed, the
latest first. -/
structure Loading where
  met : List Path
  completed : List Path

/-- Loading some modules depth first. What was met before is left alone, be it completed or not. -/
inductive Loads (disk : Disk) : Loading → List Path → Loading → Prop where
  | done (s : Loading) : Loads disk s [] s
  | known {s s' : Loading} {p q : Path} {rest : List Path} : q ∈ s.met → q.same p = true →
      Loads disk s rest s' → Loads disk s (p :: rest) s'
  | fresh {s s₁ s' : Loading} {p : Path} {rest : List Path} : (∀ q ∈ s.met, q.same p = false) →
      Loads disk ⟨s.met ++ [p], s.completed⟩ (disk.references p) s₁ →
      Loads disk ⟨s₁.met, p :: s₁.completed⟩ rest s' → Loads disk s (p :: rest) s'

namespace Loads

variable {disk : Disk} {s s' : Loading} {ps : List Path}

theorem met_isPrefix (h : Loads disk s ps s') : s.met <+: s'.met := by
  induction h with
  | done s => exact List.prefix_refl _
  | known _ _ _ ih => exact ih
  | fresh _ _ _ ih ih' => exact (List.prefix_append _ _).trans (ih.trans ih')

theorem completed_suffix (h : Loads disk s ps s') : s.completed <:+ s'.completed := by
  induction h with
  | done s => exact List.suffix_refl _
  | known _ _ _ ih => exact ih
  | fresh _ _ _ ih ih' => exact ih.trans ((List.suffix_cons _ _).trans ih')

theorem completed_new (h : Loads disk s ps s') {p : Path} (hp : p ∈ s'.completed) :
    p ∈ s.completed ∨ p ∉ s.met := by
  induction h with
  | done s => exact .inl hp
  | known _ _ _ ih => exact ih hp
  | fresh hfresh hrefs _ ih ih' =>
      have hgrown := (List.prefix_append _ _).trans hrefs.met_isPrefix
      rcases ih' hp with hp | hp
      · rcases List.mem_cons.1 hp with rfl | hp
        · exact .inr fun hmem => absurd (Path.same_refl p) (by simp [hfresh p hmem])
        · exact (ih hp).imp_right fun hnew hmem => hnew (List.mem_append_left _ hmem)
      · exact .inr fun hmem => hp (hgrown.subset hmem)

theorem met_new (h : Loads disk s ps s') {p : Path} (hp : p ∈ s'.met) :
    p ∈ s.met ∨ p ∈ s'.completed := by
  induction h with
  | done s => exact .inl hp
  | known _ _ _ ih => exact ih hp
  | fresh _ _ hrest ih ih' =>
      rcases ih' hp with hp | hp
      · rcases ih hp with hp | hp
        · rcases List.mem_append.1 hp with hp | hp
          · exact .inl hp
          · exact .inr (hrest.completed_suffix.subset (by simp [List.mem_singleton.1 hp]))
        · exact .inr (hrest.completed_suffix.subset (List.mem_cons_of_mem _ hp))
      · exact .inr hp

theorem met_of_mem (h : Loads disk s ps s') {p : Path} (hp : p ∈ ps) :
    ∃ q ∈ s'.met, q.same p = true := by
  induction h with
  | done s => exact absurd hp List.not_mem_nil
  | known hq hsame hrest ih =>
      rcases List.mem_cons.1 hp with rfl | hp
      · exact ⟨_, hrest.met_isPrefix.subset hq, hsame⟩
      · exact ih hp
  | fresh _ hrefs hrest ih ih' =>
      rcases List.mem_cons.1 hp with rfl | hp
      · have hmet := hrest.met_isPrefix.subset (hrefs.met_isPrefix.subset
          (List.mem_append_right _ List.mem_cons_self))
        exact ⟨p, hmet, Path.same_refl p⟩
      · exact ih' hp

theorem append {s₁ : Loading} {qs : List Path} (h : Loads disk s ps s₁) (h' : Loads disk s₁ qs s') :
    Loads disk s (ps ++ qs) s' := by
  induction h with
  | done s => exact h'
  | known hq hsame _ ih => exact .known hq hsame (ih h')
  | fresh hfresh hrefs _ _ ih' => exact .fresh hfresh hrefs (ih' h')

end Loads

/-- The names that the modules completed so far pass on: each its own, and those of the modules that
were completed before it. -/
inductive Disk.PassedOn (disk : Disk) : List Path → Path → String → Prop where
  | own {before : List Path} {p : Path} {x : String} :
      x ∈ disk.ownExports p → PassedOn disk (p :: before) p x
  | star {before : List Path} {p q r : Path} {x : String} : q ∈ disk.starTargets p →
      r.same q = true → PassedOn disk before r x → PassedOn disk (p :: before) p x
  | later {before : List Path} {p q : Path} {x : String} :
      PassedOn disk before p x → PassedOn disk (q :: before) p x

namespace Disk.PassedOn

variable {disk : Disk} {before : List Path} {p q : Path} {x : String}

theorem mem (h : disk.PassedOn before p x) : p ∈ before := by
  induction h with
  | own _ => exact List.mem_cons_self
  | star _ _ _ _ => exact List.mem_cons_self
  | later _ ih => exact List.mem_cons_of_mem _ ih

theorem cons_iff (hp : p ∉ before) : disk.PassedOn (p :: before) p x ↔
    x ∈ disk.ownExports p ∨
      ∃ q ∈ disk.starTargets p, ∃ r, r.same q = true ∧ disk.PassedOn before r x := by
  constructor
  · intro h
    cases h with
    | own hx => exact .inl hx
    | star hq hsame hr => exact .inr ⟨_, hq, _, hsame, hr⟩
    | later h => exact absurd h.mem hp
  · rintro (hx | ⟨q, hq, r, hsame, hr⟩)
    · exact .own hx
    · exact .star hq hsame hr

theorem cons_of_ne (h : p ≠ q) : disk.PassedOn (q :: before) p x ↔ disk.PassedOn before p x := by
  constructor
  · intro hx
    cases hx with
    | own _ => exact absurd rfl h
    | star _ _ _ => exact absurd rfl h
    | later hx => exact hx
  · exact .later

end Disk.PassedOn

end ElementBridge
