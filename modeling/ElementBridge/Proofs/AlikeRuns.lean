import Mathlib.Data.List.Find
import ElementBridge.Proofs.FirstFault

namespace ElementBridge

namespace Surface

def redeclare (s : Surface) (interfaces : List Interface) (enums : List Enumeration) : Surface :=
  { s with interfaces, enums }

/-- Among other types and enums, some names lead to what they lead to in the surface. -/
structure Alike (s : Surface) (is : List Interface) (es : List Enumeration)
    (names : String → Prop) : Prop where
  interface? : ∀ name, names name → (s.redeclare is es).interface? name = s.interface? name
  enum? : ∀ name, names name → (s.redeclare is es).enum? name = s.enum? name

namespace Alike

variable {s t : Surface} {is : List Interface} {es : List Enumeration} {names : String → Prop}
  {name : String}

theorem localMeaning (h : s.Alike is es names) (hn : names name) :
    (s.redeclare is es).localMeaning name = s.localMeaning name := by
  unfold Surface.localMeaning
  rw [h.interface? name hn, h.enum? name hn]
  rfl

theorem resolve (h : s.Alike is es names) (hn : names name) (globals : List String) :
    (s.redeclare is es).resolve globals name = s.resolve globals name := by
  unfold Surface.resolve
  rw [h.localMeaning hn]
  rfl

theorem same (h : s.Alike is es names) (ht : SameDeclarations s t) : t.Alike is es names := by
  rw [SameDeclarations] at ht
  rw [ht]
  exact ⟨h.interface?, h.enum?⟩

end Alike

end Surface

open Surface

namespace Setting

variable {e : Setting} {s s₀ t : Surface} {m : Mention} {pending : List Mention}
  {is : List Interface} {es : List Enumeration} {os : List (String × Obstacle)}
  {names : String → Prop}

theorem sameDeclarations_of_takeImport (h : e.takeImport s m = .ok t) : SameDeclarations s t := by
  unfold takeImport at h
  split at h
  · cases h
    rfl
  · split at h
    · cases h
      rfl
    · split at h
      · cases h
        rfl
      · cases h

theorem takeImport_redeclare (h : s.Alike is es names) (hm : names m.name) :
    e.takeImport (s.redeclare is es) m = (e.takeImport s m).map (·.redeclare is es) := by
  unfold takeImport
  rw [h.resolve hm]
  cases s.resolve e.globals m.name with
  | some meaning => rfl
  | none =>
      cases e.imports.lookup (rootName m.name) with
      | none => rfl
      | some symbol =>
          cases he : e.isExported symbol with
          | true => simp only [he, if_true]; rfl
          | false => simp only [he, Bool.false_eq_true, if_false]; rfl

theorem addReferenced_redeclare (s : Surface) (name : String) :
    addReferenced (s.redeclare is es) name = (addReferenced s name).redeclare is es := by
  have hheld : (s.redeclare is es).isReferenced name = s.isReferenced name := rfl
  unfold addReferenced
  rw [hheld]
  cases s.isReferenced name with
  | true => rfl
  | false => rfl

theorem foreignBase_redeclare (h : s.Alike is es names) {d : Interface}
    (hbases : ∀ base ∈ d.bases, names base) :
    (d.bases.find? fun base => !Setting.isInterface { e with obstacles := os }
        (s.redeclare is es) base)
      = d.bases.find? fun base => !e.isInterface s base := by
  refine List.find?_congr fun base hbase => ?_
  unfold isInterface
  rw [h.resolve (hbases base hbase)]

theorem visit_redeclare (h : s.Alike is es names)
    (hos : os.lookup (rootName m.name) = e.obstacles.lookup (rootName m.name)) (hm : names m.name)
    (hbases : ∀ d, s.interface? m.name = some d → ∀ base ∈ d.bases, names base) :
    Setting.visit { e with obstacles := os } (s.redeclare is es) m
      = (e.visit s m).map fun r => (r.1.redeclare is es, r.2) := by
  have htake : Setting.takeImport { e with obstacles := os } (s.redeclare is es) m
      = (e.takeImport s m).map (·.redeclare is es) := takeImport_redeclare h hm
  unfold visit
  simp only [hos, htake]
  cases e.obstacles.lookup (rootName m.name) with
  | some o => rfl
  | none =>
      cases hi : e.takeImport s m with
      | error f => rfl
      | ok u =>
          have hsame := sameDeclarations_of_takeImport hi
          have hu := h.same hsame
          simp only [bind, Except.bind, pure, Except.pure, Except.map, hu.resolve hm]
          cases hr : u.resolve e.globals m.name with
          | none => rfl
          | some meaning =>
              cases meaning with
              | interface d =>
                  have hd : s.interface? m.name = some d := by
                    rw [← hsame.interface?]
                    exact resolve_interface.1 hr
                  have hheld : (u.redeclare is es).isReferenced d.name
                      = u.isReferenced d.name := rfl
                  simp only [foreignBase_redeclare hu (hbases d hd), hheld]
                  cases u.isReferenced d.name with
                  | true => rfl
                  | false =>
                      cases d.bases.find? fun base => !e.isInterface u base with
                      | some base => rfl
                      | none => simp [addReferenced_redeclare]
              | enum d => simp [addReferenced_redeclare]
              | _ => rfl

theorem exposed_of_visit {found : List Mention} (hp : Progress e s₀ (m :: pending) s)
    (hv : e.visit s m = .ok (t, found)) :
    ∀ mention ∈ found, Reached s₀ e.globals mention.name ∧
      ((s₀.interface? mention.name).isSome ∨
        ∃ type, s₀.Exposes e.globals type ∧ mention.name ∈ type.references) := by
  obtain ⟨-, u, ha, ht⟩ := visit_ok hv
  have hreached := (hp.visit hv).reached
  have hsame : SameDeclarations s₀ u := by rw [SameDeclarations, ha.sameDeclarations, hp.same]
  cases ht with
  | @interface d hd _ hbases =>
      intro mention hmention
      refine ⟨hreached mention (List.mem_append_right _ hmention), ?_⟩
      rw [resolve_interface, hsame.interface?] at hd
      rcases List.mem_append.1 hmention with hbase | hshape
      · obtain ⟨base, hmem, rfl⟩ := List.mem_map.1 hbase
        have hlocal := hbases base hmem
        rw [isInterface_eq, hsame.interface?] at hlocal
        exact .inl hlocal
      · obtain ⟨type, htype, hname⟩ := Shape.mem_types_of_mention hshape
        exact .inr ⟨type, .shape (hp.reached m List.mem_cons_self) hd htype, hname⟩
  | _ => simp

structure Spares (e : Setting) (s : Surface) (os : List (String × Obstacle)) : Prop where
  declared : ∀ name, Reached s e.globals name → (s.interface? name).isSome →
    os.lookup (rootName name) = e.obstacles.lookup (rootName name)
  mentioned : ∀ type, s.Exposes e.globals type → ∀ name ∈ type.references,
    os.lookup (rootName name) = e.obstacles.lookup (rootName name)

namespace Spares

theorem start (ho : e.Spares s os) : ∀ mention ∈ s.mentions,
    os.lookup (rootName mention.name) = e.obstacles.lookup (rootName mention.name) := by
  intro mention hmention
  obtain ⟨type, htype, hname⟩ := exposes_of_mention hmention
  exact ho.mentioned type htype _ hname

theorem visit {found : List Mention} (ho : e.Spares s₀ os) (hp : Progress e s₀ (m :: pending) s)
    (hv : e.visit s m = .ok (t, found)) : ∀ mention ∈ found,
      os.lookup (rootName mention.name) = e.obstacles.lookup (rootName mention.name) := by
  intro mention hmention
  obtain ⟨hreached, hmentioned⟩ := exposed_of_visit hp hv mention hmention
  rcases hmentioned with hinterface | ⟨type, htype, hname⟩
  · exact ho.declared _ hreached hinterface
  · exact ho.mentioned type htype _ hname

end Spares

theorem reach_redeclare {n n' : Nat} (h : s₀.Alike is es names)
    (hnames : ∀ name, Reached s₀ e.globals name → names name) (ho : e.Spares s₀ os)
    (hp : Progress e s₀ pending s)
    (hpending : ∀ mention ∈ pending,
      os.lookup (rootName mention.name) = e.obstacles.lookup (rootName mention.name))
    (hn : weight s pending ≤ n) (hn' : weight (s.redeclare is es) pending ≤ n') :
    Setting.reach { e with obstacles := os } n' pending (s.redeclare is es)
      = (e.reach n pending s).map (·.redeclare is es) := by
  induction n generalizing n' pending s with
  | zero =>
      cases pending with
      | nil => cases n' <;> rfl
      | cons m rest => simp [weight] at hn
  | succ n ih =>
      cases pending with
      | nil => cases n' <;> rfl
      | cons m rest =>
          obtain ⟨k, rfl⟩ : ∃ k, n' = k + 1 := by
            refine ⟨n' - 1, ?_⟩
            simp only [weight, List.length_cons] at hn'
            omega
          obtain ⟨hm, hrest⟩ := List.forall_mem_cons.1 hpending
          have hreached := hp.reached m List.mem_cons_self
          have hvisit : Setting.visit { e with obstacles := os } (s.redeclare is es) m
              = (e.visit s m).map fun r => (r.1.redeclare is es, r.2) := by
            refine visit_redeclare (h.same hp.same) hm (hnames _ hreached) ?_
            intro d hd base hbase
            rw [hp.same.interface?] at hd
            exact hnames _ (.base hreached (resolve_interface.2 hd) hbase)
          rw [Setting.reach, Setting.reach, hvisit]
          cases hv : e.visit s m with
          | error f => rfl
          | ok r =>
              obtain ⟨u, found⟩ := r
              rw [hv] at hvisit
              have hlt := Nat.lt_of_lt_of_le (weight_visit rest hv) hn
              have hlt' := Nat.lt_of_lt_of_le (weight_visit rest hvisit) hn'
              exact ih (hp.visit hv) (List.forall_mem_append.2 ⟨hrest, ho.visit hp hv⟩)
                (Nat.lt_succ_iff.1 hlt) (Nat.lt_succ_iff.1 hlt')

theorem weight_mentions (hr : s.referenced = []) : weight s s.mentions = s.mentionBound := by
  simp [weight, mentionBound, isReferenced, hr]

theorem run_redeclare (h : s.Alike is es names) (hi : s.imports = []) (hr : s.referenced = [])
    (hnames : ∀ name, Reached s e.globals name → names name) (ho : e.Spares s os) :
    Setting.reach { e with obstacles := os } (s.redeclare is es).mentionBound
        (s.redeclare is es).mentions (s.redeclare is es)
      = (e.reach s.mentionBound s.mentions s).map (·.redeclare is es) :=
  reach_redeclare h hnames ho (.start hi hr) ho.start (weight_mentions hr).le
    (weight_mentions (s := s.redeclare is es) hr).le

end Setting

end ElementBridge
