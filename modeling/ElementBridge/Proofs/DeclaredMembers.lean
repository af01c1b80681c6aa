import ElementBridge.Proofs.ClassParts
import Mathlib.Data.List.Nodup
import Mathlib.Data.List.Perm.Basic

namespace ElementBridge

open ElementBridge.Tree

def valueOffers (name : String) (readonly : Bool) : List (String × Capability) :=
  if readonly then [(name, .get)] else [(name, .set), (name, .get)]

namespace Tree

def MethodKind.capability : MethodKind → Capability
  | .getter => .get
  | .setter => .set
  | _ => .call

def Parameter.offers (p : Parameter TypeNode) : List (String × Capability) :=
  match p.pattern with
  | .name id =>
      if p.accessibility = some .publicly ∨ (p.accessibility = none ∧ p.readonly = true)
      then valueOffers id.text p.readonly else []
  | .destructured => []

namespace ClassElement

def publicName? (isStatic : Bool) (key : Key) (access : Option Accessibility) : Option String :=
  (Candidate.publicName isStatic key access).map (·.1)

def declared? : ClassElement → Option Declared
  | .method m =>
      if m.kind = .construct then none
      else (publicName? m.isStatic m.key m.accessibility).map fun name =>
        ⟨name, m.kind.capability, !m.hasBody && m.kind == .method⟩
  | _ => none

def values : ClassElement → List (String × Capability)
  | .method m =>
      if m.kind = .construct ∧ m.hasBody = true then m.params.items.flatMap Parameter.offers else []
  | .property p =>
      (publicName? p.isStatic p.key p.accessibility).elim [] (valueOffers · p.readonly)
  | _ => []

def declares : ClassElement → List (String × Capability)
  | .method m =>
      if m.kind = .construct then m.params.items.flatMap Parameter.offers
      else ((ClassElement.method m).declared?.map Declared.offer).toList
  | .accessor p => (publicName? p.isStatic p.key p.accessibility).elim [] (valueOffers · false)
  | e => e.values

/-- An element that declares something for the public of which nothing is taken. -/
def isUnread : ClassElement → Bool
  | .method m =>
      (m.kind == .construct && !m.hasBody && !(m.params.items.flatMap Parameter.offers).isEmpty)
        || isPublicNumber m.isStatic m.key m.accessibility
  | .property p => isPublicNumber p.isStatic p.key p.accessibility
  | .accessor p => (publicName? p.isStatic p.key p.accessibility).isSome
      || isPublicNumber p.isStatic p.key p.accessibility
  | _ => false
where
  isPublicNumber (isStatic : Bool) (key : Key) (access : Option Accessibility) : Bool :=
    !isStatic && (Candidate.visibilityOf access).isSome && key.form == .number

theorem declares_of_isUnread_false {e : ClassElement} (h : e.isUnread = false) :
    e.declares = e.values ++ (e.declared?.map Declared.offer).toList := by
  cases e with
  | method m =>
      by_cases hkind : m.kind = .construct
      · cases hbody : m.hasBody with
        | true => simp [declares, values, declared?, hkind, hbody]
        | false =>
            have hnone : m.params.items.flatMap Parameter.offers = [] := by
              simpa [isUnread, hkind, hbody] using (Bool.or_eq_false_iff.1 h).1
            simp [declares, values, declared?, hkind, hbody, hnone]
      · simp [declares, values, hkind]
  | accessor p =>
      have hnone : publicName? p.isStatic p.key p.accessibility = none := by
        simpa using (Bool.or_eq_false_iff.1 h).1
      simp [declares, values, declared?, hnone]
  | property p => simp [declares, declared?]
  | indexSignature => rfl
  | staticBlock => rfl

theorem values_subset_declares (e : ClassElement) : e.values ⊆ e.declares := by
  cases e with
  | method m =>
      by_cases h : m.kind = .construct ∧ m.hasBody = true
      · simp [values, declares, h.1, h.2]
      · simp [values, h]
  | accessor p => exact List.nil_subset _
  | property p => exact List.Subset.refl _
  | indexSignature => exact List.nil_subset _
  | staticBlock => exact List.nil_subset _

theorem offer_mem_declares {e : ClassElement} {d : Declared} (h : e.declared? = some d) :
    d.offer ∈ e.declares := by
  cases e with
  | method m =>
      have hkind : m.kind ≠ .construct := by
        intro hkind
        simp [declared?, hkind] at h
      simp [declares, hkind, h]
  | _ => cases h

theorem capability_of_mem_valueOffers {offer : String × Capability} {name : String}
    {readonly : Bool} (h : offer ∈ valueOffers name readonly) : offer.2 ≠ .call := by
  unfold valueOffers at h
  split at h
  · simp [List.mem_singleton.1 h]
  · rcases List.mem_pair.1 h with rfl | rfl
    · simp
    · simp

theorem capability_of_mem_values {e : ClassElement} {offer : String × Capability}
    (h : offer ∈ e.values) : offer.2 ≠ .call := by
  cases e with
  | method m =>
      by_cases hbuilt : m.kind = .construct ∧ m.hasBody = true
      · rw [values, if_pos hbuilt] at h
        obtain ⟨p, -, hp⟩ := List.mem_flatMap.1 h
        unfold Parameter.offers at hp
        split at hp
        · split at hp
          · exact capability_of_mem_valueOffers hp
          · cases hp
        · cases hp
      · simp [values, hbuilt] at h
  | property p =>
      cases hname : publicName? p.isStatic p.key p.accessibility with
      | none => simp [values, hname] at h
      | some name =>
          simp only [values, hname, Option.elim_some] at h
          exact capability_of_mem_valueOffers h
  | _ => cases h

theorem capability_of_isSignature {e : ClassElement} {d : Declared} (h : e.declared? = some d)
    (hsignature : d.isSignature = true) : d.capability = .call ∧ e.declares = [d.offer] := by
  cases e with
  | method m =>
      by_cases hkind : m.kind = .construct
      · simp [declared?, hkind] at h
      · refine ⟨?_, by simp [declares, hkind, h]⟩
        simp only [declared?, hkind, if_false] at h
        obtain ⟨name, -, rfl⟩ := Option.map_eq_some_iff.1 h
        rw [Bool.and_eq_true, beq_iff_eq] at hsignature
        rw [hsignature.2]
        rfl
  | _ => cases h

end ClassElement

end Tree

namespace Declared

/-- A method, its signatures and its implementation stand together, the implementation last, and no
accessor of the name stands between or directly behind them. -/
def Runs : List Declared → Prop
  | [] => True
  | d :: rest =>
      (d.capability = .call → d.offer ∈ rest.map offer →
        d.isSignature = true ∧ rest.head?.map offer = some d.offer) ∧
      (d.isSignature = true → ∀ next ∈ rest.head?, next.name = d.name → next.capability = .call) ∧
      Runs rest

instance decidableRuns : DecidablePred Runs
  | [] => .isTrue trivial
  | _ :: rest =>
      have := decidableRuns rest
      inferInstanceAs (Decidable (_ ∧ _ ∧ _))

variable {d : Declared} {ds : List Declared} {n : String} {c : Capability}

theorem counting_sublist (ds : List Declared) : (counting ds).Sublist ds := by
  induction ds with
  | nil => exact .slnil
  | cons d rest ih =>
      unfold counting
      split
      · exact ih.cons d
      · exact ih.cons_cons d

theorem count_counting_value (hds : ∀ d ∈ ds, d.isSignature = true → d.capability = .call)
    (hc : c ≠ .call) : ((counting ds).map offer).count (n, c) = (ds.map offer).count (n, c) := by
  induction ds with
  | nil => rfl
  | cons d rest ih =>
      obtain ⟨hd, hrest⟩ := List.forall_mem_cons.1 hds
      unfold counting
      split
      · next h =>
          have hcall := hd (Bool.and_eq_true_iff.1 h).1
          have hne : d.offer ≠ (n, c) := fun heq => hc ((congrArg Prod.snd heq).symm.trans hcall)
          rw [ih hrest, List.map_cons, List.count_cons_of_ne hne]
      · rw [List.map_cons, List.map_cons, List.count_cons, List.count_cons, ih hrest]

theorem count_counting_call (hds : ∀ d ∈ ds, d.isSignature = true → d.capability = .call)
    (hruns : Runs ds) :
    ((counting ds).map offer).count (n, .call) = if (n, .call) ∈ ds.map offer then 1 else 0 := by
  induction ds with
  | nil => rfl
  | cons d rest ih =>
      obtain ⟨hd, hds⟩ := List.forall_mem_cons.1 hds
      obtain ⟨hcall, hnext, hruns⟩ := hruns
      have ih := ih hds hruns
      unfold counting
      split
      · next h =>
          rw [Bool.and_eq_true, Option.any_eq_true] at h
          obtain ⟨hsignature, next, hhead, hname⟩ := h
          have hagain : d.offer ∈ rest.map offer := by
            refine List.mem_map.2 ⟨next, List.mem_of_head? hhead, ?_⟩
            rw [offer, offer, hnext hsignature next hhead (beq_iff_eq.1 hname), hd hsignature,
              beq_iff_eq.1 hname]
          rw [ih, List.map_cons]
          refine if_congr ⟨List.mem_cons_of_mem _, fun hmem => ?_⟩ rfl rfl
          rcases List.mem_cons.1 hmem with heq | hmem
          · exact heq ▸ hagain
          · exact hmem
      · next h =>
          by_cases heq : d.offer = (n, .call)
          · have hlast : (n, Capability.call) ∉ rest.map offer := by
              rw [← heq]
              intro hmem
              obtain ⟨hsignature, hhead⟩ := hcall (congrArg Prod.snd heq) hmem
              obtain ⟨next, hnext, hoffer⟩ := Option.map_eq_some_iff.1 hhead
              refine h (Bool.and_eq_true_iff.2 ⟨hsignature, ?_⟩)
              exact (Option.any_eq_true _ _).2
                ⟨next, hnext, beq_iff_eq.2 (congrArg Prod.fst hoffer)⟩
            rw [List.map_cons, heq, List.count_cons_self, ih, if_neg hlast]
            simp [heq]
          · rw [List.map_cons, List.count_cons_of_ne heq, ih, List.map_cons]
            refine if_congr ⟨List.mem_cons_of_mem _, fun hmem => ?_⟩ rfl rfl
            exact (List.mem_cons.1 hmem).resolve_left (Ne.symm heq)

end Declared

namespace Tree.ClassNode

/-- What a class offers: its values, and its methods and accessors without the signatures that give
way. -/
def offers (node : ClassNode) : List (String × Capability) :=
  node.elements.flatMap ClassElement.values
    ++ (Declared.counting (node.elements.filterMap ClassElement.declared?)).map Declared.offer

def declares (node : ClassNode) : List (String × Capability) :=
  node.elements.flatMap ClassElement.declares

/-- No element declares again what another one does. Signatures are not counted. -/
def DeclaresOnce (node : ClassNode) : Prop :=
  (node.elements.flatMap fun e =>
    if e.declared?.any Declared.isSignature then [] else e.declares).Nodup

instance (node : ClassNode) : Decidable node.DeclaresOnce := inferInstanceAs (Decidable (List.Nodup _))

/-- All elements for the public are taken in, and overloaded methods stand in one piece. -/
structure IsPlain (node : ClassNode) : Prop where
  read : ∀ e ∈ node.elements, e.isUnread = false
  runs : Declared.Runs (node.elements.filterMap ClassElement.declared?)

instance (node : ClassNode) : Decidable node.IsPlain :=
  decidable_of_iff (_ ∧ _) ⟨fun h => ⟨h.1, h.2⟩, fun h => ⟨h.read, h.runs⟩⟩

variable {node : ClassNode}

theorem offers_subset_declares (node : ClassNode) : node.offers ⊆ node.declares := by
  refine List.append_subset.2 ⟨fun offer hoffer => ?_, fun offer hoffer => ?_⟩
  · obtain ⟨e, he, hvalue⟩ := List.mem_flatMap.1 hoffer
    exact List.mem_flatMap.2 ⟨e, he, e.values_subset_declares hvalue⟩
  · obtain ⟨d, hd, rfl⟩ := List.mem_map.1 hoffer
    obtain ⟨e, he, hdeclared⟩ := List.mem_filterMap.1 ((Declared.counting_sublist _).subset hd)
    exact List.mem_flatMap.2 ⟨e, he, ClassElement.offer_mem_declares hdeclared⟩

theorem declares_perm (hread : ∀ e ∈ node.elements, e.isUnread = false) : node.declares.Perm
    (node.elements.flatMap ClassElement.values
      ++ (node.elements.filterMap ClassElement.declared?).map Declared.offer) := by
  have hdeclares : node.declares = node.elements.flatMap fun e =>
      e.values ++ (e.declared?.map Declared.offer).toList :=
    List.flatMap_congr fun e he => ClassElement.declares_of_isUnread_false (hread e he)
  rw [hdeclares, List.map_filterMap, List.filterMap_eq_flatMap_toList]
  exact (List.flatMap_append_perm _ _ _).symm

theorem count_once {elements : List ClassElement} {n : String} {c : Capability} (hc : c ≠ .call) :
    (elements.flatMap fun e =>
        if e.declared?.any Declared.isSignature then [] else e.declares).count (n, c)
      = (elements.flatMap ClassElement.declares).count (n, c) := by
  induction elements with
  | nil => rfl
  | cons e rest ih =>
      rw [List.flatMap_cons, List.flatMap_cons, List.count_append, List.count_append, ih]
      split
      · next h =>
          obtain ⟨d, hd, hsignature⟩ := (Option.any_eq_true _ _).1 h
          obtain ⟨hcall, hdeclares⟩ := ClassElement.capability_of_isSignature hd hsignature
          have hne : d.offer ≠ (n, c) := fun heq => hc ((congrArg Prod.snd heq).symm.trans hcall)
          rw [hdeclares, List.count_singleton, if_neg (by simpa using hne), List.count_nil]
      · rfl

theorem count_offers (honce : node.DeclaresOnce) (hplain : node.IsPlain)
    (offer : String × Capability) :
    node.offers.count offer = if offer ∈ node.declares then 1 else 0 := by
  have hperm := declares_perm hplain.read
  have hds : ∀ d ∈ node.elements.filterMap ClassElement.declared?,
      d.isSignature = true → d.capability = .call := by
    intro d hd hsignature
    obtain ⟨e, -, he⟩ := List.mem_filterMap.1 hd
    exact (ClassElement.capability_of_isSignature he hsignature).1
  obtain ⟨n, c⟩ := offer
  rw [offers, List.count_append]
  by_cases hc : c = .call
  · subst hc
    have hvalues : (n, Capability.call) ∉ node.elements.flatMap ClassElement.values := by
      intro hmem
      obtain ⟨e, -, hvalue⟩ := List.mem_flatMap.1 hmem
      exact ClassElement.capability_of_mem_values hvalue rfl
    rw [List.count_eq_zero.2 hvalues, Nat.zero_add, Declared.count_counting_call hds hplain.runs]
    refine if_congr ?_ rfl rfl
    rw [hperm.mem_iff, List.mem_append]
    exact (or_iff_right hvalues).symm
  · rw [Declared.count_counting_value hds hc, ← List.count_append, ← hperm.count_eq]
    have hle : node.declares.count (n, c) ≤ 1 := by
      rw [declares, ← count_once hc]
      exact List.nodup_iff_count_le_one.1 honce (n, c)
    split
    · next hmem => exact Nat.le_antisymm hle (List.count_pos_iff.2 hmem)
    · next hmem => exact List.count_eq_zero.2 hmem

end Tree.ClassNode

end ElementBridge
