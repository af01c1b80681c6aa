import ElementBridge.Component.Members
import ElementBridge.Proofs.StubLines

namespace ElementBridge.Member

def uses (m : Member) : List (String × Capability × Option TypeExpr) :=
  m.capabilities.map fun c => (m.name, c, m.valueType)

theorem offers_eq_uses (m : Member) : m.offers = m.uses.map fun u => (u.1, u.2.1) := by
  simp [offers, uses]

def isAccessor (m : Member) : Bool := m.kind == .getter || m.kind == .setter

variable {m n : Member} {members rest joined : List Member}

def PlainAccessors (members : List Member) : Prop :=
  ∀ m ∈ members, m.isAccessor = true → m.readonly = false

theorem isAccessor_of_isPartner (h : m.isPartner n = true) :
    m.isAccessor = true ∧ n.isAccessor = true := by
  simp only [isPartner, Bool.and_eq_true] at h
  cases hm : m.kind <;> cases hn : n.kind <;> simp_all [isOpposite, isAccessor]

theorem uses_asProperty (h : m.isPartner n = true) (htype : n.valueType = m.valueType)
    (hreadonly : n.readonly = false) : n.asProperty.uses.Perm (n.uses ++ m.uses) := by
  simp only [isPartner, Bool.and_eq_true, beq_iff_eq] at h
  obtain ⟨hname, hopposite⟩ := h
  have hjoined : n.asProperty.uses
      = [(n.name, .set, n.valueType), (n.name, .get, n.valueType)] := by
    simp [uses, capabilities, asProperty, hreadonly, valueType]
  rw [hjoined]
  unfold uses capabilities
  rw [← hname, ← htype]
  cases hm : m.kind <;> cases hn : n.kind <;> simp_all [isOpposite]
  exact List.Perm.swap _ _ _

theorem joinPartner?_uses (hplain : PlainAccessors members)
    (h : joinPartner? m members = some joined) :
    (joined.flatMap uses).Perm (members.flatMap uses ++ m.uses) ∧ PlainAccessors joined := by
  induction members generalizing joined with
  | nil => cases h
  | cons n rest ih =>
      obtain ⟨hn, hrest⟩ := List.forall_mem_cons.1 hplain
      unfold joinPartner? at h
      split at h
      · next hpartner =>
          split at h
          · next htype =>
              obtain rfl := Option.some.inj h
              have hreadonly := hn (isAccessor_of_isPartner hpartner).2
              constructor
              · simp only [List.flatMap_cons]
                refine ((uses_asProperty hpartner htype hreadonly).append_right _).trans ?_
                rw [List.append_assoc, List.append_assoc]
                exact List.perm_append_comm.append_left _
              · exact List.forall_mem_cons.2 ⟨fun _ => hreadonly, hrest⟩
          · cases h
      · obtain ⟨joined, hjoined, rfl⟩ := Option.map_eq_some_iff.1 h
        obtain ⟨hperm, hkept⟩ := ih hrest hjoined
        constructor
        · simp only [List.flatMap_cons, List.append_assoc]
          exact hperm.append_left _
        · exact List.forall_mem_cons.2 ⟨hn, hkept⟩

theorem addAccessor_uses (hplain : PlainAccessors members)
    (hm : m.isAccessor = true → m.readonly = false) :
    ((addAccessor members m).flatMap uses).Perm (members.flatMap uses ++ m.uses) ∧
      PlainAccessors (addAccessor members m) := by
  unfold addAccessor
  cases hjoined : joinPartner? m members with
  | some joined => exact joinPartner?_uses hplain hjoined
  | none =>
      constructor
      · simp
      · exact List.forall_mem_append.2 ⟨hplain, List.forall_mem_singleton.2 hm⟩

theorem foldl_addAccessor_uses (hplain : PlainAccessors members) (hrest : PlainAccessors rest) :
    ((rest.foldl addAccessor members).flatMap uses).Perm
      (members.flatMap uses ++ rest.flatMap uses) := by
  induction rest generalizing members with
  | nil => simp
  | cons m rest ih =>
      obtain ⟨hm, hrest⟩ := List.forall_mem_cons.1 hrest
      obtain ⟨hperm, hkept⟩ := addAccessor_uses hplain hm
      rw [List.foldl_cons, List.flatMap_cons, ← List.append_assoc]
      exact (ih hkept hrest).trans (hperm.append_right _)

theorem pairAccessors_uses (hplain : PlainAccessors members) :
    ((pairAccessors members).flatMap uses).Perm (members.flatMap uses) :=
  foldl_addAccessor_uses (fun _ h => absurd h List.not_mem_nil) hplain

theorem pairAccessors_offers (hplain : PlainAccessors members) :
    ((pairAccessors members).flatMap offers).Perm (members.flatMap offers) := by
  have hmap (ms : List Member) : ms.flatMap offers
      = (ms.flatMap uses).map fun u => (u.1, u.2.1) := by
    rw [List.map_flatMap]
    exact congrArg (ms.flatMap ·) (funext offers_eq_uses)
  rw [hmap, hmap]
  exact (pairAccessors_uses hplain).map _

end ElementBridge.Member
