import ElementBridge.Bridge.OfSurface
import ElementBridge.Proofs.DeclaredMembers
import ElementBridge.Proofs.HostClasses
import ElementBridge.Proofs.WrittenSources

namespace ElementBridge

open ElementBridge.Tree

namespace Candidate

theorem offers_of_property {m : Member} (h : m.kind = .property) :
    m.offers = valueOffers m.name m.readonly := by
  unfold Member.offers Member.capabilities valueOffers
  cases hreadonly : m.readonly <;> simp [h]

variable {p : Parameter TypeNode} {q : Param}

theorem offers_parameterProperty (h : TypeExpr.ofParameter p = .ok q) :
    (parameterProperty p q).toList.flatMap Member.offers = p.offers := by
  obtain ⟨id, type, hpattern, -, rfl⟩ := TypeExpr.ofParameter_eq_ok.1 h
  obtain ⟨pattern, type, optional, hasDefault, access, readonly, source⟩ := p
  obtain rfl : pattern = .name id := hpattern
  rcases access with _ | _ | _ | _ <;> cases readonly <;>
    simp [parameterProperty, Parameter.offers, valueOffers, Member.offers, Member.capabilities]

theorem offers_parameters {items : List (Parameter TypeNode)} {params : List Param}
    (h : List.Forall₂ (fun p q => TypeExpr.ofParameter p = .ok q) items params) :
    ((items.zip params).filterMap fun (p, q) => parameterProperty p q).flatMap Member.offers
      = items.flatMap Parameter.offers := by
  induction h with
  | nil => rfl
  | @cons p q _ _ hq _ ih =>
      rw [List.zip_cons_cons, List.flatMap_cons, ← ih, ← offers_parameterProperty hq]
      cases hproperty : parameterProperty p q with
      | none => simp [hproperty]
      | some m => simp [hproperty]

theorem kind_of_parameterProperty {m : Member} (h : parameterProperty p q = some m) :
    m.kind = .property := by
  obtain ⟨_, -, rfl⟩ := Option.map_eq_some_iff.1 h
  rfl

structure Part.Of (e : ClassElement) (part : Option Part) : Prop where
  values : part.toList.flatMap (fun part => part.members.flatMap Member.offers) = e.values
  declared : part.bind Part.declared? = e.declared?
  wellFormed : ∀ p ∈ part, p.WellFormed

theorem Part.of_none {e : ClassElement} (hvalues : e.values = []) (hdeclared : e.declared? = none) :
    Part.Of e none :=
  ⟨hvalues.symm, hdeclared.symm, fun _ h => by cases h⟩

theorem ofConstructor?_of {m : Method} (hkind : m.kind = .construct) {part : Option Part}
    (h : Part.ofConstructor? m = .ok part) : Part.Of (.method m) part := by
  have hdeclared : (ClassElement.method m).declared? = none := by
    simp [ClassElement.declared?, hkind]
  cases hbody : m.hasBody with
  | false =>
      obtain rfl : none = part := by simpa [Part.ofConstructor?, hbody] using h
      exact Part.of_none (by simp [ClassElement.values, hbody]) hdeclared
  | true =>
      simp only [Part.ofConstructor?, hbody, Bool.not_true, Bool.false_eq_true, if_false,
        bind_eq_ok, mapError_eq_ok, pure_eq_ok] at h
      obtain ⟨params, hparams, rfl⟩ := h
      have hoffers := offers_parameters (TypeExpr.forall₂_ofParameters hparams)
      refine ⟨?_, hdeclared.symm, ?_⟩
      · simp [ClassElement.values, hkind, hbody, Part.members, hoffers]
      · rintro _ ⟨⟩ m hm
        obtain ⟨_, -, hproperty⟩ := List.mem_filterMap.1 hm
        exact kind_of_parameterProperty hproperty

theorem ofKind_memberKind (kind : MethodKind) :
    Capability.ofKind (memberKind kind) = kind.capability := by
  cases kind <;> rfl

theorem memberKind_ne_property (kind : MethodKind) : memberKind kind ≠ .property := by
  cases kind <;> decide

theorem memberKind_beq_method {kind : MethodKind} (h : kind ≠ .construct) :
    (memberKind kind == .method) = (kind == .method) := by
  cases kind with
  | construct => exact absurd rfl h
  | _ => rfl

theorem ofMethod_of {m : Method} (hkind : m.kind ≠ .construct) {found : Option Member}
    (h : lowerMethod m = .ok found) :
    Part.Of (.method m) (found.map fun member => .method member m.hasBody) := by
  have hvalues : (ClassElement.method m).values = [] := by simp [ClassElement.values, hkind]
  unfold lowerMethod at h
  split at h
  · next hname =>
      obtain rfl := Except.ok.inj h
      exact Part.of_none hvalues (by simp [ClassElement.declared?, ClassElement.publicName?, hname])
  · next name visibility hname =>
      simp only [bind_eq_ok, mapError_eq_ok, pure_eq_ok] at h
      obtain ⟨params, -, result, -, rfl⟩ := h
      refine ⟨hvalues.symm, ?_, ?_⟩
      · simp [Part.declared?, ClassElement.declared?, ClassElement.publicName?, hname, hkind,
          ofKind_memberKind, memberKind_beq_method hkind]
      · rintro _ ⟨⟩
        exact ⟨memberKind_ne_property m.kind, rfl⟩

theorem ofProperty_of {p : Property} {found : Option Member} (h : lowerProperty p = .ok found) :
    Part.Of (.property p) (found.map .field) := by
  unfold lowerProperty at h
  split at h
  · next hname =>
      obtain rfl := Except.ok.inj h
      exact Part.of_none (by simp [ClassElement.values, ClassElement.publicName?, hname]) rfl
  · next name visibility hname =>
      simp only [bind_eq_ok, mapError_eq_ok, pure_eq_ok] at h
      obtain ⟨type, -, rfl⟩ := h
      refine ⟨?_, rfl, ?_⟩
      · simp [ClassElement.values, ClassElement.publicName?, hname, Part.members,
          offers_of_property]
      · rintro _ ⟨⟩
        rfl

theorem ofElement?_of {e : ClassElement} {part : Option Part}
    (h : Part.ofElement? e = .ok part) : Part.Of e part := by
  cases e with
  | method m =>
      by_cases hkind : m.kind = .construct
      · exact ofConstructor?_of hkind (by simpa [Part.ofElement?, hkind] using h)
      · simp only [Part.ofElement?, hkind, if_false, bind_eq_ok, pure_eq_ok] at h
        obtain ⟨found, hfound, rfl⟩ := h
        exact ofMethod_of hkind hfound
  | property p =>
      simp only [Part.ofElement?, bind_eq_ok, pure_eq_ok] at h
      obtain ⟨found, hfound, rfl⟩ := h
      exact ofProperty_of hfound
  | _ =>
      obtain rfl := Except.ok.inj h
      exact Part.of_none rfl rfl

theorem parts_of_elements {elements : List ClassElement} {found : List (Option Part)}
    (h : elements.map Part.ofElement? = found.map .ok) :
    found.reduceOption.flatMap (fun part => part.members.flatMap Member.offers)
        = elements.flatMap ClassElement.values ∧
      found.reduceOption.filterMap Part.declared? = elements.filterMap ClassElement.declared? ∧
      ∀ part ∈ found.reduceOption, part.WellFormed := by
  induction elements generalizing found with
  | nil =>
      obtain rfl : found = [] := by simpa using h.symm
      exact ⟨rfl, rfl, fun _ h => absurd h List.not_mem_nil⟩
  | cons e rest ih =>
      obtain ⟨part, found, rfl⟩ : ∃ part more, found = part :: more := by
        cases found with
        | nil => simp at h
        | cons part more => exact ⟨part, more, rfl⟩
      obtain ⟨he, hrest⟩ := List.cons.inj h
      obtain ⟨hvalues, hdeclared, hwell⟩ := ih hrest
      have hpart := ofElement?_of he
      rw [List.flatMap_cons, List.filterMap_cons, ← hpart.values, ← hvalues, ← hpart.declared,
        ← hdeclared]
      cases part with
      | none => exact ⟨rfl, rfl, hwell⟩
      | some p =>
          refine ⟨by simp [List.reduceOption], ?_,
            List.forall_mem_cons.2 ⟨hpart.wellFormed p rfl, hwell⟩⟩
          simp [List.reduceOption, List.filterMap_cons]

variable {config : Config} {kind : Export} {node : ClassNode} {candidate : Candidate}

def Draft.ofParts (found : List (Option Part)) : Draft :=
  (found.reduceOption.foldl Draft.add .empty).close none

theorem parts_of_node (h : ofNode? config kind node = .ok (some candidate)) :
    ∃ found, node.elements.mapM Part.ofElement? = .ok found ∧
      candidate.component.constructorParams = (Draft.ofParts found).constructorParams ∧
      candidate.members = Member.pairAccessors (Draft.ofParts found).members := by
  obtain ⟨-, -, draft, -, -, -, hdraft, rfl⟩ := ofNode?_ok h
  rw [Draft.foldlM_addElement, bind_eq_ok] at hdraft
  obtain ⟨found, hfound, hdraft⟩ := hdraft
  obtain rfl := Except.ok.inj hdraft
  exact ⟨found, hfound, rfl, rfl⟩

theorem offers_of_node (h : ofNode? config kind node = .ok (some candidate)) :
    (candidate.members.flatMap Member.offers).Perm node.offers := by
  obtain ⟨found, hfound, -, hmembers⟩ := parts_of_node h
  obtain ⟨hvalues, hdeclared, hwell⟩ := parts_of_elements (mapM_eq_ok.1 hfound)
  obtain ⟨hperm, hplain⟩ := Draft.offers_of_parts Draft.proper_empty hwell
  rw [hmembers]
  refine (Member.pairAccessors_offers hplain).trans (hperm.trans (.of_eq ?_))
  rw [hvalues, hdeclared]
  rfl

end Candidate

namespace Surface

variable {config : Config} {disk : Disk} {file : SourceFile} {m : Module} {s : Surface}

theorem stubs_of_surface (hm : file.parse = .ok m) (hs : file.surface config disk = .ok s) :
    ∃ kind node, m.hosts config = [(kind, node)] ∧
      (Bridge.stubsOf (Bridge.ofSurface config s).facade).Perm node.offers ∧
      node.offers ⊆ node.declares ∧
      (node.DeclaresOnce → node.IsPlain → ∀ name capability,
        (Bridge.stubsOf (Bridge.ofSurface config s).facade).count (name, capability)
          = if (name, capability) ∈ node.declares then 1 else 0) := by
  obtain ⟨o⟩ := origin_of_parse hm hs
  obtain ⟨kind, node, hhost, hlowered, hmembers⟩ := o.host
  have hstubs : (Bridge.stubsOf (Bridge.ofSurface config s).facade).Perm node.offers := by
    have hoffers := Candidate.offers_of_node hlowered
    rwa [← hmembers, ← Bridge.stubsOf_facadeClass s config.globalTypes] at hoffers
  refine ⟨kind, node, hhost, hstubs, node.offers_subset_declares, ?_⟩
  intro honce hplain name capability
  rw [hstubs.count_eq, Tree.ClassNode.count_offers honce hplain]

def plainMembers : SourceFile where
  path := ⟨"a.ts"⟩
  text := "export class A extends HTMLElement\x7bm():void;m(a?)\x7b\x7dget b()\x7b\x7d"
    ++ "set b(v)\x7b\x7d#h;readonly r\x7d"

theorem stubs_plainMembers : ∃ s, plainMembers.surface .standard ⟨[], []⟩ = .ok s ∧
    (Bridge.stubsOf (Bridge.ofSurface .standard s).facade).count ("m", .call) = 1 ∧
    (Bridge.stubsOf (Bridge.ofSurface .standard s).facade).count ("r", .set) = 0 := by
  have hparts : plainMembers.parse.toOption.map (fun m => (m.hosts .standard).map fun c =>
      (decide c.2.DeclaresOnce, decide c.2.IsPlain, decide (("m", Capability.call) ∈ c.2.declares),
        decide (("r", Capability.set) ∈ c.2.declares))) = some [(true, true, true, false)] := by
    rw [plainMembers.parse_eq_elim (ofList_append rfl rfl)]
    decide +kernel
  have hsurface : (plainMembers.surface .standard ⟨[], []⟩).toOption.isSome = true := by
    rw [SourceFile.surface, plainMembers.parse_eq_elim (ofList_append rfl rfl)]
    decide +kernel
  obtain ⟨m, hm, hparts⟩ := map_toOption_eq_some.1 hparts
  obtain ⟨s, hs⟩ := Option.isSome_iff_exists.1 hsurface
  have hs := eq_ok_of_toOption hs
  obtain ⟨kind, node, hhost, -, -, hcount⟩ := stubs_of_surface hm hs
  simp only [hhost, List.map_singleton, List.cons.injEq, Prod.mk.injEq, decide_eq_true_eq,
    decide_eq_false_iff_not, and_true] at hparts
  obtain ⟨honce, hplain, hcall, hset⟩ := hparts
  refine ⟨s, hs, ?_, ?_⟩
  · rw [hcount honce hplain, if_pos hcall]
  · rw [hcount honce hplain, if_neg hset]

def lostMembers : SourceFile where
  path := ⟨"a.ts"⟩
  text := "export class A extends HTMLElement\x7b7()\x7b\x7daccessor x=1;m():void;"
    ++ "get m()\x7breturn 1\x7d\x7d"

/-- A class that declares nothing twice, and only the last of its five capabilities has a stub. -/
theorem lost_lostMembers : ∃ m s kind node, lostMembers.parse = .ok m ∧
    lostMembers.surface .standard ⟨[], []⟩ = .ok s ∧ m.hosts .standard = [(kind, node)] ∧
    node.DeclaresOnce ∧ node.elements.map Tree.ClassElement.isUnread = [true, true, false, false] ∧
    node.declares = [("x", .set), ("x", .get), ("m", .call), ("m", .get)] ∧
    Bridge.stubsOf (Bridge.ofSurface .standard s).facade = [("m", .get)] := by
  have hparts : lostMembers.parse.toOption.map (fun m => (m.hosts .standard).map fun c =>
      (decide c.2.DeclaresOnce, c.2.elements.map Tree.ClassElement.isUnread, c.2.declares))
      = some [(true, [true, true, false, false],
        [("x", .set), ("x", .get), ("m", .call), ("m", .get)])] := by
    rw [lostMembers.parse_eq_elim (ofList_append rfl rfl)]
    decide +kernel
  have hstubs : (lostMembers.surface .standard ⟨[], []⟩).toOption.map (fun s =>
      s.members.flatMap Member.offers) = some [("m", .get)] := by
    rw [SourceFile.surface, lostMembers.parse_eq_elim (ofList_append rfl rfl)]
    decide +kernel
  obtain ⟨m, hm, hparts⟩ := map_toOption_eq_some.1 hparts
  obtain ⟨s, hs, hmembers⟩ := map_toOption_eq_some.1 hstubs
  obtain ⟨o⟩ := origin_of_parse hm hs
  obtain ⟨kind, node, hhost, -, -⟩ := o.host
  simp only [hhost, List.map_singleton, List.cons.injEq, Prod.mk.injEq, decide_eq_true_eq,
    and_true] at hparts
  obtain ⟨honce, hread, hdeclares⟩ := hparts
  refine ⟨m, s, kind, node, hm, hs, hhost, honce, hread, hdeclares, ?_⟩
  exact (Bridge.stubsOf_facadeClass s _).trans hmembers

end Surface

end ElementBridge
