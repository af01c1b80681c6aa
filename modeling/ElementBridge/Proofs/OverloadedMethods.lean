import ElementBridge.Proofs.FoldedSignatures
import ElementBridge.Proofs.OfferedMembers
import ElementBridge.Proofs.WrittenSources

namespace ElementBridge

open ElementBridge.Tree

namespace Tree

def ClassElement.publicMethod? : ClassElement → Option (Member × Bool)
  | .method m =>
      if m.kind = .construct then none
      else (Candidate.lowerMethod m).toOption.join.map fun member => (member, m.hasBody)
  | _ => none

def ClassNode.publicMethods (node : ClassNode) : List (Member × Bool) :=
  node.elements.filterMap ClassElement.publicMethod?

end Tree

namespace Member

def isMethod (name : String) (m : Member) : Bool := m.kind == .method && m.name == name

variable {m n : Member} {members joined : List Member} {name : String}

theorem isMethod_of_name_ne (h : m.name ≠ name) : m.isMethod name = false := by
  simp [isMethod, h]

theorem isMethod_of_kind_ne (h : m.kind ≠ .method) : m.isMethod name = false := by
  simp [isMethod, h]

theorem filter_joinPartner? (h : joinPartner? m members = some joined) (name : String) :
    m.kind ≠ .method ∧ joined.filter (isMethod name) = members.filter (isMethod name) := by
  induction members generalizing joined with
  | nil => cases h
  | cons n rest ih =>
      unfold joinPartner? at h
      split at h
      · next hpartner =>
          split at h
          · obtain rfl := Option.some.inj h
            simp only [isPartner, Bool.and_eq_true] at hpartner
            have hkinds : n.kind ≠ .method ∧ m.kind ≠ .method := by
              cases hn : n.kind <;> cases hm : m.kind <;> simp_all [isOpposite]
            have hjoined : n.asProperty.isMethod name = false := rfl
            refine ⟨hkinds.2, ?_⟩
            rw [List.filter_cons, List.filter_cons, hjoined, isMethod_of_kind_ne hkinds.1]
            rfl
          · cases h
      · obtain ⟨joined, hjoined, rfl⟩ := Option.map_eq_some_iff.1 h
        obtain ⟨hm, hfilter⟩ := ih hjoined
        exact ⟨hm, by rw [List.filter_cons, List.filter_cons, hfilter]⟩

theorem filter_pairAccessors (name : String) (members : List Member) :
    (pairAccessors members).filter (isMethod name) = members.filter (isMethod name) := by
  have hfold : ∀ more found : List Member, (more.foldl addAccessor found).filter (isMethod name)
      = found.filter (isMethod name) ++ more.filter (isMethod name) := by
    intro more
    induction more with
    | nil => exact fun found => (List.append_nil _).symm
    | cons m more ih =>
        intro found
        rw [List.foldl_cons, ih, ← List.singleton_append, List.filter_append, ← List.append_assoc]
        refine congrArg (· ++ _) ?_
        unfold addAccessor
        cases hj : joinPartner? m found with
        | none => exact List.filter_append ..
        | some joined =>
            obtain ⟨hm, hfilter⟩ := filter_joinPartner? hj name
            have hnone : [m].filter (isMethod name) = [] := by
              rw [List.filter_cons, isMethod_of_kind_ne hm]
              rfl
            rw [hnone, List.append_nil]
            exact hfilter
  exact hfold members []

end Member

namespace Candidate

namespace Part

def method? : Part → Option (Member × Bool)
  | .method m hasBody => some (m, hasBody)
  | _ => none

theorem method?_of_element {e : ClassElement} {part : Option Part} (h : ofElement? e = .ok part) :
    part.bind method? = e.publicMethod? := by
  cases e with
  | method m =>
      by_cases hkind : m.kind = .construct
      · have hpart : ofConstructor? m = .ok part := by simpa [ofElement?, hkind] using h
        have hnone : (ClassElement.method m).publicMethod? = none := if_pos hkind
        rw [hnone]
        unfold ofConstructor? at hpart
        split at hpart
        · obtain rfl := Except.ok.inj hpart
          rfl
        · simp only [bind_eq_ok, pure_eq_ok] at hpart
          obtain ⟨params, -, rfl⟩ := hpart
          rfl
      · simp only [ofElement?, hkind, if_false, bind_eq_ok, pure_eq_ok] at h
        obtain ⟨found, hfound, rfl⟩ := h
        simp only [ClassElement.publicMethod?, hkind, if_false, hfound]
        cases found <;> rfl
  | property p =>
      simp only [ofElement?, bind_eq_ok, pure_eq_ok] at h
      obtain ⟨found, -, rfl⟩ := h
      cases found <;> rfl
  | _ =>
      obtain rfl := Except.ok.inj h
      rfl

theorem filterMap_of_elements {α : Type} {read : Part → Option α} {written : ClassElement → Option α}
    (hread : ∀ e part, ofElement? e = .ok part → part.bind read = written e)
    {elements : List ClassElement} {found : List (Option Part)}
    (h : elements.map ofElement? = found.map .ok) :
    found.reduceOption.filterMap read = elements.filterMap written := by
  induction elements generalizing found with
  | nil =>
      obtain rfl : found = [] := by simpa using h.symm
      rfl
  | cons e rest ih =>
      cases found with
      | nil => simp at h
      | cons part found =>
          obtain ⟨he, hrest⟩ := List.cons.inj h
          rw [List.filterMap_cons, ← ih hrest, ← hread e part he]
          cases part with
          | none => rfl
          | some p => exact List.filterMap_cons

theorem filterMap_method? {elements : List ClassElement} {found : List (Option Part)}
    (h : elements.map ofElement? = found.map .ok) :
    found.reduceOption.filterMap method? = elements.filterMap ClassElement.publicMethod? :=
  filterMap_of_elements (fun _ _ he => method?_of_element he) h

end Part

namespace Draft

variable {d e : Draft} {m : Member} {hasBody : Bool} {name : String}

structure Agrees (name : String) (d e : Draft) : Prop where
  signatures : d.signatures = e.signatures
  methods : d.members.filter (Member.isMethod name) = e.members.filter (Member.isMethod name)

theorem Agrees.snoc (h : Agrees name d e) (m : Member) :
    (d.members ++ [m]).filter (Member.isMethod name)
      = (e.members ++ [m]).filter (Member.isMethod name) := by
  rw [List.filter_append, List.filter_append, h.methods]

theorem Agrees.close (h : Agrees name d e) (implementation : Option Member) :
    Agrees name (d.close implementation) (e.close implementation) := by
  unfold Draft.close
  rw [← h.signatures]
  cases hs : d.signatures with
  | nil => exact h
  | cons first rest => exact ⟨rfl, h.snoc _⟩

theorem Agrees.addMethod (h : Agrees name d e) (m : Member) (hasBody : Bool) :
    Agrees name (d.addMethod m hasBody) (e.addMethod m hasBody) := by
  have hbehind : ∀ d e : Draft, Agrees name d e → Agrees name
      (if !hasBody && m.kind == .method then { d with signatures := d.signatures ++ [m] }
        else if d.signatures.isEmpty then d.addMember m else d.close (some m))
      (if !hasBody && m.kind == .method then { e with signatures := e.signatures ++ [m] }
        else if e.signatures.isEmpty then e.addMember m else e.close (some m)) := by
    intro d e h
    rw [← h.signatures]
    split
    · exact ⟨rfl, h.methods⟩
    · split
      · exact ⟨h.signatures, h.snoc m⟩
      · exact h.close (some m)
  unfold Draft.addMethod
  rw [← h.signatures]
  split
  · exact hbehind _ _ (h.close none)
  · exact hbehind _ _ h

theorem Agrees.add (h : Agrees name d e) {part : Part} (hpart : part.WellFormed) :
    Agrees name (d.add part)
      (part.method?.toList.foldl (fun e entry => e.addMethod entry.1 entry.2) e) := by
  have hfields : ∀ ms : List Member, (∀ m ∈ ms, m.kind = .property) →
      (d.members ++ ms).filter (Member.isMethod name) = e.members.filter (Member.isMethod name) := by
    intro ms hms
    have hnone : ms.filter (Member.isMethod name) = [] := by
      refine List.filter_eq_nil_iff.2 fun m hm => ?_
      rw [Member.isMethod_of_kind_ne (by simp [hms m hm])]
      exact Bool.false_ne_true
    rw [List.filter_append, hnone, List.append_nil, h.methods]
  cases part with
  | construct params properties => exact ⟨h.signatures, hfields properties hpart⟩
  | field m => exact ⟨h.signatures, hfields [m] (List.forall_mem_singleton.2 hpart)⟩
  | method m hasBody => exact h.addMethod m hasBody

def addMethods (d : Draft) (entries : List (Member × Bool)) : Draft :=
  entries.foldl (fun d entry => d.addMethod entry.1 entry.2) d

theorem Agrees.foldl_add (h : Agrees name d e) {parts : List Part}
    (hparts : ∀ part ∈ parts, part.WellFormed) :
    Agrees name (parts.foldl Draft.add d) (e.addMethods (parts.filterMap Part.method?)) := by
  induction parts generalizing d e with
  | nil => exact h
  | cons part parts ih =>
      obtain ⟨hpart, hparts⟩ := List.forall_mem_cons.1 hparts
      have hfirst := ih (h.add hpart) hparts
      cases hmethod : part.method? with
      | none => simpa [hmethod, addMethods] using hfirst
      | some entry => simpa [hmethod, addMethods] using hfirst

def settled (d : Draft) (name : String) : List Member :=
  (d.close none).members.filter (Member.isMethod name)

theorem settled_of_nil (h : d.signatures = []) :
    d.settled name = d.members.filter (Member.isMethod name) := by
  simp [settled, close, h]

theorem settled_addMember (h : d.signatures = []) (m : Member) :
    (d.addMember m).settled name = (d.members ++ [m]).filter (Member.isMethod name) := by
  have hadded : (d.addMember m).signatures = [] := h
  exact settled_of_nil hadded

theorem filter_snoc_of_name_ne (h : m.name ≠ name) (members : List Member) :
    (members ++ [m]).filter (Member.isMethod name) = members.filter (Member.isMethod name) := by
  rw [List.filter_append, List.filter_cons, Member.isMethod_of_name_ne h]
  exact List.append_nil _

theorem settled_close : (d.close none).settled name = d.settled name := by
  have hclosed : (d.close none).signatures = [] := by
    cases hs : d.signatures with
    | nil => simp [close, hs]
    | cons first rest => rw [close_of_cons hs]
  rw [settled_of_nil hclosed]
  rfl

theorem settled_of_name_ne {first : Member} {rest : List Member}
    (hs : d.signatures = first :: rest) (h : first.name ≠ name) :
    d.settled name = d.members.filter (Member.isMethod name) := by
  rw [settled, close_of_cons hs]
  refine filter_snoc_of_name_ne ?_ _
  exact h

theorem settled_addMethod_of_nil (hs : d.signatures = []) (h : m.name ≠ name) :
    (d.addMethod m hasBody).settled name = d.settled name := by
  rw [addMethod_of_nil hs, settled_of_nil hs]
  split
  · exact settled_of_name_ne rfl h
  · exact (settled_addMember hs m).trans (filter_snoc_of_name_ne h _)

theorem settled_addMethod (h : m.name ≠ name) :
    (d.addMethod m hasBody).settled name = d.settled name := by
  cases hs : d.signatures with
  | nil => exact settled_addMethod_of_nil hs h
  | cons first rest =>
      by_cases hname : first.name = m.name
      · have hfirst : first.name ≠ name := fun hn => h (hname.symm.trans hn)
        rw [addMethod_of_name_eq hs hname, settled_of_name_ne hs hfirst]
        split
        · exact settled_of_name_ne rfl hfirst
        · rw [close_of_cons hs, settled_of_nil rfl]
          refine filter_snoc_of_name_ne ?_ _
          exact h
      · have hclosed : (d.close none).signatures = [] := by rw [close_of_cons hs]
        rw [addMethod_of_name_ne hs hname, settled_addMethod_of_nil hclosed h, settled_close]

def Elsewhere (name : String) (d : Draft) : Prop := ∀ first ∈ d.signatures.head?, first.name ≠ name

theorem elsewhere_of_nil (h : d.signatures = []) : d.Elsewhere name := by
  intro first hfirst
  rw [h] at hfirst
  cases hfirst

theorem elsewhere_of_cons {first : Member} {rest : List Member}
    (hs : d.signatures = first :: rest) (h : first.name ≠ name) : d.Elsewhere name := by
  intro m hm
  rw [hs, List.head?_cons] at hm
  obtain rfl := Option.some.inj hm
  exact h

theorem elsewhere_addMethod_of_nil (hs : d.signatures = []) (h : m.name ≠ name) :
    (d.addMethod m hasBody).Elsewhere name := by
  rw [addMethod_of_nil hs]
  split
  · exact elsewhere_of_cons rfl h
  · exact elsewhere_of_nil hs

theorem elsewhere_addMethod (h : m.name ≠ name) : (d.addMethod m hasBody).Elsewhere name := by
  cases hs : d.signatures with
  | nil => exact elsewhere_addMethod_of_nil hs h
  | cons first rest =>
      by_cases hname : first.name = m.name
      · rw [addMethod_of_name_eq hs hname]
        split
        · exact elsewhere_of_cons rfl (hname ▸ h)
        · exact elsewhere_of_nil (by rw [close_of_cons hs])
      · rw [addMethod_of_name_ne hs hname]
        exact elsewhere_addMethod_of_nil (by rw [close_of_cons hs]) h

theorem addMethods_others {entries : List (Member × Bool)}
    (h : ∀ entry ∈ entries, entry.1.name ≠ name) :
    (d.addMethods entries).settled name = d.settled name
      ∧ (d.Elsewhere name → (d.addMethods entries).Elsewhere name) := by
  induction entries generalizing d with
  | nil => exact ⟨rfl, id⟩
  | cons entry entries ih =>
      obtain ⟨hentry, hentries⟩ := List.forall_mem_cons.1 h
      obtain ⟨hsettled, hname⟩ := ih (d := d.addMethod entry.1 entry.2) hentries
      exact ⟨hsettled.trans (settled_addMethod hentry), fun _ => hname (elsewhere_addMethod hentry)⟩

theorem addMethod_first (helse : d.Elsewhere m.name) (hasBody : Bool) : ∃ e : Draft, e.signatures = [] ∧
    e.members.filter (Member.isMethod m.name) = d.settled m.name ∧
    d.addMethod m hasBody = e.addMethod m hasBody := by
  cases hs : d.signatures with
  | nil => exact ⟨d, hs, (settled_of_nil hs).symm, rfl⟩
  | cons first rest =>
      refine ⟨d.close none, by rw [close_of_cons hs], rfl, addMethod_of_name_ne hs ?_⟩
      exact helse first (by rw [hs, List.head?_cons, Option.mem_def])

variable {first : Member} {rest : List Member} {implementation : Option Member}

theorem addMethods_signatures (helse : d.Elsewhere name)
    (hmethods : ∀ m ∈ first :: rest, m.kind = .method ∧ m.name = name) :
    (d.addMethods ((first :: rest).map (·, false))).signatures = first :: rest
      ∧ (d.addMethods ((first :: rest).map (·, false))).members.filter (Member.isMethod name)
        = d.settled name := by
  induction rest using List.reverseRecOn with
  | nil =>
      obtain ⟨hkind, rfl⟩ := hmethods first List.mem_cons_self
      obtain ⟨e, hs, hmembers, hadd⟩ := addMethod_first helse false
      have hone : d.addMethods ([first].map (·, false)) = { e with signatures := [first] } := by
        change d.addMethod first false = _
        rw [hadd, addMethod_of_nil hs, hkind]
        rfl
      rw [hone]
      exact ⟨rfl, hmembers⟩
  | append_singleton rest m ih =>
      rw [← List.cons_append] at hmethods ⊢
      obtain ⟨hrest, hm⟩ := List.forall_mem_append.1 hmethods
      obtain ⟨hkind, hname⟩ := hm m List.mem_cons_self
      obtain ⟨hs, hmembers⟩ := ih hrest
      have hsame : first.name = m.name := (hrest first List.mem_cons_self).2.trans hname.symm
      have hsnoc : d.addMethods ((first :: rest ++ [m]).map (·, false))
          = (d.addMethods ((first :: rest).map (·, false))).addMethod m false := by
        rw [List.map_append, addMethods, List.foldl_append]
        rfl
      rw [hsnoc, addMethod_of_name_eq hs hsame, hkind]
      exact ⟨rfl, hmembers⟩

theorem filter_of_isMethod (h : m.isMethod name = true) :
    [m].filter (Member.isMethod name) = [m] := by
  rw [List.filter_cons, if_pos h]
  rfl

theorem isMethod_of (h : m.kind = .method ∧ m.name = name) : m.isMethod name = true := by
  simp [Member.isMethod, h]

theorem settled_signatures (helse : d.Elsewhere name)
    (hmethods : ∀ m ∈ first :: rest, m.kind = .method ∧ m.name = name)
    (himplementation : ∀ m ∈ implementation, m.kind = .method ∧ m.name = name) :
    ((d.addMethods ((first :: rest).map (·, false))).addMethods
        (implementation.toList.map (·, true))).settled name
      = d.settled name ++ [Member.foldOverloads first rest implementation] := by
  obtain ⟨hs, hmembers⟩ := addMethods_signatures helse hmethods
  obtain ⟨hkind, hname⟩ := hmethods first List.mem_cons_self
  cases implementation with
  | none =>
      have hmethod : (Member.foldOverloads first rest none).isMethod name = true :=
        isMethod_of (m := Member.foldOverloads first rest none) ⟨hkind, hname⟩
      change (d.addMethods ((first :: rest).map (·, false))).settled name = _
      rw [settled, close_of_cons hs, List.filter_append, hmembers, filter_of_isMethod hmethod]
  | some m =>
      obtain ⟨hkind, hm⟩ := himplementation m rfl
      have hmethod : (Member.foldOverloads first rest (some m)).isMethod name = true :=
        isMethod_of (m := Member.foldOverloads first rest (some m)) ⟨hkind, hm⟩
      change ((d.addMethods ((first :: rest).map (·, false))).addMethod m true).settled name = _
      rw [addMethod_of_name_eq hs (hname.trans hm.symm), if_neg (by simp), close_of_cons hs,
        settled_of_nil rfl, List.filter_append, hmembers, filter_of_isMethod hmethod]

theorem settled_implementation (helse : d.Elsewhere name) (h : m.kind = .method ∧ m.name = name) :
    (d.addMethods [(m, true)]).settled name = d.settled name ++ [m] := by
  obtain ⟨hkind, rfl⟩ := h
  obtain ⟨e, hs, hmembers, hadd⟩ := addMethod_first helse true
  change (d.addMethod m true).settled m.name = _
  rw [hadd, addMethod_of_nil hs, if_neg (by simp), settled_addMember hs, List.filter_append,
    hmembers, filter_of_isMethod (isMethod_of ⟨hkind, rfl⟩)]

end Draft

variable {config : Config} {kind : Export} {node : ClassNode} {candidate : Candidate}

theorem members_of_node (h : ofNode? config kind node = .ok (some candidate)) (name : String) :
    candidate.members.filter (Member.isMethod name)
      = (Draft.empty.addMethods node.publicMethods).settled name := by
  obtain ⟨found, hfound, -, hmembers⟩ := parts_of_node h
  have hfound := mapM_eq_ok.1 hfound
  obtain ⟨-, -, hwell⟩ := parts_of_elements hfound
  have hagrees : Draft.Agrees name Draft.empty Draft.empty := ⟨rfl, rfl⟩
  rw [hmembers, Member.filter_pairAccessors, ClassNode.publicMethods,
    ← Part.filterMap_method? hfound]
  exact ((hagrees.foldl_add hwell).close none).methods

theorem flat_of_publicMethods {m : Member} {hasBody : Bool}
    (hm : (m, hasBody) ∈ node.publicMethods) : m.Has TypeExpr.Flat := by
  obtain ⟨e, -, he⟩ := List.mem_filterMap.1 hm
  cases e with
  | method node =>
      simp only [ClassElement.publicMethod?] at he
      split at he
      · cases he
      · obtain ⟨found, hfound, hpair⟩ := Option.map_eq_some_iff.1 he
        obtain ⟨rfl, -⟩ := Prod.mk.inj hpair
        rw [Option.join_eq_some_iff, toOption_eq_some] at hfound
        exact Draft.has_lowerMethod TypeExpr.flat_kept.within (fun _ _ _ _ => trivial) hfound
  | _ => cases he

/-- A method of a name that no other method or accessor stands among is one member. With
signatures, it covers them. -/
theorem members_of_overloads (h : ofNode? config kind node = .ok (some candidate)) {name : String}
    {before after : List (Member × Bool)} {signatures : List Member}
    {implementation : Option Member}
    (hmethods : node.publicMethods = before ++ signatures.map (·, false)
      ++ implementation.toList.map (·, true) ++ after)
    (hothers : ∀ entry ∈ before ++ after, entry.1.name ≠ name)
    (hnamed : ∀ m ∈ signatures ++ implementation.toList, m.kind = .method ∧ m.name = name)
    (hdeclared : signatures ++ implementation.toList ≠ []) :
    ∃ merged, candidate.members.filter (Member.isMethod name) = [merged]
      ∧ (signatures = [] → implementation = some merged)
      ∧ (signatures ≠ [] → Member.Covers signatures implementation merged) := by
  obtain ⟨hbefore, hafter⟩ := List.forall_mem_append.1 hothers
  obtain ⟨hsignatures, himplementation⟩ := List.forall_mem_append.1 hnamed
  have hrun : (Draft.empty.addMethods node.publicMethods).settled name
      = (((Draft.empty.addMethods before).addMethods (signatures.map (·, false))).addMethods
          (implementation.toList.map (·, true))).settled name := by
    rw [hmethods, Draft.addMethods, List.foldl_append, List.foldl_append, List.foldl_append]
    exact (Draft.addMethods_others hafter).1
  have hnone : (Draft.empty.addMethods before).settled name = [] :=
    (Draft.addMethods_others hbefore).1
  have helse : (Draft.empty.addMethods before).Elsewhere name :=
    (Draft.addMethods_others hbefore).2 (Draft.elsewhere_of_nil rfl)
  rw [members_of_node h name, hrun]
  cases signatures with
  | cons first rest =>
      have hnil : first :: rest ≠ [] := List.cons_ne_nil first rest
      refine ⟨Member.foldOverloads first rest implementation, ?_, fun h => absurd h hnil, fun _ => ?_⟩
      · rw [Draft.settled_signatures helse hsignatures fun m hm =>
          himplementation m (Option.mem_toList.2 hm), hnone]
        rfl
      · refine Member.covers_foldOverloads (fun s hs => ?_) implementation
        have hentry : (s, false) ∈ node.publicMethods := by
          rw [hmethods]
          simp only [List.mem_append, List.mem_map]
          exact .inl (.inl (.inr ⟨s, hs, rfl⟩))
        exact flat_of_publicMethods hentry
  | nil =>
      cases implementation with
      | none => exact absurd rfl hdeclared
      | some m =>
          refine ⟨m, ?_, fun _ => rfl, fun hsome => absurd rfl hsome⟩
          have hm := himplementation m (by simp)
          have honce := Draft.settled_implementation helse hm
          rw [hnone] at honce
          exact honce

def overloadedSource : SourceFile where
  path := ⟨"a.ts"⟩
  text := "export class A extends HTMLElement\x7bm(a:string):void;private p()\x7b\x7d"
    ++ "m(a:string|number,b:number):string;x=1;m(c,d?)\x7b\x7dget g()\x7breturn 1\x7d\x7d"

def shorter : Member :=
  ⟨"m", .method, [⟨"a", .primitive .string, false⟩], some (.primitive .void), .implied, false,
    false⟩

def longer : Member :=
  ⟨"m", .method, [⟨"a", .union [.primitive .string, .primitive .number], false⟩,
    ⟨"b", .primitive .number, false⟩], some (.primitive .string), .implied, false, false⟩

def implementing : Member :=
  ⟨"m", .method, [⟨"c", .any, false⟩, ⟨"d", .any, true⟩], none, .implied, false, false⟩

theorem members_overloadedSource : ∃ node candidate merged,
    (overloadedSource.parse.toOption.bind fun m => (m.hosts .standard).head?) = some (.named, node)
      ∧ ofNode? .standard .named node = .ok (some candidate)
      ∧ candidate.members.filter (Member.isMethod "m") = [merged]
      ∧ Member.Covers [shorter, longer] (some implementing) merged := by
  have hparts : (overloadedSource.parse.toOption.bind fun m => (m.hosts .standard).head?).map
      (fun c => (c.1, c.2.publicMethods.take 3, (c.2.publicMethods.drop 3).map (·.1.name),
        (ofNode? .standard c.1 c.2).toOption.join.isSome))
      = some (.named, [(shorter, false), (longer, false), (implementing, true)], ["g"], true) := by
    rw [overloadedSource.parse_eq_elim (ofList_append rfl rfl)]
    decide +kernel
  obtain ⟨⟨kind, node⟩, hnode, hparts⟩ := Option.map_eq_some_iff.1 hparts
  simp only [Prod.mk.injEq] at hparts
  obtain ⟨rfl, htake, hdrop, hsome⟩ := hparts
  obtain ⟨candidate, hcandidate⟩ := Option.isSome_iff_exists.1 hsome
  rw [Option.join_eq_some_iff, toOption_eq_some] at hcandidate
  have hothers : ∀ entry ∈ [] ++ node.publicMethods.drop 3, entry.1.name ≠ "m" := by
    intro entry hentry
    have hname : entry.1.name ∈ ["g"] := hdrop ▸ List.mem_map_of_mem hentry
    rw [List.mem_singleton.1 hname]
    decide
  have hmethods : node.publicMethods = [] ++ [shorter, longer].map (·, false)
      ++ (some implementing).toList.map (·, true) ++ node.publicMethods.drop 3 := by
    rw [← List.take_append_drop 3 node.publicMethods, htake, List.drop_append]
    simp
  obtain ⟨merged, hmerged, -, hcovers⟩ :=
    members_of_overloads hcandidate hmethods hothers (by decide) (by decide)
  exact ⟨node, candidate, merged, hnode, hcandidate, hmerged, hcovers (by decide)⟩

end Candidate

end ElementBridge
