import ElementBridge.Proofs.HostClasses
import ElementBridge.Proofs.OverloadedMethods
import Mathlib.Data.List.Forall2

/-!
The methods of a class body in runs: signatures of one name that stand together, and what stands
behind them under that name. Each run is one member in the end, with parameters as they are
written.
-/

namespace ElementBridge

open ElementBridge.Tree

/-- Signatures of one name, and the method or accessor that they lead to. -/
structure Run where
  signatures : List Member
  implementation : Option Member

namespace Run

def declared (r : Run) : List Member := r.implementation.toList ++ r.signatures

def name? (r : Run) : Option String := (r.signatures.head?.or r.implementation).map (·.name)

def member? : Run → Option Member
  | ⟨[], implementation⟩ => implementation
  | ⟨first :: rest, implementation⟩ => some (Member.foldOverloads first rest implementation)

def lead (m : Member) : List Run → List Run
  | [] => [⟨[m], none⟩]
  | r :: rs => if r.name? = some m.name then ⟨m :: r.signatures, r.implementation⟩ :: rs
      else ⟨[m], none⟩ :: r :: rs

end Run

def runs : List (Member × Bool) → List Run
  | [] => []
  | (m, hasBody) :: rest =>
      if !hasBody && m.kind == .method then Run.lead m (runs rest)
      else ⟨[], some m⟩ :: runs rest

section

variable {m : Member} {hasBody : Bool} {name : String} {signatures : List Member}
  {rest : List (Member × Bool)}

theorem runs_signature (h : (!hasBody && m.kind == .method) = true) :
    runs ((m, hasBody) :: rest) = Run.lead m (runs rest) := if_pos h

theorem runs_closing (h : ¬ (!hasBody && m.kind == .method) = true) :
    runs ((m, hasBody) :: rest) = ⟨[], some m⟩ :: runs rest := if_neg h

theorem name_lead (m : Member) (rs : List Run) :
    (Run.lead m rs).head?.bind Run.name? = some m.name := by
  unfold Run.lead
  split
  · rfl
  · split <;> rfl

theorem name_runs (entries : List (Member × Bool)) :
    (runs entries).head?.bind Run.name? = entries.head?.map (·.1.name) := by
  cases entries with
  | nil => rfl
  | cons entry rest =>
      obtain ⟨m, hasBody⟩ := entry
      by_cases h : (!hasBody && m.kind == .method) = true
      · rw [runs_signature h]
        exact name_lead m _
      · rw [runs_closing h]
        rfl

theorem of_mem_runs {entries : List (Member × Bool)} {r : Run} (h : r ∈ runs entries) :
    (∀ s ∈ r.signatures, s.kind = .method ∧ (s, false) ∈ entries) ∧
      ∀ d ∈ r.implementation, ∃ hasBody, (d, hasBody) ∈ entries := by
  induction entries generalizing r with
  | nil => cases h
  | cons entry rest ih =>
      obtain ⟨m, hasBody⟩ := entry
      have later {q : Run} (hq : q ∈ runs rest) :
          (∀ s ∈ q.signatures, s.kind = .method ∧ (s, false) ∈ (m, hasBody) :: rest) ∧
            ∀ d ∈ q.implementation, ∃ body, (d, body) ∈ (m, hasBody) :: rest := by
        obtain ⟨hsignatures, himplementation⟩ := ih hq
        refine ⟨fun s hs => (hsignatures s hs).imp_right (List.mem_cons_of_mem _), fun d hd => ?_⟩
        obtain ⟨body, hbody⟩ := himplementation d hd
        exact ⟨body, List.mem_cons_of_mem _ hbody⟩
      by_cases hsignature : (!hasBody && m.kind == .method) = true
      · obtain ⟨hbody, hkind⟩ := Bool.and_eq_true_iff.1 hsignature
        obtain rfl : hasBody = false := by simpa using hbody
        have hm : m.kind = .method ∧ (m, false) ∈ (m, false) :: rest :=
          ⟨by simpa using hkind, List.mem_cons_self⟩
        have alone : (∀ s ∈ [m], s.kind = .method ∧ (s, false) ∈ (m, false) :: rest) ∧
            ∀ d ∈ (none : Option Member), ∃ body, (d, body) ∈ (m, false) :: rest :=
          ⟨List.forall_mem_singleton.2 hm, fun _ hd => nomatch hd⟩
        rw [runs_signature hsignature] at h
        cases hruns : runs rest with
        | nil =>
            rw [hruns] at h
            exact List.mem_singleton.1 h ▸ alone
        | cons q qs =>
            have hlater {p : Run} (hp : p ∈ q :: qs) := later (hruns ▸ hp)
            rw [hruns, Run.lead] at h
            split at h
            · rcases List.mem_cons.1 h with rfl | h
              · obtain ⟨hsignatures, himplementation⟩ := hlater List.mem_cons_self
                exact ⟨List.forall_mem_cons.2 ⟨hm, hsignatures⟩, himplementation⟩
              · exact hlater (List.mem_cons_of_mem _ h)
            · rcases List.mem_cons.1 h with rfl | h
              · exact alone
              · exact hlater h
      · rw [runs_closing hsignature] at h
        rcases List.mem_cons.1 h with rfl | h
        · exact ⟨fun s hs => absurd hs List.not_mem_nil,
            fun d hd => ⟨hasBody, Option.some.inj hd ▸ List.mem_cons_self⟩⟩
        · exact later h

theorem of_mem_declared {entries : List (Member × Bool)} {r : Run} (h : r ∈ runs entries) {d : Member}
    (hd : d ∈ r.declared) : ∃ hasBody, (d, hasBody) ∈ entries := by
  obtain ⟨hsignatures, himplementation⟩ := of_mem_runs h
  rcases List.mem_append.1 hd with hd | hd
  · exact himplementation d (Option.mem_toList.1 hd)
  · exact ⟨false, (hsignatures d hd).2⟩

def Run.IsMethod (r : Run) : Prop := ∀ m ∈ r.implementation, m.kind = .method

theorem kind_member_iff {entries : List (Member × Bool)} {r : Run} (h : r ∈ runs entries)
    (hm : r.member? = some m) : m.kind = .method ↔ r.IsMethod := by
  obtain ⟨hsignatures, -⟩ := of_mem_runs h
  obtain ⟨- | ⟨first, rest⟩, implementation⟩ := r
  · obtain rfl : implementation = some m := hm
    exact ⟨fun hkind d hd => Option.some.inj hd ▸ hkind, fun hall => hall m rfl⟩
  · obtain rfl := Option.some.inj hm
    cases implementation with
    | none => exact iff_of_true (hsignatures first List.mem_cons_self).1 fun d hd => nomatch hd
    | some d => exact ⟨fun hkind n hn => Option.some.inj hn ▸ hkind, fun hall => hall d rfl⟩

def AreSignatures (name : String) (signatures : List Member) : Prop :=
  ∀ m ∈ signatures, m.kind = .method ∧ m.name = name

theorem runs_implemented (hsignatures : AreSignatures m.name signatures)
    (hm : ¬ (!hasBody && m.kind == .method) = true) :
    runs (signatures.map (·, false) ++ (m, hasBody) :: rest)
      = ⟨signatures, some m⟩ :: runs rest := by
  induction signatures with
  | nil => exact runs_closing hm
  | cons first more ih =>
      obtain ⟨⟨hkind, hname⟩, hmore⟩ := List.forall_mem_cons.1 hsignatures
      have hsame : Run.name? ⟨more, some m⟩ = some first.name := by
        cases more with
        | nil => exact congrArg some hname.symm
        | cons next more => exact congrArg some ((hmore next List.mem_cons_self).2.trans hname.symm)
      rw [List.map_cons, List.cons_append, runs_signature (by simp [hkind]), ih hmore]
      exact if_pos hsame

theorem runs_bare (hsignatures : AreSignatures name signatures) (hne : signatures ≠ [])
    (hrest : ∀ entry ∈ rest.head?, entry.1.name ≠ name) :
    runs (signatures.map (·, false) ++ rest) = ⟨signatures, none⟩ :: runs rest := by
  induction signatures with
  | nil => exact absurd rfl hne
  | cons first more ih =>
      obtain ⟨⟨hkind, hname⟩, hmore⟩ := List.forall_mem_cons.1 hsignatures
      rw [List.map_cons, List.cons_append, runs_signature (by simp [hkind])]
      cases more with
      | nil =>
          rw [List.map_nil, List.nil_append]
          have hfirst := name_runs rest
          cases hruns : runs rest with
          | nil => rfl
          | cons r rs =>
              refine if_neg fun hsame => ?_
              rw [hruns] at hfirst
              obtain ⟨entry, hentry, heq⟩ := Option.map_eq_some_iff.1 (hfirst.symm.trans hsame)
              exact hrest entry hentry (heq.trans hname)
      | cons next more =>
          rw [ih hmore (List.cons_ne_nil next more)]
          exact if_pos (congrArg some ((hmore next List.mem_cons_self).2.trans hname.symm))

end

namespace Candidate

namespace Draft

variable {d : Draft} {m : Member} {hasBody : Bool}

/-- Methods that are added behind signatures of one name become the members of their runs. -/
def ComesInRuns (entries : List (Member × Bool)) : Prop :=
  ∀ (d : Draft) (name : String), AreSignatures name d.signatures →
    ((d.addMethods entries).close none).members
      = d.members ++ (runs (d.signatures.map (·, false) ++ entries)).filterMap Run.member?

theorem comesInRuns_nil : ComesInRuns [] := by
  intro d name hd
  cases hs : d.signatures with
  | nil => simp [addMethods, close, hs, runs]
  | cons first more =>
      have hbare : runs ((first :: more).map (·, false) ++ []) = ⟨first :: more, none⟩ :: runs [] :=
        runs_bare (hs ▸ hd) (List.cons_ne_nil first more) (by simp)
      rw [hbare]
      change (d.close none).members = _
      rw [close_of_cons hs]
      rfl

theorem areSignatures_singleton (hsignature : (!hasBody && m.kind == .method) = true) :
    hasBody = false ∧ AreSignatures m.name [m] := by
  obtain ⟨hbody, hkind⟩ := Bool.and_eq_true_iff.1 hsignature
  exact ⟨by simpa using hbody, List.forall_mem_singleton.2 ⟨by simpa using hkind, rfl⟩⟩

variable {rest : List (Member × Bool)}

theorem ComesInRuns.behind_nil (hrest : ComesInRuns rest) (hs : d.signatures = []) :
    (((d.addMethod m hasBody).addMethods rest).close none).members
      = d.members ++ (runs ((m, hasBody) :: rest)).filterMap Run.member? := by
  by_cases hsignature : (!hasBody && m.kind == .method) = true
  · obtain ⟨hbody, hone⟩ := areSignatures_singleton hsignature
    rw [addMethod_of_nil hs, if_pos hsignature, hrest _ _ hone, hbody]
    rfl
  · have hnone : AreSignatures m.name (d.addMember m).signatures := by
      intro n hn
      change n ∈ d.signatures at hn
      rw [hs] at hn
      cases hn
    rw [addMethod_of_nil hs, if_neg hsignature, hrest _ _ hnone, runs_closing hsignature]
    simp [addMember, hs, Run.member?]

theorem ComesInRuns.behind_same {first : Member} {more : List Member} (hrest : ComesInRuns rest)
    (hs : d.signatures = first :: more) (hd : AreSignatures m.name (first :: more))
    (hsame : first.name = m.name) :
    (((d.addMethod m hasBody).addMethods rest).close none).members
      = d.members
        ++ (runs ((first :: more).map (·, false) ++ (m, hasBody) :: rest)).filterMap Run.member? := by
  rw [addMethod_of_name_eq hs hsame]
  by_cases hsignature : (!hasBody && m.kind == .method) = true
  · obtain ⟨hbody, hone⟩ := areSignatures_singleton hsignature
    have hmore : AreSignatures m.name (first :: more ++ [m]) := List.forall_mem_append.2 ⟨hd, hone⟩
    rw [if_pos hsignature, hrest _ _ hmore, hbody]
    simp
  · have hnone : AreSignatures m.name (d.close (some m)).signatures := by
      rw [close_of_cons hs]
      exact fun n hn => absurd hn List.not_mem_nil
    rw [if_neg hsignature, hrest _ _ hnone, runs_implemented hd hsignature, close_of_cons hs]
    simp [Run.member?]

theorem ComesInRuns.behind_other {first : Member} {more : List Member} {name : String}
    (hrest : ComesInRuns rest) (hs : d.signatures = first :: more)
    (hd : AreSignatures name (first :: more)) (hname : first.name = name)
    (hother : first.name ≠ m.name) :
    (((d.addMethod m hasBody).addMethods rest).close none).members
      = d.members
        ++ (runs ((first :: more).map (·, false) ++ (m, hasBody) :: rest)).filterMap Run.member? := by
  have hhead : ∀ entry ∈ ((m, hasBody) :: rest).head?, entry.1.name ≠ name := by
    rintro entry ⟨⟩
    exact fun heq => hother (hname.trans heq.symm)
  have hclosed : (d.close none).signatures = [] := by rw [close_of_cons hs]
  rw [addMethod_of_name_ne hs hother, hrest.behind_nil hclosed,
    runs_bare hd (List.cons_ne_nil first more) hhead, close_of_cons hs]
  simp [Run.member?]

theorem members_addMethods (entries : List (Member × Bool)) : ComesInRuns entries := by
  induction entries with
  | nil => exact comesInRuns_nil
  | cons entry rest ih =>
      obtain ⟨m, hasBody⟩ := entry
      intro d name hd
      change (((d.addMethod m hasBody).addMethods rest).close none).members = _
      cases hs : d.signatures with
      | nil => exact ih.behind_nil hs
      | cons first more =>
          rw [hs] at hd
          have hname : first.name = name := (hd first List.mem_cons_self).2
          by_cases hsame : first.name = m.name
          · obtain rfl : name = m.name := hname.symm.trans hsame
            exact ih.behind_same hs hd hsame
          · exact ih.behind_other hs hd hname hsame

end Draft

variable {config : Config} {kind : Export} {node : ClassNode} {candidate : Candidate} {m : Member}

theorem mem_members_iff (h : ofNode? config kind node = .ok (some candidate))
    (hm : m.kind = .method) :
    m ∈ candidate.members ↔ ∃ r ∈ runs node.publicMethods, r.member? = some m := by
  have hmethod : m.isMethod m.name = true := by simp [Member.isMethod, hm]
  have hmembers := members_of_node h m.name
  have hnone : AreSignatures m.name Draft.empty.signatures := fun n hn => absurd hn List.not_mem_nil
  have hruns := Draft.members_addMethods node.publicMethods _ _ hnone
  have hfilter (members : List Member) : m ∈ members ↔ m ∈ members.filter (Member.isMethod m.name) := by
    simp [hmethod]
  rw [hfilter, hmembers, Draft.settled, hruns, ← hfilter]
  exact List.mem_filterMap

theorem mem_methods_iff (h : ofNode? config kind node = .ok (some candidate)) :
    m ∈ candidate.members ∧ m.kind = .method
      ↔ ∃ r ∈ runs node.publicMethods, r.IsMethod ∧ r.member? = some m := by
  constructor
  · rintro ⟨hmem, hkind⟩
    obtain ⟨r, hr, hm⟩ := (mem_members_iff h hkind).1 hmem
    exact ⟨r, hr, (kind_member_iff hr hm).1 hkind, hm⟩
  · rintro ⟨r, hr, hmethod, hm⟩
    have hkind := (kind_member_iff hr hm).2 hmethod
    exact ⟨(mem_members_iff h hkind).2 ⟨r, hr, hm⟩, hkind⟩

end Candidate

def Param.written (p : Param) : Option String × Bool := (some p.name, p.optional)

namespace Tree

def Parameter.name? (p : Parameter TypeNode) : Option String :=
  match p.pattern with
  | .name id => some id.text
  | .destructured => none

def Parameters.names (ps : Parameters TypeNode) : List String :=
  ps.items.filterMap Parameter.name?

def Parameters.written (ps : Parameters TypeNode) : List (Option String × Bool) :=
  ps.items.map fun p => (p.name?, p.optional)

/-- The parameter lists of a body: those of its methods, signatures, accessors and constructors,
private ones too. -/
def ClassNode.parameters (node : ClassNode) : List (Parameters TypeNode) :=
  node.elements.filterMap fun
    | .method m => some m.params
    | _ => none

theorem ClassNode.mem_parameters {node : ClassNode} {m : Method} (h : .method m ∈ node.elements) :
    m.params ∈ node.parameters := List.mem_filterMap.2 ⟨_, h, rfl⟩

def ClassElement.constructor? : ClassElement → Option Method
  | .method m => if m.kind = .construct ∧ m.hasBody = true then some m else none
  | _ => none

/-- The constructor of a class, the last one that is written. -/
def ClassNode.constructor? (node : ClassNode) : Option Method :=
  (node.elements.filterMap ClassElement.constructor?).getLast?

end Tree

namespace TypeExpr

theorem written_ofParameters {node : Parameters TypeNode} {params : List Param}
    (h : ofParameters node = .ok params) : params.map Param.written = node.written := by
  replace h := forall₂_ofParameters h
  rw [Parameters.written]
  generalize node.items = items at h ⊢
  induction h with
  | nil => rfl
  | cons hq _ ih =>
      obtain ⟨id, _, hpattern, -, rfl⟩ := ofParameter_eq_ok.1 hq
      rw [List.map_cons, List.map_cons, ih]
      simp [Param.written, Parameter.name?, hpattern]

end TypeExpr

variable {params : List Param} {ps : Parameters TypeNode}

theorem names_of_written (h : params.map Param.written = ps.written) :
    params.map (·.name) = ps.names := by
  have hnames := congrArg (List.filterMap Prod.fst) h
  rw [Parameters.written, List.filterMap_map, List.filterMap_map] at hnames
  exact (congrFun List.filterMap_eq_map params).symm.trans hnames

theorem marks_of_written (h : params.map Param.written = ps.written) :
    params.map (·.optional) = ps.items.map (·.optional) := by
  have hmarks := congrArg (List.map Prod.snd) h
  rw [Parameters.written, List.map_map, List.map_map] at hmarks
  exact hmarks

namespace Candidate

theorem written_of_publicMethods {node : ClassNode} {m : Member} {hasBody : Bool}
    (hm : (m, hasBody) ∈ node.publicMethods) : ∃ method, .method method ∈ node.elements ∧
      method.kind ≠ .construct ∧ m.params.map Param.written = method.params.written := by
  obtain ⟨e, he, hpublic⟩ := List.mem_filterMap.1 hm
  cases e with
  | method method =>
      simp only [ClassElement.publicMethod?] at hpublic
      split at hpublic
      · cases hpublic
      · next hkind =>
          obtain ⟨found, hfound, hpair⟩ := Option.map_eq_some_iff.1 hpublic
          obtain ⟨rfl, -⟩ := Prod.mk.inj hpair
          rw [Option.join_eq_some_iff, toOption_eq_some] at hfound
          unfold lowerMethod at hfound
          split at hfound
          · cases hfound
          · simp only [bind_eq_ok, mapError_eq_ok, pure_eq_ok, Option.some.injEq] at hfound
            obtain ⟨params, hparams, result, -, rfl⟩ := hfound
            exact ⟨method, he, hkind, TypeExpr.written_ofParameters hparams⟩
  | _ => cases hpublic

namespace Part

def construct? : Part → Option (List Param)
  | .construct params _ => some params
  | _ => none

theorem construct?_of_element (e : ClassElement) (part : Option Part) (h : ofElement? e = .ok part) :
    (part.bind fun p => p.construct?.map (·.map Param.written))
      = e.constructor?.map (·.params.written) := by
  cases e with
  | method m =>
      by_cases hkind : m.kind = .construct
      · simp only [ofElement?, hkind, if_true, ofConstructor?] at h
        cases hbody : m.hasBody with
        | false =>
            obtain rfl : none = part := by simpa [hbody] using h
            simp [ClassElement.constructor?, hbody]
        | true =>
            simp only [hbody, Bool.not_true, Bool.false_eq_true, if_false, bind_eq_ok,
              mapError_eq_ok, pure_eq_ok] at h
            obtain ⟨params, hparams, rfl⟩ := h
            simp [ClassElement.constructor?, hbody, hkind, construct?,
              TypeExpr.written_ofParameters hparams]
      · simp only [ofElement?, hkind, if_false, bind_eq_ok, pure_eq_ok] at h
        obtain ⟨found, -, rfl⟩ := h
        cases found <;> simp [ClassElement.constructor?, hkind, construct?]
  | property p =>
      simp only [ofElement?, bind_eq_ok, pure_eq_ok] at h
      obtain ⟨found, -, rfl⟩ := h
      cases found <;> rfl
  | _ =>
      obtain rfl := Except.ok.inj h
      rfl

end Part

namespace Draft

theorem constructorParams_close (d : Draft) (implementation : Option Member) :
    (d.close implementation).constructorParams = d.constructorParams := by
  cases hs : d.signatures with
  | nil => simp [close, hs]
  | cons first more => rw [close_of_cons hs]

theorem constructorParams_addMethod (d : Draft) (m : Member) (hasBody : Bool) :
    (d.addMethod m hasBody).constructorParams = d.constructorParams := by
  unfold addMethod
  extract_lets closed
  have hclosed : closed.constructorParams = d.constructorParams := by
    unfold closed
    split
    · exact constructorParams_close d none
    · rfl
  split
  · exact hclosed
  · split
    · exact hclosed
    · exact (constructorParams_close closed (some m)).trans hclosed

theorem constructorParams_foldl_add (d : Draft) (parts : List Part) :
    (parts.foldl add d).constructorParams
      = (parts.filterMap Part.construct?).getLast?.or d.constructorParams := by
  induction parts generalizing d with
  | nil => rfl
  | cons part parts ih =>
      rw [List.foldl_cons, ih]
      cases part with
      | construct params properties =>
          have hcons : (Part.construct params properties :: parts).filterMap Part.construct?
              = params :: parts.filterMap Part.construct? := rfl
          rw [hcons, List.getLast?_cons]
          cases (parts.filterMap Part.construct?).getLast? <;> rfl
      | method m hasBody => exact congrArg _ (constructorParams_addMethod d m hasBody)
      | field m => rfl

end Draft

variable {config : Config} {kind : Export} {node : ClassNode} {candidate : Candidate}

theorem mem_elements_of_constructor {m : Method} (h : node.constructor? = some m) :
    .method m ∈ node.elements := by
  obtain ⟨e, he, hm⟩ := List.mem_filterMap.1 (List.mem_of_getLast? h)
  cases e with
  | method n =>
      obtain ⟨-, hn⟩ := Option.ite_none_right_eq_some.1 hm
      exact Option.some.inj hn ▸ he
  | _ => cases hm

theorem written_of_constructor (h : ofNode? config kind node = .ok (some candidate)) :
    candidate.component.params.map Param.written
      = (node.constructor?.map (·.params.written)).getD [] := by
  obtain ⟨found, hfound, hconstructor, -⟩ := parts_of_node h
  have hwritten := Part.filterMap_of_elements Part.construct?_of_element (mapM_eq_ok.1 hfound)
  rw [← List.map_filterMap, ← List.map_filterMap] at hwritten
  have hlast := congrArg List.getLast? hwritten
  rw [List.getLast?_map, List.getLast?_map] at hlast
  rw [Component.params, hconstructor, Draft.ofParts, Draft.constructorParams_close,
    Draft.constructorParams_foldl_add, ClassNode.constructor?, ← hlast]
  cases (found.reduceOption.filterMap Part.construct?).getLast? <;> rfl

end Candidate

end ElementBridge
