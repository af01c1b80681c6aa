import ElementBridge.Proofs.OfferedMembers

namespace ElementBridge

open ElementBridge.Tree

namespace Candidate

def Part.weight : Part → Nat
  | .construct _ properties => properties.length
  | _ => 1

/-- A member, the position of the first element that it comes from, and those of the others. -/
structure Entry where
  member : Member
  place : Nat
  more : List Nat

namespace Entry

def places (e : Entry) : List Nat := e.place :: e.more

def joinPartner? (e : Entry) : List Entry → Option (List Entry)
  | [] => none
  | n :: rest =>
      if e.member.isPartner n.member then
        if n.member.valueType = e.member.valueType
        then some (⟨n.member.asProperty, n.place, n.more ++ e.places⟩ :: rest)
        else none
      else (joinPartner? e rest).map (n :: ·)

def addAccessor (entries : List Entry) (e : Entry) : List Entry :=
  (joinPartner? e entries).getD (entries ++ [e])

def pairAccessors (entries : List Entry) : List Entry := entries.foldl addAccessor []

theorem addAccessor_cases (entries : List Entry) (e : Entry) :
    addAccessor entries e = entries ++ [e] ∨ ∃ before n after, entries = before ++ n :: after ∧
      e.member.isPartner n.member = true ∧
      addAccessor entries e
        = before ++ ⟨n.member.asProperty, n.place, n.more ++ e.places⟩ :: after := by
  have hjoined : ∀ joined, joinPartner? e entries = some joined →
      ∃ before n after, entries = before ++ n :: after ∧ e.member.isPartner n.member = true ∧
        joined = before ++ ⟨n.member.asProperty, n.place, n.more ++ e.places⟩ :: after := by
    induction entries with
    | nil => exact fun joined h => by cases h
    | cons n rest ih =>
        intro joined h
        rw [joinPartner?] at h
        split at h
        · next hpartner =>
            split at h
            · obtain rfl := Option.some.inj h
              exact ⟨[], n, rest, rfl, hpartner, rfl⟩
            · cases h
        · obtain ⟨tail, htail, rfl⟩ := Option.map_eq_some_iff.1 h
          obtain ⟨before, p, after, rfl, hpartner, rfl⟩ := ih tail htail
          exact ⟨n :: before, p, after, rfl, hpartner, rfl⟩
  unfold addAccessor
  cases h : joinPartner? e entries with
  | none => exact .inl rfl
  | some joined => exact .inr (hjoined joined h)

theorem places_pairAccessors (entries : List Entry) :
    ((pairAccessors entries).flatMap places).Perm (entries.flatMap places) := by
  have hadd (acc : List Entry) (e : Entry) :
      ((addAccessor acc e).flatMap places).Perm (acc.flatMap places ++ e.places) := by
    rcases addAccessor_cases acc e with hadd | ⟨before, n, after, rfl, -, hadd⟩
    · simp [hadd]
    · have hplaces : places ⟨n.member.asProperty, n.place, n.more ++ e.places⟩
          = n.places ++ e.places := rfl
      rw [hadd]
      simp only [List.flatMap_append, List.flatMap_cons, hplaces, List.append_assoc]
      exact (List.perm_append_comm.append_left _).append_left _
  have hfold (acc : List Entry) : ((entries.foldl addAccessor acc).flatMap places).Perm
      (acc.flatMap places ++ entries.flatMap places) := by
    induction entries generalizing acc with
    | nil => simp
    | cons e rest ih =>
        rw [List.foldl_cons, List.flatMap_cons, ← List.append_assoc]
        exact (ih _).trans ((hadd acc e).append_right _)
  exact hfold []

theorem joinPartner?_members (e : Entry) (entries : List Entry) :
    (joinPartner? e entries).map (·.map (·.member))
      = Member.joinPartner? e.member (entries.map (·.member)) := by
  induction entries with
  | nil => rfl
  | cons n rest ih =>
      rw [List.map_cons, joinPartner?, Member.joinPartner?, ← ih]
      split
      · split
        · rfl
        · rfl
      · cases joinPartner? e rest <;> rfl

theorem addAccessor_members (entries : List Entry) (e : Entry) :
    (addAccessor entries e).map (·.member)
      = Member.addAccessor (entries.map (·.member)) e.member := by
  rw [addAccessor, Member.addAccessor, ← joinPartner?_members]
  cases joinPartner? e entries with
  | none => simp
  | some joined => rfl

theorem pairAccessors_members (entries : List Entry) :
    (pairAccessors entries).map (·.member)
      = Member.pairAccessors (entries.map (·.member)) := by
  have hfold (acc : List Entry) : (entries.foldl addAccessor acc).map (·.member)
      = (entries.map (·.member)).foldl Member.addAccessor (acc.map (·.member)) := by
    induction entries generalizing acc with
    | nil => rfl
    | cons e rest ih =>
        rw [List.foldl_cons, ih, addAccessor_members, List.map_cons, List.foldl_cons]
  exact hfold []

end Entry

/-- A draft that knows where its members and signatures come from. -/
structure Log where
  entries : List Entry
  signatures : List (Member × Nat)

namespace Log

def empty : Log := ⟨[], []⟩

def close (l : Log) (implementation : Option (Member × Nat)) : Log :=
  match l.signatures with
  | [] => l
  | first :: rest =>
      { entries := l.entries ++
          [{ member := Member.foldOverloads first.1 (rest.map (·.1)) (implementation.map (·.1))
             place := first.2
             more := rest.map (·.2) ++ implementation.toList.map (·.2) }]
        signatures := [] }

def addMethod (l : Log) (m : Member) (place : Nat) (hasBody : Bool) : Log :=
  let l := if l.signatures.head?.any (·.1.name != m.name) then l.close none else l
  if !hasBody && m.kind == .method then { l with signatures := l.signatures ++ [(m, place)] }
  else if l.signatures.isEmpty then { l with entries := l.entries ++ [⟨m, place, []⟩] }
  else l.close (some (m, place))

def addValues (l : Log) (place : Nat) (members : List Member) : Log :=
  { l with entries := l.entries ++ members.map fun m => ⟨m, place, []⟩ }

def add (l : Log) (place : Nat) : Part → Log
  | .construct _ properties => l.addValues place properties
  | .field m => l.addValues place [m]
  | .method m hasBody => l.addMethod m place hasBody

def run (l : Log) (place : Nat) : List (Option Part) → Log
  | [] => l
  | part :: rest => run (part.elim l (l.add place)) (place + 1) rest

variable {l : Log} {d : Draft} {m : Member} {place : Nat} {hasBody : Bool}
  {first : Member × Nat} {rest : List (Member × Nat)}

def held (l : Log) : List Nat := l.entries.flatMap Entry.places ++ l.signatures.map (·.2)

theorem close_of_nil (h : l.signatures = []) (implementation : Option (Member × Nat)) :
    l.close implementation = l := by
  simp [close, h]

theorem close_of_cons (h : l.signatures = first :: rest) (implementation : Option (Member × Nat)) :
    l.close implementation =
      { entries := l.entries ++
          [{ member := Member.foldOverloads first.1 (rest.map (·.1)) (implementation.map (·.1))
             place := first.2
             more := rest.map (·.2) ++ implementation.toList.map (·.2) }]
        signatures := [] } := by
  simp [close, h]

theorem signatures_close (l : Log) (implementation : Option (Member × Nat)) :
    (l.close implementation).signatures = [] := by
  cases h : l.signatures with
  | nil => rw [close_of_nil h, h]
  | cons first rest => rw [close_of_cons h]

theorem addMethod_of_nil (h : l.signatures = []) : l.addMethod m place hasBody =
    if !hasBody && m.kind == .method then { l with signatures := [(m, place)] }
    else { l with entries := l.entries ++ [⟨m, place, []⟩] } := by
  simp [addMethod, h]

theorem addMethod_of_name_ne (h : l.signatures = first :: rest) (hname : first.1.name ≠ m.name) :
    l.addMethod m place hasBody = (l.close none).addMethod m place hasBody := by
  simp [addMethod, h, hname, signatures_close]

theorem addMethod_of_name_eq (h : l.signatures = first :: rest) (hname : first.1.name = m.name) :
    l.addMethod m place hasBody = if !hasBody && m.kind == .method
      then { l with signatures := l.signatures ++ [(m, place)] } else l.close (some (m, place)) := by
  simp [addMethod, h, hname]

theorem held_close (l : Log) (implementation : Option (Member × Nat)) (h : l.signatures ≠ []) :
    (l.close implementation).held = l.held ++ implementation.toList.map (·.2) := by
  cases hl : l.signatures with
  | nil => exact absurd hl h
  | cons first rest =>
      rw [close_of_cons hl]
      simp [held, hl, Entry.places]

theorem held_close_none (l : Log) : (l.close none).held = l.held := by
  by_cases h : l.signatures = []
  · rw [close_of_nil h]
  · simpa using l.held_close none h

theorem held_addMethod_of_nil (h : l.signatures = []) :
    (l.addMethod m place hasBody).held = l.held ++ [place] := by
  rw [addMethod_of_nil h]
  split
  · simp [held, h]
  · simp [held, h, Entry.places]

theorem held_addMethod : (l.addMethod m place hasBody).held = l.held ++ [place] := by
  cases hl : l.signatures with
  | nil => exact held_addMethod_of_nil hl
  | cons first rest =>
      by_cases hname : first.1.name = m.name
      · rw [addMethod_of_name_eq hl hname]
        split
        · simp [held]
        · exact l.held_close (some (m, place)) (by simp [hl])
      · rw [addMethod_of_name_ne hl hname, held_addMethod_of_nil (l.signatures_close none),
          held_close_none]

theorem held_addValues (members : List Member) : (l.addValues place members).held.Perm
    (l.held ++ List.replicate members.length place) := by
  have hplaces : (members.map fun m => (⟨m, place, []⟩ : Entry)).flatMap Entry.places
      = List.replicate members.length place := by
    induction members with
    | nil => rfl
    | cons m rest ih => rw [List.map_cons, List.flatMap_cons, ih]; rfl
  rw [held, addValues, List.flatMap_append, hplaces, held, List.append_assoc, List.append_assoc]
  exact List.perm_append_comm.append_left _

theorem held_add (part : Part) :
    (l.add place part).held.Perm (l.held ++ List.replicate part.weight place) := by
  cases part with
  | construct params properties => exact held_addValues properties
  | field m => exact held_addValues [m]
  | method m hasBody => exact .of_eq held_addMethod

theorem count_held_run (found : List (Option Part)) (i : Nat) :
    (l.run place found).held.count i = l.held.count i
      + if place ≤ i then (found[i - place]?.join).elim 0 Part.weight else 0 := by
  induction found generalizing l place with
  | nil => simp [run]
  | cons part found ih =>
      have hpart : (part.elim l (l.add place)).held.count i
          = l.held.count i + if place = i then part.elim 0 Part.weight else 0 := by
        cases part with
        | none => simp
        | some part =>
            rw [Option.elim_some, (held_add part).count_eq, List.count_append, List.count_replicate]
            simp
      rw [run, ih, hpart]
      rcases Nat.lt_trichotomy place i with hlt | rfl | hlt
      · obtain ⟨k, rfl⟩ := Nat.exists_eq_add_of_lt hlt
        have hshift : place + k + 1 - place = k + 1 := by omega
        have hrest : place + k + 1 - (place + 1) = k := by omega
        rw [if_neg (Nat.ne_of_lt hlt), if_pos (Nat.succ_le_of_lt hlt), if_pos (Nat.le_of_lt hlt),
          hshift, hrest, List.getElem?_cons_succ, Nat.add_zero]
      · rw [if_pos rfl, if_neg (Nat.not_succ_le_self place), if_pos (Nat.le_refl place),
          Nat.sub_self, List.getElem?_cons_zero]
        rfl
      · rw [if_neg (Nat.ne_of_gt hlt), if_neg (by omega), if_neg (by omega)]

structure Forgets (l : Log) (d : Draft) : Prop where
  members : l.entries.map (·.member) = d.members
  signatures : l.signatures.map (·.1) = d.signatures

theorem Forgets.close (h : l.Forgets d) (implementation : Option (Member × Nat)) :
    (l.close implementation).Forgets (d.close (implementation.map (·.1))) := by
  have hsignatures := h.signatures
  cases hl : l.signatures with
  | nil =>
      rw [hl, List.map_nil] at hsignatures
      rw [close_of_nil hl, Draft.close, ← hsignatures]
      exact h
  | cons first rest =>
      rw [hl, List.map_cons] at hsignatures
      rw [close_of_cons hl, Draft.close_of_cons hsignatures.symm]
      exact ⟨by simp [h.members], rfl⟩

theorem Forgets.addMethod_of_nil (h : l.Forgets d) (hnil : l.signatures = []) :
    (l.addMethod m place hasBody).Forgets (d.addMethod m hasBody) := by
  have hdraft : d.signatures = [] := by rw [← h.signatures, hnil, List.map_nil]
  rw [Log.addMethod_of_nil hnil, Draft.addMethod_of_nil hdraft]
  split
  · exact ⟨h.members, rfl⟩
  · exact ⟨by simp [Draft.addMember, h.members], h.signatures⟩

theorem Forgets.addMethod (h : l.Forgets d) :
    (l.addMethod m place hasBody).Forgets (d.addMethod m hasBody) := by
  cases hl : l.signatures with
  | nil => exact h.addMethod_of_nil hl
  | cons first rest =>
      have hdraft : d.signatures = first.1 :: rest.map (·.1) := by
        rw [← h.signatures, hl, List.map_cons]
      by_cases hname : first.1.name = m.name
      · rw [addMethod_of_name_eq hl hname, Draft.addMethod_of_name_eq hdraft hname]
        split
        · exact ⟨h.members, by simp [hl]⟩
        · exact h.close (some (m, place))
      · rw [addMethod_of_name_ne hl hname, Draft.addMethod_of_name_ne hdraft hname]
        exact (h.close none).addMethod_of_nil (l.signatures_close none)

theorem Forgets.add (h : l.Forgets d) (part : Part) : (l.add place part).Forgets (d.add part) := by
  cases part with
  | construct params properties =>
      exact ⟨by simp [Log.add, addValues, Draft.add, h.members, Function.comp_def], h.signatures⟩
  | field m =>
      exact ⟨by simp [Log.add, addValues, Draft.add, Draft.addMember, h.members], h.signatures⟩
  | method m hasBody => exact h.addMethod

theorem Forgets.run (h : l.Forgets d) (found : List (Option Part)) :
    (l.run place found).Forgets (found.reduceOption.foldl Draft.add d) := by
  induction found generalizing l d place with
  | nil => exact h
  | cons part found ih =>
      cases part with
      | none => exact ih h
      | some part => exact ih (h.add part)

end Log

def entriesOf (elements : List ClassElement) : List Entry :=
  match elements.mapM Part.ofElement? with
  | .ok found => Entry.pairAccessors ((Log.empty.run 0 found).close none).entries
  | .error _ => []

variable {config : Config} {kind : Export} {node : ClassNode} {candidate : Candidate}

theorem entries_of_node (h : ofNode? config kind node = .ok (some candidate)) :
    ∃ found, node.elements.mapM Part.ofElement? = .ok found ∧
      (entriesOf node.elements).map (·.member) = candidate.members := by
  obtain ⟨found, hfound, -, hmembers⟩ := parts_of_node h
  refine ⟨found, hfound, ?_⟩
  have hempty : Log.empty.Forgets Draft.empty := ⟨rfl, rfl⟩
  rw [hmembers, entriesOf, hfound, Entry.pairAccessors_members]
  exact congrArg Member.pairAccessors ((hempty.run found).close none).members

end Candidate

end ElementBridge
