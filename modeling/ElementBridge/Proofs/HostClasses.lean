import ElementBridge.Proofs.ModuleParts
import ElementBridge.Proofs.OfSource

namespace ElementBridge

open ElementBridge.Tree

def Tree.ClassNode.isHost (config : Config) (node : ClassNode) : Bool :=
  match node.base with
  | some (.name base) => config.isHostBase base
  | _ => false

namespace Tree.Module

def hosts (config : Config) (m : Module) : List (Export × ClassNode) :=
  m.classes.filter fun c => c.2.isHost config

def hostNames (config : Config) (m : Module) : List String :=
  (m.hosts config).filterMap fun c => c.2.name.map Name.text

/-- Why the first host class that cannot be lowered cannot. One without a name never can. -/
def firstRefusal (config : Config) (m : Module) : Option Refusal :=
  (m.hosts config).findSome? (failureOf ∘ Candidate.ofClass? config)

end Tree.Module

namespace Candidate

variable {config : Config} {c : Export × ClassNode} {found : Option Candidate}

theorem ofClass?_of_not_isHost (h : c.2.isHost config = false) : ofClass? config c = .ok none := by
  unfold ClassNode.isHost at h
  unfold ofClass? ofNode?
  split
  · next base hbase =>
      rw [hbase] at h
      simp [h]
  · rfl

theorem ofClass?_ok_of_isHost (h : c.2.isHost config = true)
    (hfound : ofClass? config c = .ok found) :
    ∃ candidate name, found = some candidate ∧ c.2.name = some name ∧
      candidate.component.name = name.text := by
  unfold ClassNode.isHost at h
  unfold ofClass? ofNode? at hfound
  split at h
  · next base hbase =>
      simp only [hbase, h] at hfound
      split at hfound
      · simp at *
      · split at hfound
        · cases hfound
        · next name hname =>
            simp only [bind_eq_ok, pure_eq_ok] at hfound
            obtain ⟨draft, -, rfl⟩ := hfound
            exact ⟨_, name, rfl, hname, rfl⟩
  · cases h

end Candidate

namespace Tree.Module

variable {config : Config} {classes : List (Export × ClassNode)} {found : List (Option Candidate)}

theorem findSome?_hosts (config : Config) (m : Module) :
    m.classes.findSome? (failureOf ∘ Candidate.ofClass? config) = m.firstRefusal config := by
  unfold firstRefusal hosts
  induction m.classes with
  | nil => rfl
  | cons c rest ih =>
      cases hhost : c.2.isHost config with
      | true => simp [List.findSome?_cons, hhost, ih]
      | false =>
          simp [hhost, ih, Candidate.ofClass?_of_not_isHost hhost, failureOf]

theorem candidates_of_found (h : classes.map (Candidate.ofClass? config) = found.map .ok) :
    (classes.filter fun c => c.2.isHost config).map (Candidate.ofClass? config)
      = found.reduceOption.map fun candidate => .ok (some candidate) := by
  induction classes generalizing found with
  | nil =>
      obtain rfl : found = [] := by simpa using h.symm
      rfl
  | cons c rest ih =>
      obtain ⟨o, os, rfl⟩ : ∃ o os, found = o :: os := by
        cases found with
        | nil => simp at h
        | cons o os => exact ⟨o, os, rfl⟩
      obtain ⟨ho, hos⟩ := List.cons.inj h
      cases hhost : c.2.isHost config with
      | true =>
          obtain ⟨candidate, name, rfl, -, -⟩ := Candidate.ofClass?_ok_of_isHost hhost ho
          simp [hhost, ho, List.reduceOption_cons_of_some, ih hos]
      | false =>
          obtain rfl : none = o :=
            Except.ok.inj ((Candidate.ofClass?_of_not_isHost hhost).symm.trans ho)
          simp [hhost, List.reduceOption_cons_of_none, ih hos]

theorem names_of_candidates {candidates : List Candidate} {hosts : List (Export × ClassNode)}
    (hhosts : ∀ c ∈ hosts, c.2.isHost config = true)
    (h : hosts.map (Candidate.ofClass? config)
      = candidates.map fun candidate => .ok (some candidate)) :
    candidates.map (·.component.name) = hosts.filterMap fun c => c.2.name.map Name.text := by
  induction hosts generalizing candidates with
  | nil =>
      obtain rfl : candidates = [] := by simpa using h.symm
      rfl
  | cons c rest ih =>
      obtain ⟨candidate, more, rfl⟩ : ∃ candidate more, candidates = candidate :: more := by
        cases candidates with
        | nil => simp at h
        | cons candidate more => exact ⟨candidate, more, rfl⟩
      obtain ⟨hc, hrest⟩ := List.cons.inj h
      obtain ⟨hhost, hhosts⟩ := List.forall_mem_cons.1 hhosts
      obtain ⟨_, name, hsome, hname, hcandidate⟩ := Candidate.ofClass?_ok_of_isHost hhost hc
      obtain rfl := Option.some.inj hsome
      simp [hname, hcandidate, ih hhosts hrest]

end Tree.Module

namespace Surface

variable {config : Config} {disk : Disk} {file : SourceFile} {m : Module} {s : Surface}

theorem Origin.collected_eq (o : Origin config disk file m s) :
    (∃ found, m.classes.mapM (Candidate.ofClass? config) = .ok found ∧
      found.reduceOption = [o.candidate]) ∧ o.collected = m.collected [o.candidate] := by
  have hcollects := o.collects
  rw [Collected.ofModule_eq, bind_eq_ok] at hcollects
  obtain ⟨found, hfound, hcollected⟩ := hcollects
  have hcollected := (Except.ok.inj hcollected).symm
  have hsingle : found.reduceOption = [o.candidate] := by
    rw [← o.single, hcollected]
    rfl
  exact ⟨⟨found, hfound, hsingle⟩, hsingle ▸ hcollected⟩

theorem Origin.host (o : Origin config disk file m s) :
    ∃ kind node, m.hosts config = [(kind, node)] ∧
      Candidate.ofNode? config kind node = .ok (some o.candidate) ∧
      s.members = o.candidate.members := by
  obtain ⟨⟨found, hfound, hsingle⟩, -⟩ := o.collected_eq
  have hhosts := Tree.Module.candidates_of_found (mapM_eq_ok.1 hfound)
  rw [hsingle, List.map_singleton] at hhosts
  obtain ⟨⟨kind, node⟩, hhost, hlowered⟩ := List.map_eq_singleton_iff.1 hhosts
  exact ⟨kind, node, hhost, hlowered, o.progress.same.members⟩

end Surface

end ElementBridge
