import ElementBridge.Proofs.ImportedNames
import ElementBridge.Proofs.OfSource

namespace ElementBridge

open ElementBridge.Tree

inductive Tree.Module.ExportsClass (m : Module) : String → String → Prop where
  | named {node : ClassNode} {name : Name} : .exportDeclaration (.classDef node) ∈ m →
      node.name = some name → ExportsClass m name.text name.text
  | default {node : ClassNode} {name : Name} : .exportDefault (some node) ∈ m →
      node.name = some name → ExportsClass m name.text "default"

namespace Candidate

variable {config : Config} {kind : Export} {node : ClassNode} {c : Candidate}

theorem ofNode_named (h : ofNode? config kind node = .ok (some c)) :
    c.component.export = kind ∧ ∃ name, node.name = some name ∧ c.component.name = name.text := by
  obtain ⟨-, name, -, -, -, hname, -, rfl⟩ := ofNode?_ok h
  exact ⟨rfl, name, hname, rfl⟩

end Candidate

namespace Collected

variable {config : Config} {m : Module} {c c' : Collected}

def Exported (m : Module) (c : Collected) : Prop :=
  ∀ candidate ∈ c.candidates, candidate.component.export ≠ .unexported →
    m.ExportsClass candidate.component.name candidate.component.exportName

theorem exportsClass_of_declaresClass {kind : Export} {node : ClassNode} {st : Statement}
    (hst : st ∈ m) (hclass : st.DeclaresClass kind node) {candidate : Candidate}
    (hcandidate : Candidate.ofNode? config kind node = .ok (some candidate))
    (hexported : candidate.component.export ≠ .unexported) :
    m.ExportsClass candidate.component.name candidate.component.exportName := by
  obtain ⟨hkind, name, hname, hcomponent⟩ := Candidate.ofNode_named hcandidate
  unfold Component.exportName
  rw [hkind] at hexported ⊢
  rw [hcomponent]
  cases hclass with
  | unexported => exact absurd rfl hexported
  | named => exact .named hst hname
  | default => exact .default hst hname

theorem Exported.adds (h : c.Exported m) {st : Statement} (hst : st ∈ m)
    (hc : Adds config c st c') : c'.Exported m := by
  cases hc with
  | importFrom _ => exact h
  | interface _ _ _ => exact h
  | «alias» _ _ _ => exact h
  | enum _ _ => exact h
  | obstacle _ => exact h
  | @classDef _ _ found _ hclass hfound =>
      intro candidate hcandidate hexported
      rcases List.mem_append.1 hcandidate with hcandidate | hcandidate
      · exact h candidate hcandidate hexported
      · obtain rfl : found = some candidate := by simpa using hcandidate
        exact exportsClass_of_declaresClass hst hclass hfound hexported
  | registrations _ => exact h
  | nothing _ => exact h

theorem exported_ofModule (hc : ofModule config m = .ok c) : c.Exported m :=
  foldlM_keeps (fun _ hst _ _ h hc => Exported.adds h hst (addStatement_ok hc))
    (fun _ hcandidate => absurd hcandidate List.not_mem_nil) hc

end Collected

namespace Surface

variable {config : Config} {disk : Disk} {file : SourceFile} {m : Module} {s : Surface}

theorem exportsClass_of_surface (hm : file.parse = .ok m) (hs : file.surface config disk = .ok s)
    (he : s.component.export ≠ .unexported) :
    m.ExportsClass s.component.name s.component.exportName := by
  obtain ⟨o⟩ := origin_of_parse hm hs
  have hexported := Collected.exported_ofModule o.collects o.candidate (by simp [o.single])
  rw [o.progress.same.component] at he ⊢
  exact hexported he

theorem exported_of_isConstructed (hs : file.surface config disk = .ok s)
    (hc : s.component.isConstructed = true) : s.component.export ≠ .unexported := by
  obtain ⟨_, ⟨o⟩⟩ := origin_of_ok hs
  intro he
  simpa [he, hc] using o.reachable

theorem fileName_of_surface (hs : file.surface config disk = .ok s) :
    s.fileName = file.path.stem := by
  obtain ⟨_, ⟨o⟩⟩ := origin_of_ok hs
  exact o.progress.same.fileName

end Surface

end ElementBridge
