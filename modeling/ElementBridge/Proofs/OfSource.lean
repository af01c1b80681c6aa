import ElementBridge.Proofs.CollectedDeclarations
import ElementBridge.Proofs.Reach

namespace ElementBridge

open ElementBridge.Tree

theorem Candidate.ofNode?_ok {config : Config} {kind : Export} {node : ClassNode} {c : Candidate}
    (h : ofNode? config kind node = .ok (some c)) :
    ∃ base name draft, node.base = some (.name base) ∧ config.isHostBase base = true ∧
      node.name = some name ∧ node.elements.foldlM Draft.addElement .empty = .ok draft ∧
      c = ⟨⟨name.text, base, kind, (draft.close none).constructorParams, none⟩,
        Member.pairAccessors (draft.close none).members⟩ := by
  unfold ofNode? at h
  split at h
  · next base hbase =>
      split at h
      · cases h
      · next hhost =>
          split at h
          · cases h
          · next name hname =>
              simp only [bind_eq_ok, pure_eq_ok, Option.some.injEq] at h
              obtain ⟨draft, hdraft, rfl⟩ := h
              exact ⟨base, name, draft, hbase, by simpa using hhost, hname, hdraft, rfl⟩
  · cases h

namespace Surface

variable {config : Config} {disk : Disk} {file : SourceFile} {m : Module} {s : Surface}

structure Origin (config : Config) (disk : Disk) (file : SourceFile) (m : Module) (s : Surface)
    where
  collected : Collected
  candidate : Candidate
  parsed : file.parse = .ok m
  collects : Collected.ofModule config m = .ok collected
  single : collected.candidates = [candidate]
  reaches : (setting config file (ModuleGraph.load disk file m) collected).reach
    (start file collected candidate).mentionBound (start file collected candidate).mentions
    (start file collected candidate) = .ok s
  reachable : (s.component.export = .unexported && s.component.isConstructed) = false

theorem checkReachable_ok {t : Surface} (h : checkReachable file s = .ok t) :
    t = s ∧ (s.component.export = .unexported && s.component.isConstructed) = false := by
  unfold checkReachable at h
  split at h
  · cases h
  · next hn =>
      cases h
      exact ⟨rfl, by simpa using hn⟩

theorem origin_of_ok (h : file.surface config disk = .ok s) :
    ∃ m, Nonempty (Origin config disk file m s) := by
  unfold SourceFile.surface at h
  rw [bind_eq_ok] at h
  obtain ⟨m, hp, h⟩ := h
  unfold Surface.ofModule at h
  simp only [bind_eq_ok, mapError_eq_ok] at h
  obtain ⟨c, hc, h⟩ := h
  unfold ofCollected at h
  split at h
  · next candidate hsingle =>
      rw [bind_eq_ok] at h
      obtain ⟨t, hr, h⟩ := h
      obtain ⟨rfl, hn⟩ := checkReachable_ok h
      exact ⟨m, ⟨⟨c, candidate, hp, hc, hsingle, hr, hn⟩⟩⟩
  · cases h

theorem origin_of_parse (hm : file.parse = .ok m) (h : file.surface config disk = .ok s) :
    Nonempty (Origin config disk file m s) := by
  obtain ⟨m', ⟨o⟩⟩ := origin_of_ok h
  cases hm.symm.trans o.parsed
  exact ⟨o⟩

theorem Origin.progress (o : Origin config disk file m s) :
    Setting.Progress (setting config file (ModuleGraph.load disk file m) o.collected)
      (start file o.collected o.candidate) [] s := by
  refine (Setting.Progress.start rfl rfl).reach ?_ o.reaches
  simp [Setting.weight, mentionBound, isReferenced, start]

theorem Origin.settled (o : Origin config disk file m s) {name : String}
    (hn : Reached s config.globalTypes name) : (s.resolve config.globalTypes name).isSome ∧
      ((s.localMeaning name).any Meaning.isType = true → name ∈ s.referenced) :=
  o.progress.settles (o.progress.same.symm.reached hn)

theorem Origin.reached (o : Origin config disk file m s) {name : String}
    (hn : name ∈ s.referenced) : Reached s config.globalTypes name :=
  o.progress.same.reached (o.progress.types name hn).1

end Surface

end ElementBridge
