import ElementBridge.Proofs.SourcePlaces

namespace ElementBridge

open ElementBridge.Tree

def Disk.exportScan? (disk : Disk) (p : Path) : Option ExportScan :=
  match SourceFile.read disk p with
  | .error _ => none
  | .ok file => (Module.ofText? file.text).map Module.exportScan

namespace Disk

variable (disk : Disk)

def targets (p : Path) (specifiers : List String) : List Path :=
  specifiers.filterMap (resolveSpecifier disk p.parent)

def ownExports (p : Path) : List String := (disk.exportScan? p).elim [] (·.exported)

def starTargets (p : Path) : List Path :=
  (disk.exportScan? p).elim [] fun scan => disk.targets p scan.stars

def references (p : Path) : List Path :=
  (disk.exportScan? p).elim [] fun scan => disk.targets p (scan.followed ++ scan.stars)

end Disk

theorem Disk.starTargets_subset (disk : Disk) (p : Path) :
    disk.starTargets p ⊆ disk.references p := by
  unfold Disk.starTargets Disk.references
  cases disk.exportScan? p with
  | none => exact List.Subset.refl _
  | some scan =>
      intro q hq
      simp only [Option.elim_some, Disk.targets, List.filterMap_append, List.mem_append] at hq ⊢
      exact .inr hq

theorem SourceFile.path_of_read {disk : Disk} {p : Path} {file : SourceFile}
    (h : SourceFile.read disk p = .ok file) : file.path = p := by
  unfold SourceFile.read at h
  simp only [bind_eq_ok, pure_eq_ok] at h
  obtain ⟨text, -, rfl⟩ := h
  rfl

namespace Path

theorem same_iff {p q : Path} : p.same q = true ↔ p.components = q.components := by
  simp [same]

theorem same_refl (p : Path) : p.same p = true := same_iff.2 rfl

theorem same_comm (p q : Path) : p.same q = q.same p := by
  rw [Bool.eq_iff_iff, same_iff, same_iff, eq_comm]

theorem same_trans {p q r : Path} (h : p.same q = true) (h' : q.same r = true) :
    p.same r = true :=
  same_iff.2 ((same_iff.1 h).trans (same_iff.1 h'))

end Path

namespace ModuleTable

variable {disk : Disk} {t : ModuleTable} {p q : Path} {x : String}

theorem find_path {m : LoadedModule} (h : t.find p = some m) : m.path.same p = true := by
  simpa using List.find?_some h

theorem find_eq_none : t.find p = none ↔ ∀ m ∈ t, m.path.same p = false := by
  simp [find]

theorem mem_addNew {names more : List String} : x ∈ addNew names more ↔ x ∈ names ∨ x ∈ more := by
  induction more generalizing names with
  | nil => simp [addNew]
  | cons y ys ih =>
      have hstep : x ∈ (if names.contains y then names else names ++ [y]) ↔ x ∈ names ∨ x = y := by
        split
        · next hy =>
            have hy' : y ∈ names := by simpa using hy
            exact ⟨.inl, fun h => h.elim id fun h => h ▸ hy'⟩
        · simp
      rw [addNew, List.foldl_cons, ← addNew, ih, hstep, List.mem_cons, or_assoc]

/-- The exports that a module is completed with: its own, and all that the table has for the
modules it passes on. -/
def passed (disk : Disk) (t : ModuleTable) (p : Path) : List String :=
  (disk.starTargets p).foldl (fun names q =>
    match t.find q with
    | some m => addNew names m.exported
    | none => names) (disk.ownExports p)

theorem mem_passed : x ∈ passed disk t p ↔
    x ∈ disk.ownExports p ∨ ∃ q ∈ disk.starTargets p, ∃ m, t.find q = some m ∧ x ∈ m.exported := by
  have hfold : ∀ (qs : List Path) (names : List String),
      x ∈ qs.foldl (fun names q =>
        match t.find q with
        | some m => addNew names m.exported
        | none => names) names
      ↔ x ∈ names ∨ ∃ q ∈ qs, ∃ m, t.find q = some m ∧ x ∈ m.exported := by
    intro qs
    induction qs with
    | nil => simp
    | cons q qs ih =>
        intro names
        rw [List.foldl_cons, ih]
        cases hq : t.find q with
        | none => simp [hq]
        | some m => simp [hq, mem_addNew, or_assoc]
  exact hfold _ _

theorem exportsThrough_eq {scan : ExportScan} (h : disk.exportScan? p = some scan) :
    t.exportsThrough disk p.parent scan = passed disk t p := by
  unfold exportsThrough passed Disk.starTargets Disk.ownExports Disk.targets
  rw [h, Option.elim_some, Option.elim_some, List.foldl_filterMap]
  congr 1
  funext names specifier
  cases resolveSpecifier disk p.parent specifier with
  | none => rfl
  | some q => cases hq : t.find q <;> simp [hq]

def complete (disk : Disk) (t : ModuleTable) (p : Path) : ModuleTable :=
  t.setExports p (passed disk t p)

theorem complete_eq_self (hscan : disk.exportScan? p = none)
    (h : ∀ m ∈ t, m.path.same p = true → m.exported = []) : complete disk t p = t := by
  have hpassed : passed disk t p = [] := by
    simp [passed, Disk.starTargets, Disk.ownExports, hscan]
  rw [complete, hpassed, setExports]
  refine (List.map_congr_left fun m hm => ?_).trans (List.map_id t)
  split
  · next hsame => rw [← h m hm hsame]; rfl
  · rfl

theorem load_known {m : LoadedModule} (depth : Nat) (h : t.find p = some m) :
    load disk depth t p = t := by
  cases depth with
  | zero => rfl
  | succ depth => exact if_pos (by rw [h]; rfl)

theorem load_fresh (depth : Nat) (h : t.find p = none) :
    load disk (depth + 1) t p
      = complete disk ((disk.references p).foldl (load disk depth) (t ++ [⟨p, []⟩])) p := by
  have unreadable (hscan : disk.exportScan? p = none) : t ++ [⟨p, []⟩]
      = complete disk ((disk.references p).foldl (load disk depth) (t ++ [⟨p, []⟩])) p := by
    have hnone : disk.references p = [] := by simp [Disk.references, hscan]
    rw [hnone, List.foldl_nil, complete_eq_self hscan]
    intro m hm hsame
    rcases List.mem_append.1 hm with hm | hm
    · exact absurd hsame (by simp [find_eq_none.1 h m hm])
    · rw [List.mem_singleton.1 hm]
  refine (if_neg (by simp [h])).trans ?_
  simp only
  cases hread : SourceFile.read disk p with
  | error f => exact unreadable (by simp [Disk.exportScan?, hread])
  | ok file =>
      simp only
      cases htree : Module.ofText? file.text with
      | none => exact unreadable (by simp [Disk.exportScan?, hread, htree])
      | some tree =>
          have hscan : disk.exportScan? p = some tree.exportScan := by
            simp [Disk.exportScan?, hread, htree]
          have hdir : file.directory = p.parent := by
            rw [SourceFile.directory, SourceFile.path_of_read hread]
          simp only
          rw [hdir, exportsThrough_eq hscan, complete, Disk.references, hscan, Option.elim_some,
            Disk.targets, List.foldl_filterMap]
          congr 3 <;>
            · funext t specifier
              cases resolveSpecifier disk p.parent specifier <;> rfl

end ModuleTable

end ElementBridge
