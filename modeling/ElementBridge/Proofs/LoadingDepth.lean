import ElementBridge.Proofs.ModuleLoading

namespace ElementBridge

namespace ModuleTable

variable {disk : Disk} {t : ModuleTable} {completed : List Path} {p : Path} {depth deeper : Nat}

theorem foldl_load_deeper
    (hload : ∀ {t : ModuleTable} {completed : List Path} {p : Path}, Records disk t completed →
      disk.IsSource p → disk.room (paths t) p ≤ depth →
      load disk deeper t p = load disk depth t p)
    {ps : List Path} (h : Records disk t completed)
    (hps : ∀ p ∈ ps, disk.IsSource p ∧ disk.room (paths t) p ≤ depth) :
    ps.foldl (load disk deeper) t = ps.foldl (load disk depth) t := by
  induction ps generalizing t completed with
  | nil => rfl
  | cons p ps ih =>
      obtain ⟨⟨hp, hroom⟩, hps⟩ := List.forall_mem_cons.1 hps
      obtain ⟨completed₁, h₁, hloads₁⟩ := follows_load h hp hroom
      rw [List.foldl_cons, List.foldl_cons, hload h hp hroom]
      refine ih h₁ fun q hq => ?_
      obtain ⟨hq, hroom⟩ := hps q hq
      exact ⟨hq, (Disk.room_antitone hloads₁.met_isPrefix).trans hroom⟩

theorem load_deeper (h : Records disk t completed) (hp : disk.IsSource p)
    (hroom : disk.room (paths t) p ≤ depth) (hle : depth ≤ deeper) :
    load disk deeper t p = load disk depth t p := by
  induction depth generalizing t completed p deeper with
  | zero =>
      have hpos := Disk.room_pos h.met hp
      omega
  | succ depth ih =>
      cases hfind : t.find p with
      | some m => rw [load_known _ hfind, load_known _ hfind]
      | none =>
          obtain ⟨deeper, rfl⟩ : ∃ n, deeper = n + 1 := Nat.exists_eq_add_of_le' (by omega)
          have hfresh : ∀ q ∈ paths t, q.same p = false := by
            intro q hq
            obtain ⟨m, hm, rfl⟩ := mem_paths.1 hq
            exact find_eq_none.1 hfind m hm
          have hentered := h.enter hp hfresh
          have hmet : paths (t ++ [⟨p, []⟩]) = paths t ++ [p] := paths_snoc t _
          have hrefs : ∀ q ∈ disk.references p, disk.IsSource q ∧
              disk.room (paths (t ++ [⟨p, []⟩])) q ≤ depth := by
            intro q hq
            obtain ⟨hq, hbelow⟩ := Disk.isSource_of_mem_references hq
            have hlt := Disk.room_lt (hmet ▸ hentered.met) hq hbelow
            rw [hmet]
            exact ⟨hq, by omega⟩
          rw [load_fresh _ hfind, load_fresh _ hfind]
          refine congrArg (complete disk · p) (foldl_load_deeper ?_ hentered hrefs)
          intro t completed q h hq hroom
          exact ih h hq hroom (Nat.le_of_succ_le_succ hle)

end ModuleTable

namespace ModuleGraph

open ElementBridge.Tree

def loadWithin (disk : Disk) (depth : Nat) (file : SourceFile) (tree : Module) : ModuleGraph :=
  tree.exportScan.followed.foldl (fun g specifier =>
    match resolveSpecifier disk file.directory specifier with
    | some p => ⟨(specifier, p) :: g.entries, g.modules.load disk depth p⟩
    | none => g) ⟨[], []⟩

theorem foldl_eq (disk : Disk) (depth : Nat) (file : SourceFile)
    {step : ModuleGraph → String → ModuleGraph}
    (hsome : ∀ g specifier p, resolveSpecifier disk file.directory specifier = some p →
      step g specifier = ⟨(specifier, p) :: g.entries, g.modules.load disk depth p⟩)
    (hnone : ∀ g specifier, resolveSpecifier disk file.directory specifier = none →
      step g specifier = g) (specifiers : List String) (g : ModuleGraph) :
    specifiers.foldl step g =
      ⟨(specifiers.filterMap fun specifier =>
          (resolveSpecifier disk file.directory specifier).map (specifier, ·)).reverse ++ g.entries,
        (disk.targets file.path specifiers).foldl
          (ModuleTable.load disk depth) g.modules⟩ := by
  induction specifiers generalizing g with
  | nil => rfl
  | cons specifier rest ih =>
      rw [List.foldl_cons, ih]
      have hdir : file.path.parent = file.directory := rfl
      cases hresolve : resolveSpecifier disk file.directory specifier with
      | none => simp [Disk.targets, hdir, hresolve, hnone g specifier hresolve]
      | some p => simp [Disk.targets, hdir, hresolve, hsome g specifier p hresolve]

theorem loadWithin_eq_foldl (disk : Disk) (depth : Nat) (file : SourceFile) (tree : Module) :
    loadWithin disk depth file tree =
      ⟨(tree.exportScan.followed.filterMap fun specifier =>
          (resolveSpecifier disk file.directory specifier).map (specifier, ·)).reverse,
        (disk.targets file.path tree.exportScan.followed).foldl
          (ModuleTable.load disk depth) []⟩ := by
  unfold loadWithin
  rw [foldl_eq disk depth file]
  · rw [List.append_nil]
  · intro g specifier p h
    rw [h]
  · intro g specifier h
    rw [h]

theorem loadWithin_eq {disk : Disk} {depth : Nat} (h : chainBound disk ≤ depth)
    (file : SourceFile) (tree : Module) : loadWithin disk depth file tree = load disk file tree := by
  have hfold : ∀ (specifiers : List String) (g : ModuleGraph),
      (∃ completed, ModuleTable.Records disk g.modules completed) →
      specifiers.foldl (fun g specifier =>
        match resolveSpecifier disk file.directory specifier with
        | some p => ⟨(specifier, p) :: g.entries, g.modules.load disk depth p⟩
        | none => g) g
      = specifiers.foldl (fun g specifier =>
        match resolveSpecifier disk file.directory specifier with
        | some p => ⟨(specifier, p) :: g.entries, g.modules.load disk (chainBound disk) p⟩
        | none => g) g := by
    intro specifiers
    induction specifiers with
    | nil => exact fun g _ => rfl
    | cons specifier rest ih =>
        rintro g ⟨completed, hg⟩
        rw [List.foldl_cons, List.foldl_cons]
        cases hresolve : resolveSpecifier disk file.directory specifier with
        | none => exact ih g ⟨completed, hg⟩
        | some p =>
            have hp := (Disk.isSource_of_resolveSpecifier hresolve).1
            have hdeeper := ModuleTable.load_deeper hg hp Disk.room_le_chainBound h
            obtain ⟨completed', hg', -⟩ := ModuleTable.follows_load hg hp Disk.room_le_chainBound
            simp only [hdeeper]
            exact ih _ ⟨completed', hg'⟩
  exact hfold _ _ ⟨[], .nil disk⟩

end ModuleGraph

end ElementBridge
