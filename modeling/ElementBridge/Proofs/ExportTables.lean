import ElementBridge.Proofs.LoadingDepth

/-!
The names that modules export, as the least family that their texts ask for, against the names that
loading leaves in the table: where the two agree, and where they do not.
-/

namespace ElementBridge

/-- The names of each module, the least family of sets that is closed under what modules pass on. A
default export is not passed on. -/
inductive Disk.Exported (disk : Disk) (modules : List Path) : Path → String → Prop where
  | own {p : Path} {x : String} : x ∈ disk.ownExports p → Exported disk modules p x
  | star {p q r : Path} {x : String} : q ∈ disk.starTargets p → r ∈ modules → r.same q = true →
      Exported disk modules r x → x ≠ "default" → Exported disk modules p x

namespace Disk

variable {disk : Disk} {modules before : List Path} {p q r : Path} {x : String}

theorem exported_default : disk.Exported modules p "default" ↔ "default" ∈ disk.ownExports p := by
  constructor
  · intro h
    cases h with
    | own hx => exact hx
    | star _ _ _ _ hx => exact absurd rfl hx
  · exact .own

theorem PassedOn.exported (h : disk.PassedOn before p x) (hmodules : before ⊆ modules)
    (hx : x ≠ "default") : disk.Exported modules p x := by
  induction h with
  | own hown => exact .own hown
  | star hq hsame hr ih =>
      have hbefore := (List.cons_subset.1 hmodules).2
      exact .star hq (hbefore hr.mem) hsame (ih hbefore hx) hx
  | later _ ih => exact ih (List.cons_subset.1 hmodules).2 hx

theorem PassedOn.of_ownExports (hp : p ∈ before) (hx : x ∈ disk.ownExports p) :
    disk.PassedOn before p x := by
  induction before with
  | nil => exact absurd hp List.not_mem_nil
  | cons q before ih =>
      rcases List.mem_cons.1 hp with rfl | hp
      · exact .own hx
      · exact .later (ih hp)

inductive Leads (disk : Disk) : Path → Path → Prop where
  | refers {p q r : Path} : q ∈ disk.references p → r.same q = true → Leads disk p r
  | onward {p q r s : Path} : Leads disk p q → r ∈ disk.references q → s.same r = true →
      Leads disk p s

/-- Each module is completed behind all that it refers to, but for modules that lead to it. -/
def Ordered (disk : Disk) (modules : List Path) : List Path → Prop
  | [] => True
  | p :: before => (∀ q ∈ disk.references p, ∃ r ∈ modules, r.same q = true ∧
      (r ∈ before ∨ disk.Leads r p)) ∧ Ordered disk modules before

theorem Ordered.mem (h : disk.Ordered modules before) (hp : p ∈ before)
    (hq : q ∈ disk.references p) :
    ∃ r ∈ modules, r.same q = true ∧ (r ∈ before ∨ disk.Leads r p) := by
  induction before with
  | nil => exact absurd hp List.not_mem_nil
  | cons first before ih =>
      rcases List.mem_cons.1 hp with rfl | hp
      · obtain ⟨r, hr, hsame, hbefore⟩ := h.1 q hq
        exact ⟨r, hr, hsame, hbefore.imp_left (List.mem_cons_of_mem _)⟩
      · obtain ⟨r, hr, hsame, hbefore⟩ := ih h.2 hp
        exact ⟨r, hr, hsame, hbefore.imp_left (List.mem_cons_of_mem _)⟩

theorem Ordered.passedOn_star (h : disk.Ordered modules before) (hnodup : before.Nodup)
    (hp : p ∈ before) (hq : q ∈ disk.starTargets p)
    (hforward : ∀ r' ∈ modules, r'.same q = true → r' = r ∧ ¬ disk.Leads r' p)
    (hx : disk.PassedOn before r x) : disk.PassedOn before p x := by
  have hq' := disk.starTargets_subset p hq
  -- back to where `p` was completed: all that it passes on was completed before
  induction before with
  | nil => exact absurd hp List.not_mem_nil
  | cons first before ih =>
      obtain ⟨hfirst, hnodup⟩ := List.nodup_cons.1 hnodup
      have earlier (r' : Path) (hr' : r' ∈ modules) (hsame : r'.same q = true)
          (hbefore : r' ∈ before ∨ disk.Leads r' p) : disk.PassedOn before r x := by
        obtain ⟨rfl, hback⟩ := hforward r' hr' hsame
        have hmem : r' ∈ before := hbefore.resolve_right hback
        exact (PassedOn.cons_of_ne fun heq : r' = first => hfirst (heq ▸ hmem)).1 hx
      by_cases heq : p = first
      · obtain ⟨r', hr', hsame, hbefore⟩ := h.1 q (heq ▸ hq')
        have hr := earlier r' hr' hsame (heq ▸ hbefore)
        obtain ⟨rfl, -⟩ := hforward r' hr' hsame
        exact heq ▸ .star hq hsame hr
      · have hp : p ∈ before := (List.mem_cons.1 hp).resolve_left heq
        obtain ⟨r', hr', hsame, hbefore⟩ := h.2.mem hp hq'
        exact .later (ih h.2 hnodup hp (earlier r' hr' hsame hbefore))

def PassesForward (disk : Disk) (modules : List Path) : Prop :=
  ∀ p ∈ modules, ∀ q ∈ disk.starTargets p, ∀ r ∈ modules, r.same q = true → ¬ disk.Leads r p

theorem Ordered.passedOn_of_exported (h : disk.Ordered modules modules) (hnodup : modules.Nodup)
    (hmet : disk.IsMet modules) (hforward : disk.PassesForward modules) (hp : p ∈ modules)
    (hx : disk.Exported modules p x) : disk.PassedOn modules p x := by
  induction hx with
  | own hx => exact .of_ownExports hp hx
  | @star p q r x hq hr hsame _ _ ih =>
      refine h.passedOn_star hnodup hp hq (fun r' hr' hsame' => ?_) (ih hr)
      have hboth := Path.same_trans hsame' (Path.same_comm _ _ ▸ hsame)
      exact ⟨hmet.eq_of_same hr' hr hboth, hforward p hp q hq r' hr' hsame'⟩

end Disk

namespace Loads

variable {disk : Disk} {s s' : Loading} {ps : List Path}

theorem ordered (h : Loads disk s ps s') {modules : List Path} (hmodules : s'.met ⊆ modules)
    (hopen : ∀ r ∈ s.met, r ∉ s.completed → ∀ p ∈ ps, disk.Leads r p)
    (hs : disk.Ordered modules s.completed) : disk.Ordered modules s'.completed := by
  -- `hopen` carries the induction: whatever is still in progress leads to all that is loaded next
  induction h with
  | done s => exact hs
  | known _ _ _ ih =>
      exact ih hmodules (fun r hr hr' p hp => hopen r hr hr' p (List.mem_cons_of_mem _ hp)) hs
  | @fresh s s₁ s' p rest hfresh hrefs hrest ih ih' =>
      have hleads : ∀ r ∈ s.met ++ [p], r ∉ s.completed → ∀ q ∈ disk.references p,
          disk.Leads r q := by
        intro r hr hr' q hq
        rcases List.mem_append.1 hr with hr | hr
        · exact .onward (hopen r hr hr' p List.mem_cons_self) hq (Path.same_refl q)
        · rw [List.mem_singleton.1 hr]
          exact .refers hq (Path.same_refl q)
      have hmodules₁ : s₁.met ⊆ modules := fun r hr => hmodules (hrest.met_isPrefix.subset hr)
      refine ih' hmodules ?_ ⟨?_, ih hmodules₁ hleads hs⟩
      · intro r hr hr' q hq
        have hr₁ : r ∉ s₁.completed := fun hmem => hr' (List.mem_cons_of_mem _ hmem)
        rcases hrefs.met_new hr with hr | hr
        · rcases List.mem_append.1 hr with hr | hr
          · have hopen' : r ∉ s.completed := fun hmem => hr₁ (hrefs.completed_suffix.subset hmem)
            exact hopen r hr hopen' q (List.mem_cons_of_mem _ hq)
          · exact absurd (List.mem_singleton.1 hr ▸ List.mem_cons_self) hr'
        · exact absurd hr hr₁
      · intro q hq
        obtain ⟨r, hr, hsame⟩ := hrefs.met_of_mem hq
        refine ⟨r, hmodules₁ hr, hsame, ?_⟩
        rcases hrefs.met_new hr with hr | hr
        · by_cases hdone : r ∈ s.completed
          · exact .inl (hrefs.completed_suffix.subset hdone)
          · rcases List.mem_append.1 hr with hr | hr
            · exact .inr (hopen r hr hdone p List.mem_cons_self)
            · obtain rfl := List.mem_singleton.1 hr
              exact .inr (.refers hq hsame)
        · exact .inl hr

theorem completed_nodup (h : Loads disk s ps s') (hsubset : s.completed ⊆ s.met)
    (hs : s.completed.Nodup) : s'.completed.Nodup ∧ s'.completed ⊆ s'.met := by
  induction h with
  | done s => exact ⟨hs, hsubset⟩
  | known _ _ _ ih => exact ih hsubset hs
  | @fresh s s₁ s' p rest hfresh hrefs _ ih ih' =>
      obtain ⟨hnodup, hsubset₁⟩ := ih (fun q hq => List.mem_append_left _ (hsubset hq)) hs
      have hmet : p ∈ s₁.met := hrefs.met_isPrefix.subset (List.mem_append_right _ List.mem_cons_self)
      have hp : p ∉ s₁.completed := by
        intro hmem
        rcases hrefs.completed_new hmem with hold | hnew
        · exact absurd (Path.same_refl p) (by simp [hfresh p (hsubset hold)])
        · exact hnew (List.mem_append_right _ List.mem_cons_self)
      exact ih' (List.cons_subset.2 ⟨hmet, hsubset₁⟩) (List.nodup_cons.2 ⟨hp, hnodup⟩)

end Loads

/-- What the table holds for a module when all are completed, the latest first: the names passed on
in that order. These are the exports of the module if no export is behind a module that was still in
progress and no default export is passed on; so whenever none is passed back. -/
structure Disk.Shows (disk : Disk) (completed : List Path) (p : Path) (names : List String) :
    Prop where
  passed : ∀ x, x ∈ names ↔ disk.PassedOn completed p x
  exported : ∀ x ∈ names, x ≠ "default" → disk.Exported completed p x
  exact_iff : (∀ x, x ∈ names ↔ disk.Exported completed p x) ↔
    (∀ x, disk.Exported completed p x → disk.PassedOn completed p x) ∧
      (disk.PassedOn completed p "default" → "default" ∈ disk.ownExports p)
  exact_of_forward : disk.PassesForward completed →
    ∀ x, x ≠ "default" → (x ∈ names ↔ disk.Exported completed p x)

theorem Disk.shows_of_loads {disk : Disk} {roots : List Path} {t : ModuleTable}
    {completed : List Path} (hloads : Loads disk ⟨[], []⟩ roots ⟨t.paths, completed⟩)
    (h : ModuleTable.Records disk t completed) {m : LoadedModule} (hm : m ∈ t) :
    disk.Shows completed m.path m.exported := by
  have hall : t.paths ⊆ completed := fun p hp =>
    (hloads.met_new hp).resolve_left List.not_mem_nil
  have hp : m.path ∈ completed := hall (ModuleTable.path_mem_paths hm)
  have hpassed (x : String) : x ∈ m.exported ↔ disk.PassedOn completed m.path x :=
    h.mem_exported_iff hm
  have hexported (x : String) (hx : x ∈ m.exported) (hne : x ≠ "default") :
      disk.Exported completed m.path x :=
    ((hpassed x).1 hx).exported (List.Subset.refl _) hne
  refine ⟨hpassed, hexported, ⟨?_, ?_⟩, ?_⟩
  · intro hexact
    refine ⟨fun x hx => (hpassed x).1 ((hexact x).2 hx), fun hx => ?_⟩
    exact exported_default.1 ((hexact _).1 ((hpassed _).2 hx))
  · rintro ⟨hcomplete, hdefault⟩ x
    refine ⟨fun hx => ?_, fun hx => (hpassed x).2 (hcomplete x hx)⟩
    by_cases hne : x = "default"
    · subst hne
      exact exported_default.2 (hdefault ((hpassed _).1 hx))
    · exact hexported x hx hne
  · intro hforward x hne
    refine ⟨fun hx => hexported x hx hne, fun hx => (hpassed x).2 ?_⟩
    have hnodup := (hloads.completed_nodup (List.Subset.refl _) List.nodup_nil).1
    have hordered := hloads.ordered hall (fun r hr => absurd hr List.not_mem_nil) trivial
    have hmet : disk.IsMet completed := by
      refine ⟨fun p hp => h.met.sources p (h.subset hp), hnodup.imp_of_mem ?_⟩
      intro q r hq hr hne
      by_contra hsame
      exact hne (h.met.eq_of_same (h.subset hq) (h.subset hr) (by simpa using hsame))
    exact hordered.passedOn_of_exported hnodup hmet hforward hp hx

namespace ModuleGraph

variable (disk : Disk) (file : SourceFile) (tree : Tree.Module)

theorem load_eq : load disk file tree =
    ⟨(tree.exportScan.followed.filterMap fun specifier =>
        (resolveSpecifier disk file.directory specifier).map (specifier, ·)).reverse,
      (disk.targets file.path tree.exportScan.followed).foldl
        (ModuleTable.load disk (chainBound disk)) []⟩ :=
  loadWithin_eq_foldl disk (chainBound disk) file tree

theorem lookup_entries {specifier : String} {p : Path}
    (hspecifier : specifier ∈ tree.exportScan.followed)
    (hp : resolveSpecifier disk file.directory specifier = some p) :
    (load disk file tree).entries.lookup specifier = some p := by
  have hlookup : ∀ entries : List (String × Path), (specifier, p) ∈ entries →
      (∀ q, (specifier, q) ∈ entries → q = p) → entries.lookup specifier = some p := by
    intro entries
    induction entries with
    | nil => exact fun hmem => absurd hmem List.not_mem_nil
    | cons entry entries ih =>
        rcases entry with ⟨key, q⟩
        intro hmem hunique
        by_cases hkey : key = specifier
        · subst hkey
          rw [hunique q List.mem_cons_self, List.lookup_cons_self]
        · rw [List.lookup_cons, beq_false_of_ne (Ne.symm hkey)]
          refine ih ?_ fun q hq => hunique q (List.mem_cons_of_mem _ hq)
          refine (List.mem_cons.1 hmem).resolve_left fun heq => ?_
          exact hkey (Prod.mk.inj heq).1.symm
  rw [load_eq]
  refine hlookup _ ?_ ?_
  · exact List.mem_reverse.2 (List.mem_filterMap.2 ⟨specifier, hspecifier, by rw [hp]; rfl⟩)
  · intro q hq
    obtain ⟨other, -, hother⟩ := List.mem_filterMap.1 (List.mem_reverse.1 hq)
    obtain ⟨r, hr, heq⟩ := Option.map_eq_some_iff.1 hother
    obtain ⟨rfl, rfl⟩ := Prod.mk.inj heq
    exact Option.some.inj (hr.symm.trans hp)

theorem exports_of_followed {specifier : String} {p : Path}
    (hspecifier : specifier ∈ tree.exportScan.followed)
    (hp : resolveSpecifier disk file.directory specifier = some p) :
    ∃ met completed, Loads disk ⟨[], []⟩ (disk.targets file.path tree.exportScan.followed)
        ⟨met, completed⟩ ∧
      ∃ q ∈ completed, q.same p = true ∧ ∃ names,
        (load disk file tree).exports? specifier = some names ∧ disk.Shows completed q names := by
  have hroots : ∀ p ∈ disk.targets file.path tree.exportScan.followed,
      disk.IsSource p ∧ disk.room (ModuleTable.paths []) p ≤ chainBound disk :=
    fun p hp => ⟨(Disk.isSource_of_mem_targets hp).1, Disk.room_le_chainBound⟩
  obtain ⟨completed, hrecords, hloads⟩ :=
    ModuleTable.follows_foldl (fun h hp hroom => ModuleTable.follows_load h hp hroom)
      (ModuleTable.Records.nil disk) hroots
  refine ⟨_, completed, hloads, ?_⟩
  have hroot : p ∈ disk.targets file.path tree.exportScan.followed :=
    List.mem_filterMap.2 ⟨specifier, hspecifier, hp⟩
  obtain ⟨q, hq, hsame⟩ := hloads.met_of_mem hroot
  obtain ⟨m, hm, rfl⟩ := ModuleTable.mem_paths.1 hq
  obtain ⟨m', hfind, hpath⟩ := hrecords.find_eq_some hm hsame
  have hm' := List.mem_of_find?_eq_some hfind
  refine ⟨m.path, (hloads.met_new hq).resolve_left List.not_mem_nil, hsame, m'.exported, ?_, ?_⟩
  · rw [exports?, lookup_entries disk file tree hspecifier hp, Option.bind_some, load_eq, hfind]
    rfl
  · exact hpath ▸ Disk.shows_of_loads hloads hrecords hm'

def indexDisk : Disk := ⟨[], [
  (["part.ts"], .file "import type \x7bZ\x7d from './index.js'; export interface A \x7b\x7d".toUTF8),
  (["index.ts"], .file "export * from './part.js';".toUTF8)]⟩

def indexEntry : SourceFile := ⟨⟨"a.ts"⟩,
  "import type \x7bA\x7d from './part.js'; import type \x7bA as B\x7d from './index.js';"⟩

theorem parse_indexEntry : ∃ tree, Tree.Module.ofText? indexEntry.text = some tree ∧
    tree.exportScan.followed = ["./part.js", "./index.js"] := by
  have h : (Tree.Module.ofText? indexEntry.text).map (·.exportScan.followed)
      = some ["./part.js", "./index.js"] := by decide +kernel
  simpa using h

theorem exports_of_followed_index : ∃ tree, Tree.Module.ofText? indexEntry.text = some tree ∧
    ∃ met completed,
      Loads indexDisk ⟨[], []⟩ (indexDisk.targets indexEntry.path tree.exportScan.followed)
        ⟨met, completed⟩ ∧
      ∃ q ∈ completed, q.same ⟨"./index.ts"⟩ = true ∧ ∃ names,
        (load indexDisk indexEntry tree).exports? "./index.js" = some names ∧
          indexDisk.Shows completed q names := by
  obtain ⟨tree, htree, hfollowed⟩ := parse_indexEntry
  have hspecifier : "./index.js" ∈ tree.exportScan.followed := by simp [hfollowed]
  exact ⟨tree, htree,
    exports_of_followed indexDisk indexEntry tree hspecifier (by decide +kernel)⟩

theorem exports_index_lack_part : ∃ tree, Tree.Module.ofText? indexEntry.text = some tree ∧
    (load indexDisk indexEntry tree).modules.paths = [⟨"./part.ts"⟩, ⟨"././index.ts"⟩] ∧
    (load indexDisk indexEntry tree).exports? "./index.js" = some [] ∧
    indexDisk.Exported (load indexDisk indexEntry tree).modules.paths ⟨"././index.ts"⟩ "A" := by
  have h : (Tree.Module.ofText? indexEntry.text).map (fun tree =>
      let g := load indexDisk indexEntry tree
      (g.modules.paths, g.exports? "./index.js"))
      = some ([⟨"./part.ts"⟩, ⟨"././index.ts"⟩], some []) := by decide +kernel
  obtain ⟨tree, htree, hload⟩ := Option.map_eq_some_iff.1 h
  obtain ⟨hpaths, hexports⟩ := Prod.mk.inj hload
  refine ⟨tree, htree, hpaths, hexports, ?_⟩
  rw [hpaths]
  have hpart : "A" ∈ indexDisk.ownExports ⟨"./part.ts"⟩ := by decide +kernel
  have hstar : ⟨"././part.ts"⟩ ∈ indexDisk.starTargets ⟨"././index.ts"⟩ := by decide +kernel
  exact .star hstar List.mem_cons_self (by decide +kernel) (.own hpart) (by decide)

end ModuleGraph

end ElementBridge
