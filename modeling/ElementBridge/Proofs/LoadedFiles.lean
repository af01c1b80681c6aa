import ElementBridge.Proofs.FirstOccurrences
import ElementBridge.Proofs.LoadingDepth
import ElementBridge.Proofs.WrittenSources

/-!
How often the files of a disk are loaded. Modules are told apart by the spelling of their paths, so
a file is loaded once where no specifier climbs with `..`, and once for each detour otherwise.
-/

namespace ElementBridge

open ElementBridge.Tree
open ElementBridge.Path

/-! ### Specifiers that do not climb -/

def climbs (specifier : String) : Bool := (split specifier.toList).contains ['.', '.']

def Path.start (dir : Path) : List Path.Component :=
  if dir.text = "" then [.here] else dir.components

theorem Path.start_ne_nil (dir : Path) : start dir ≠ [] := by
  unfold start
  split
  · exact List.cons_ne_nil _ _
  · next hne =>
      rw [components_eq]
      exact componentsOf_ne_nil (by simpa using hne)

theorem Path.start_of_components {dir : Path} (h : dir.components ≠ []) :
    start dir = dir.components := by
  refine if_neg fun hempty => h ?_
  simp [hempty, components, body, split, componentOf]

theorem join_level (dir : Path) {specifier : String} (h : isRelative specifier = true)
    (hlevel : climbs specifier = false) :
    ∃ head rest, (dir.join ⟨specifier⟩).text.toList = head ++ '/' :: rest ∧ head ≠ [] ∧
      componentsOf head = start dir ∧ ['.', '.'] ∉ split rest := by
  rw [isRelative, Bool.or_eq_true, List.isPrefixOf_iff_prefix, List.isPrefixOf_iff_prefix] at h
  have hpieces : ['.', '.'] ∉ split specifier.toList := by simpa [climbs] using hlevel
  obtain ⟨rest, hspec⟩ : "./".toList <+: specifier.toList := by
    refine h.resolve_right ?_
    rintro ⟨rest, hrest⟩
    refine hpieces ?_
    rw [← hrest]
    exact List.mem_of_mem_head? rfl
  have hspec : specifier.toList = '.' :: '/' :: rest := hspec.symm
  have hrest : ['.', '.'] ∉ split rest := by
    have hsplit : split specifier.toList = split ['.'] ++ split rest := by
      rw [hspec]
      exact split_append_slash ['.'] rest
    exact fun hmem => hpieces (hsplit ▸ List.mem_append_right _ hmem)
  have hrelative : isAbsolute ⟨specifier⟩ = false := by
    simp [isAbsolute, hspec]
  have trivially {text : List Char} (hne : text ≠ []) :
      componentsOf (text ++ '/' :: ['.']) = componentsOf text := by
    simp [componentsOf_append_slash hne, split, componentOf]
  unfold start
  by_cases hempty : dir.text = ""
  · refine ⟨['.'], rest, by simp [join, hempty, hspec], List.cons_ne_nil _ _, ?_, hrest⟩
    rw [if_pos hempty]
    rfl
  · rw [if_neg hempty, components_eq]
    by_cases hends : dir.text.toList.getLast? = some '/'
    · obtain ⟨before, hbefore⟩ := List.getLast?_eq_some_iff.1 hends
      refine ⟨before ++ '/' :: ['.'], rest, ?_, by simp, ?_, hrest⟩
      · simp [join, hempty, hrelative, hbefore, hspec]
      · rw [hbefore]
        cases before with
        | nil => rfl
        | cons c before =>
            rw [trivially (List.cons_ne_nil _ _), componentsOf_append_slash (List.cons_ne_nil _ _)]
            simp [split, componentOf]
    · refine ⟨dir.text.toList ++ '/' :: ['.'], rest, ?_, by simp, ?_, hrest⟩
      · simp [join, hempty, hrelative, hends, hspec]
      · exact trivially (by simpa using hempty)

theorem componentOf_eq_name {piece : List Char} {k : Path.Component}
    (h : componentOf piece = some k) (hup : piece ≠ ['.', '.']) : ∃ s, k = .name s := by
  rw [componentOf, if_neg hup] at h
  split at h
  · cases h
  · exact ⟨_, (Option.some.inj h).symm⟩

theorem filterMap_componentOf_level {pieces : List (List Char)} (h : ['.', '.'] ∉ pieces) :
    ∃ names : List String, pieces.filterMap componentOf = names.map .name := by
  induction pieces with
  | nil => exact ⟨[], rfl⟩
  | cons piece pieces ih =>
      obtain ⟨hpiece, hpieces⟩ := not_or.1 (mt List.mem_cons.2 h)
      obtain ⟨names, hnames⟩ := ih hpieces
      cases hk : componentOf piece with
      | none => exact ⟨names, by rw [List.filterMap_cons_none hk, hnames]⟩
      | some k =>
          obtain ⟨s, rfl⟩ := componentOf_eq_name hk (Ne.symm hpiece)
          exact ⟨s :: names, by rw [List.filterMap_cons_some hk, hnames]; rfl⟩

def Path.IsBelow (dir p : Path) : Prop :=
  ∃ (names : List String) (last : String),
    p.components = start dir ++ names.map .name ++ [.name last]

theorem isBelow_of_resolveSpecifier {disk : Disk} {dir p : Path} {specifier : String}
    (h : resolveSpecifier disk dir specifier = some p) (hlevel : climbs specifier = false) :
    IsBelow dir p := by
  unfold resolveSpecifier at h
  split at h
  · next hrelative =>
      obtain ⟨head, rest, hbase, hhead, hstart, hrest⟩ := join_level dir hrelative hlevel
      obtain ⟨tail, htext, ⟨stem, rfl⟩, hkept⟩ :=
        exists_tail_of_candidate hbase (List.mem_of_find?_eq_some h)
      have hslash : '/' ∉ sourceSuffix := by decide
      obtain ⟨pieces, last, hs⟩ := split_append_of_noSlash stem hslash
      rw [hs, List.dropLast_concat] at hkept
      obtain ⟨names, hnames⟩ := filterMap_componentOf_level fun hmem => hrest (hkept hmem)
      refine ⟨names, String.ofList (last ++ sourceSuffix), ?_⟩
      rw [components_eq, htext, componentsOf_append_slash hhead, hs, List.filterMap_append,
        List.filterMap_cons_some (componentOf_source last), List.filterMap_nil, hnames, hstart,
        List.append_assoc]
  · exact absurd h (by simp)

theorem Path.IsBelow.trans {dir p q : Path} (hp : IsBelow dir p) (hq : IsBelow p.parent q) :
    IsBelow dir q := by
  obtain ⟨names, last, hp⟩ := hp
  obtain ⟨names', last', hq⟩ := hq
  have hparent := components_parent hp
  have hne : p.parent.components ≠ [] := by
    rw [hparent]
    exact fun hnil => start_ne_nil dir (List.append_eq_nil_iff.1 hnil).1
  refine ⟨names ++ names', last', ?_⟩
  rw [hq, start_of_components hne, hparent, List.map_append, List.append_assoc (start dir)]

namespace Disk

variable {disk : Disk}

theorem foldl_enter_names (here : Location) (names : List String) :
    (names.map Path.Component.name).foldl enter here = here ++ names := by
  induction names generalizing here with
  | nil => exact (List.append_nil here).symm
  | cons s names ih =>
      rw [List.map_cons, List.foldl_cons, ih, enter, List.append_assoc, List.singleton_append]

theorem same_of_isBelow {dir p q : Path} (hp : IsBelow dir p) (hq : IsBelow dir q)
    (h : disk.place p = disk.place q) : p.same q = true := by
  obtain ⟨names, last, hp⟩ := hp
  obtain ⟨names', last', hq⟩ := hq
  have flat (names : List String) (last : String) : dir.start ++ names.map .name ++ [.name last]
      = dir.start ++ (names ++ [last]).map .name := by
    rw [List.map_append, List.append_assoc]
    rfl
  rw [flat] at hp hq
  rw [place_eq, place_eq, hp, hq, List.foldl_append, List.foldl_append, foldl_enter_names,
    foldl_enter_names] at h
  rw [same_iff, hp, hq, List.append_cancel_left h]

/-- The paths that a source in a directory leads to, through specifiers of which `Q` holds. -/
inductive Reaches (disk : Disk) (Q : String → Prop) (dir : Path) (specifiers : List String) :
    Path → Prop where
  | first {specifier : String} {p : Path} : specifier ∈ specifiers → Q specifier →
      resolveSpecifier disk dir specifier = some p → Reaches disk Q dir specifiers p
  | onward {specifier : String} {scan : ExportScan} {p q : Path} :
      Reaches disk Q dir specifiers p → disk.exportScan? p = some scan →
      specifier ∈ scan.followed ++ scan.stars → Q specifier →
      resolveSpecifier disk p.parent specifier = some q → Reaches disk Q dir specifiers q

def Meets (disk : Disk) (dir : Path) (specifiers : List String) (p : Path) : Prop :=
  disk.Reaches (fun _ => True) dir specifiers p

def MeetsDown (disk : Disk) (dir : Path) (specifiers : List String) (p : Path) : Prop :=
  disk.Reaches (climbs · = false) dir specifiers p

inductive Asks (disk : Disk) (dir : Path) (specifiers : List String) : Path → String → Prop where
  | source {specifier : String} : specifier ∈ specifiers → Asks disk dir specifiers dir specifier
  | module {specifier : String} {scan : ExportScan} {p : Path} : disk.Meets dir specifiers p →
      disk.exportScan? p = some scan → specifier ∈ scan.followed ++ scan.stars →
      Asks disk dir specifiers p.parent specifier

variable {dir : Path} {specifiers : List String} {p q : Path}

theorem MeetsDown.isBelow (h : disk.MeetsDown dir specifiers p) : IsBelow dir p := by
  induction h with
  | first _ hlevel hresolve => exact isBelow_of_resolveSpecifier hresolve hlevel
  | onward _ _ _ hlevel hresolve ih =>
      exact ih.trans (isBelow_of_resolveSpecifier hresolve hlevel)

theorem MeetsDown.same_of_place (hp : disk.MeetsDown dir specifiers p)
    (hq : disk.MeetsDown dir specifiers q) (h : disk.place p = disk.place q) : p.same q = true :=
  same_of_isBelow hp.isBelow hq.isBelow h

/-- No specifier climbs that leads a source to a module, or one of its modules to another. -/
def StaysLevel (disk : Disk) (dir : Path) (specifiers : List String) : Prop :=
  ∀ start specifier p, disk.Asks dir specifiers start specifier →
    resolveSpecifier disk start specifier = some p → climbs specifier = false

theorem StaysLevel.meetsDown (h : disk.StaysLevel dir specifiers)
    (hp : disk.Meets dir specifiers p) : disk.MeetsDown dir specifiers p := by
  induction hp with
  | first hmem _ hresolve => exact .first hmem (h _ _ _ (.source hmem) hresolve) hresolve
  | onward hp hscan hmem _ hresolve ih =>
      exact .onward ih hscan hmem (h _ _ _ (.module hp hscan hmem) hresolve) hresolve

def holdsFile (disk : Disk) (l : Location) : Bool :=
  match disk.node? l with
  | some (.file _) => true
  | _ => false

def files (disk : Disk) : List Location := (disk.entries.map (·.1)).eraseDups.filter disk.holdsFile

theorem nodup_files (disk : Disk) : disk.files.Nodup :=
  (FirstOccurrences.nodup_eraseDups _).filter _

theorem mem_files {l : Location} :
    l ∈ disk.files ↔ ∃ content, disk.node? l = some (.file content) := by
  have holds : disk.holdsFile l = true ↔ ∃ content, disk.node? l = some (.file content) := by
    unfold holdsFile
    split
    · next content hnode => exact ⟨fun _ => ⟨content, hnode⟩, fun _ => rfl⟩
    · next hother => exact ⟨nofun, fun ⟨content, hnode⟩ => absurd hnode (hother content)⟩
  rw [files, List.mem_filter, List.mem_eraseDups, holds]
  refine ⟨And.right, fun h => ⟨?_, h⟩⟩
  obtain ⟨content, hnode⟩ := h
  unfold node? at hnode
  split at hnode
  · cases hnode
  · obtain ⟨before, after, hentries, -⟩ := List.lookup_eq_some_iff.1 hnode
    simp [hentries]

theorem node?_of_isFile (h : disk.isFile p = true) :
    ∃ content, disk.node? (disk.place p) = some (.file content) := by
  unfold isFile at h
  split at h
  · next content hlookup =>
      rw [lookup, bind_eq_ok] at hlookup
      obtain ⟨l, hl, hnode⟩ := hlookup
      obtain ⟨rfl, -⟩ := locate_eq hl
      split at hnode
      · next n hn => exact ⟨content, pure_eq_ok.1 hnode ▸ hn⟩
      · cases hnode
  · cases h

theorem place_mem_files (h : disk.isFile p = true) : disk.place p ∈ disk.files :=
  mem_files.2 (node?_of_isFile h)

structure Encloses (disk : Disk) (P : Path → Prop) : Prop where
  source : ∀ p, P p → disk.IsSource p
  references : ∀ p, P p → ∀ q ∈ disk.references p, P q

theorem encloses_meets (disk : Disk) (dir : Path) (specifiers : List String) :
    disk.Encloses (disk.Meets dir specifiers) where
  source p h := by
    cases h with
    | first _ _ hresolve => exact (isSource_of_resolveSpecifier hresolve).1
    | onward _ _ _ _ hresolve => exact (isSource_of_resolveSpecifier hresolve).1
  references p h q hq := by
    unfold Disk.references at hq
    cases hscan : disk.exportScan? p with
    | none => simp [hscan] at hq
    | some scan =>
        rw [hscan, Option.elim_some] at hq
        obtain ⟨specifier, hmem, hresolve⟩ := List.mem_filterMap.1 hq
        exact .onward h hscan hmem trivial hresolve

end Disk

namespace ModuleTable

variable {disk : Disk} {P : Path → Prop} {t : ModuleTable} {p : Path} {depth deeper : Nat}

/-- The modules of a table are files of which `P` holds, each in one spelling. -/
structure Within (disk : Disk) (P : Path → Prop) (t : ModuleTable) : Prop where
  met : disk.IsMet (paths t)
  all : ∀ p ∈ paths t, P p

theorem Within.nil : Within disk P [] where
  met := (Records.nil disk).met
  all _ hp := absurd hp List.not_mem_nil

theorem fresh_of_find (h : t.find p = none) : ∀ q ∈ paths t, q.same p = false := by
  intro q hq
  obtain ⟨m, hm, rfl⟩ := mem_paths.1 hq
  exact find_eq_none.1 h m hm

theorem Within.snoc (h : Within disk P t) (hP : disk.Encloses P) (hp : P p)
    (hfind : t.find p = none) : Within disk P (t ++ [⟨p, []⟩]) := by
  constructor
  · rw [paths_snoc]
    exact h.met.snoc (hP.source p hp) (fresh_of_find hfind)
  · rw [paths_snoc]
    exact List.forall_mem_append.2 ⟨h.all, List.forall_mem_singleton.2 hp⟩

theorem Within.load (h : Within disk P t) (hP : disk.Encloses P) (hp : P p) (depth : Nat) :
    paths t <+: paths (ModuleTable.load disk depth t p) ∧
      Within disk P (ModuleTable.load disk depth t p) := by
  induction depth generalizing t p with
  | zero => exact ⟨List.prefix_refl _, h⟩
  | succ depth ih =>
      cases hfind : t.find p with
      | some m =>
          rw [load_known _ hfind]
          exact ⟨List.prefix_refl _, h⟩
      | none =>
          have hloaded : paths t <+: paths ((disk.references p).foldl
                (ModuleTable.load disk depth) (t ++ [⟨p, []⟩])) ∧
              Within disk P ((disk.references p).foldl
                (ModuleTable.load disk depth) (t ++ [⟨p, []⟩])) := by
            refine List.foldlRecOn (disk.references p) (ModuleTable.load disk depth)
              (motive := fun t' => paths t <+: paths t' ∧ Within disk P t') ?_ ?_
            · rw [paths_snoc]
              exact ⟨List.prefix_append _ _, h.snoc hP hp hfind⟩
            · intro t' ht' q hq
              have hstep := ih ht'.2 (hP.references p hp q hq)
              exact ⟨ht'.1.trans hstep.1, hstep.2⟩
          rw [load_fresh _ hfind]
          have hpaths := Records.paths_complete disk
            ((disk.references p).foldl (ModuleTable.load disk depth) (t ++ [⟨p, []⟩])) p
          exact ⟨hpaths ▸ hloaded.1, hpaths ▸ hloaded.2.met, hpaths ▸ hloaded.2.all⟩

/-- Places tell apart the paths of which `P` holds. -/
def Telling (disk : Disk) (P : Path → Prop) : Prop :=
  ∀ p q, P p → P q → disk.place p = disk.place q → p.same q = true

theorem Within.nodup_places (h : Within disk P t) (htell : Telling disk P) :
    ((paths t).map disk.place).Nodup := by
  refine List.Pairwise.map _ (fun q r hne => hne) ?_
  refine h.met.distinct.imp_of_mem fun {q r} hq hr hdistinct hplace => ?_
  have hsame := htell q r (h.all q hq) (h.all r hr) hplace
  exact absurd hsame (by simp [hdistinct])

theorem Within.length_le (h : Within disk P t) (htell : Telling disk P) :
    t.length ≤ disk.files.length := by
  have hfiles : (paths t).map disk.place ⊆ disk.files := by
    intro l hl
    obtain ⟨q, hq, rfl⟩ := List.mem_map.1 hl
    exact Disk.place_mem_files (h.met.sources q hq).file
  simpa [paths] using ((h.nodup_places htell).subperm hfiles).length_le

theorem load_of_files (hP : disk.Encloses P) (htell : Telling disk P) (h : Within disk P t)
    (hp : P p) (hroom : disk.files.length ≤ depth + t.length) (hle : depth ≤ deeper) :
    load disk deeper t p = load disk depth t p := by
  induction depth generalizing t p deeper with
  | zero =>
      cases hfind : t.find p with
      | some m => rw [load_known _ hfind, load_known _ hfind]
      | none =>
          have hmore := (h.snoc hP hp hfind).length_le htell
          rw [List.length_append, List.length_singleton] at hmore
          omega
  | succ depth ih =>
      cases hfind : t.find p with
      | some m => rw [load_known _ hfind, load_known _ hfind]
      | none =>
          obtain ⟨deeper, rfl⟩ : ∃ n, deeper = n + 1 := Nat.exists_eq_add_of_le' (by omega)
          rw [load_fresh _ hfind, load_fresh _ hfind]
          refine congrArg (complete disk · p) (List.foldl_rel (r := fun a b => a = b ∧
            paths (t ++ [⟨p, []⟩]) <+: paths b ∧ Within disk P b)
            ⟨rfl, List.prefix_refl _, h.snoc hP hp hfind⟩ ?_).1
          rintro q hq _ t' ⟨rfl, hgrown, h'⟩
          have hq := hP.references p hp q hq
          have hlength := hgrown.length_le
          simp only [paths, List.length_map, List.length_append, List.length_singleton] at hlength
          have hstep := h'.load hP hq depth
          exact ⟨ih h' hq (by omega) (Nat.le_of_succ_le_succ hle), hgrown.trans hstep.1, hstep.2⟩

end ModuleTable

namespace ModuleGraph

open ModuleTable

variable {disk : Disk} {file : SourceFile} {tree : Module} {depth : Nat}

theorem meets_of_targets {p : Path} (h : p ∈ disk.targets file.path tree.exportScan.followed) :
    disk.Meets file.directory tree.exportScan.followed p := by
  obtain ⟨specifier, hmem, hresolve⟩ := List.mem_filterMap.1 h
  exact .first hmem trivial hresolve

theorem within_loadWithin (disk : Disk) (depth : Nat) (file : SourceFile) (tree : Module) :
    Within disk (disk.Meets file.directory tree.exportScan.followed)
      (loadWithin disk depth file tree).modules := by
  rw [loadWithin_eq_foldl]
  refine List.foldlRecOn _ _ (motive := Within disk
    (disk.Meets file.directory tree.exportScan.followed)) .nil ?_
  exact fun t ht p hp => (ht.load (disk.encloses_meets _ _) (meets_of_targets hp) depth).2

theorem loadWithin_files
    (htell : Telling disk (disk.Meets file.directory tree.exportScan.followed))
    (h : disk.files.length ≤ depth) :
    loadWithin disk depth file tree = loadWithin disk disk.files.length file tree := by
  have hP := disk.encloses_meets file.directory tree.exportScan.followed
  rw [loadWithin_eq_foldl, loadWithin_eq_foldl]
  refine congrArg (ModuleGraph.mk _) (List.foldl_rel (r := fun t t' => t = t' ∧
    Within disk (disk.Meets file.directory tree.exportScan.followed) t') ⟨rfl, .nil⟩ ?_).1
  rintro p hp t _ ⟨rfl, ht⟩
  have hp := meets_of_targets hp
  exact ⟨load_of_files hP htell ht hp (Nat.le_add_right _ _) h, (ht.load hP hp _).2⟩

theorem length_files_le (disk : Disk) : disk.files.length ≤ chainBound disk := by
  have hsub : disk.files ⊆ disk.entries.map (·.1) := fun l hl =>
    List.mem_eraseDups.1 (List.mem_filter.1 hl).1
  have hlength := (disk.nodup_files.subperm hsub).length_le
  rw [List.length_map] at hlength
  unfold chainBound
  omega

/-- What the modules that a source takes types from have to do with the files they are read from.
However many there are, the bound on the depth is not met. Two modules are one file only if a
specifier on the way to one of them climbs; where none does, each file is read once, and no more
levels are needed than there are files. -/
structure LoadsFiles (disk : Disk) (file : SourceFile) (tree : Module) : Prop where
  bounded : ∀ depth, chainBound disk ≤ depth →
    loadWithin disk depth file tree = load disk file tree
  reached : ∀ m ∈ (load disk file tree).modules, disk.place m.path ∈ disk.files ∧
    disk.Meets file.directory tree.exportScan.followed m.path
  spelled : (load disk file tree).modules.Pairwise fun m n => m.path.same n.path = false
  climbed : (load disk file tree).modules.Pairwise fun m n =>
    disk.place m.path = disk.place n.path →
    ¬ disk.MeetsDown file.directory tree.exportScan.followed m.path ∨
      ¬ disk.MeetsDown file.directory tree.exportScan.followed n.path
  once : disk.StaysLevel file.directory tree.exportScan.followed →
    ((load disk file tree).modules.map fun m => disk.place m.path).Nodup ∧
      (load disk file tree).modules.length ≤ disk.files.length ∧
      ∀ depth, disk.files.length ≤ depth →
        loadWithin disk depth file tree = load disk file tree

theorem loadsFiles_load (disk : Disk) (file : SourceFile) (tree : Module) :
    LoadsFiles disk file tree := by
  have hwithin : Within disk (disk.Meets file.directory tree.exportScan.followed)
      (load disk file tree).modules := within_loadWithin disk (chainBound disk) file tree
  have hspelled : (load disk file tree).modules.Pairwise fun m n => m.path.same n.path = false :=
    List.pairwise_map.1 hwithin.met.distinct
  refine ⟨fun depth h => loadWithin_eq h file tree, ?_, hspelled, ?_, ?_⟩
  · intro m hm
    have hm := path_mem_paths hm
    exact ⟨Disk.place_mem_files (hwithin.met.sources _ hm).file, hwithin.all _ hm⟩
  · refine hspelled.imp fun {m n} hdistinct hplace => ?_
    by_contra hboth
    obtain ⟨hm, hn⟩ := not_or.1 hboth
    have hsame := (not_not.1 hm).same_of_place (not_not.1 hn) hplace
    exact absurd hsame (by simp [hdistinct])
  · intro hlevel
    have htell : Telling disk (disk.Meets file.directory tree.exportScan.followed) :=
      fun p q hp hq hplace => (hlevel.meetsDown hp).same_of_place (hlevel.meetsDown hq) hplace
    have hnodup := hwithin.nodup_places htell
    rw [paths, List.map_map] at hnodup
    refine ⟨hnodup, hwithin.length_le htell, fun depth h => ?_⟩
    rw [loadWithin_files htell h]
    exact (loadWithin_files htell (length_files_le disk)).symm

def detour : SourceFile where
  path := ⟨"src/entry.ts"⟩
  text := "import type \x7bA\x7d from './a.js';import type \x7bB\x7d from '../src/a.js';"

def detourDisk : Disk :=
  ⟨[], [(["src"], .directory), (["src", "a.ts"], .file "export interface A\x7b\x7d".toUTF8)]⟩

def circle : SourceFile where
  path := ⟨"entry.ts"⟩
  text := "import type \x7bA\x7d from './d/a.js';"

def circleDisk : Disk :=
  ⟨[], [(["d"], .directory), (["d", "a.ts"], .file ("import type \x7bB\x7d from '../d/a.js';"
    ++ "export interface A\x7b\x7d").toUTF8)]⟩

/-- One file makes two modules when a specifier climbs. When the file climbs back to itself, each
further level makes one more module of it. -/
theorem not_once_detour :
    (∃ tree, detour.parse = .ok tree ∧ detourDisk.files = [["src", "a.ts"]] ∧
      (load detourDisk detour tree).modules
        = [⟨⟨"src/./a.ts"⟩, ["A"]⟩, ⟨⟨"src/../src/a.ts"⟩, ["A"]⟩] ∧
      detourDisk.place ⟨"src/./a.ts"⟩ = detourDisk.place ⟨"src/../src/a.ts"⟩) ∧
    ∃ tree, circle.parse = .ok tree ∧ circleDisk.files = [["d", "a.ts"]] ∧
      [1, 2, 3].map (fun depth => (loadWithin circleDisk depth circle tree).modules.length)
        = [1, 2, 3] := by
  constructor
  · have held : detour.parse.toOption.map (fun tree => (load detourDisk detour tree).modules)
        = some [⟨⟨"src/./a.ts"⟩, ["A"]⟩, ⟨⟨"src/../src/a.ts"⟩, ["A"]⟩] := by
      rw [detour.parse_eq_elim rfl]
      decide +kernel
    obtain ⟨tree, htree, hmodules⟩ := map_toOption_eq_some.1 held
    exact ⟨tree, htree, by decide +kernel, hmodules, by decide +kernel⟩
  · have held : circle.parse.toOption.map (fun tree =>
        [1, 2, 3].map fun depth => (loadWithin circleDisk depth circle tree).modules.length)
        = some [1, 2, 3] := by
      rw [circle.parse_eq_elim rfl]
      decide +kernel
    obtain ⟨tree, htree, hlengths⟩ := map_toOption_eq_some.1 held
    exact ⟨tree, htree, by decide +kernel, hlengths⟩

end ModuleGraph

end ElementBridge
