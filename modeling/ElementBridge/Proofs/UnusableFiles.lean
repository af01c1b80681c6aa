import Mathlib.Data.List.Find
import ElementBridge.Proofs.AddedFiles
import ElementBridge.Proofs.ExportTables
import ElementBridge.Proofs.LoadedFiles

/-!
A file that is no module, and the disk without it: loading finds the same modules with the same
exports, but for the file itself, which stands in the table as a module without exports.
-/

namespace ElementBridge

open ElementBridge.Tree

namespace Disk

def without (disk : Disk) (l : Location) : Disk :=
  { disk with entries := disk.entries.filter (·.1 ≠ l) }

/-- A file stands at the place that is no text, or not the text of a module. -/
def Unusable (disk : Disk) (l : Location) : Prop :=
  ∃ content, disk.node? l = some (.file content) ∧
    (String.fromUTF8? content).bind Module.ofText? = none

variable {disk : Disk} {l : Location} {dir p q : Path} {specifier : String}
  {specifiers : List String}

theorem lookup_without (disk : Disk) (l : Location) :
    (disk.without l).entries.lookup l = none := by
  refine List.lookup_eq_none_iff.2 fun entry hentry => ?_
  have hne : entry.1 ≠ l := by simpa using (List.mem_filter.1 hentry).2
  simpa using Ne.symm hne

theorem lookup_without_of_ne (disk : Disk) {k : Location} (hk : k ≠ l) :
    (disk.without l).entries.lookup k = disk.entries.lookup k := by
  unfold without
  induction disk.entries with
  | nil => rfl
  | cons entry entries ih =>
      obtain ⟨key, n⟩ := entry
      by_cases hkey : key = l
      · have hother : (k == key) = false := beq_false_of_ne (hkey ▸ hk)
        rw [List.filter_cons_of_neg (by simpa using hkey), ih, List.lookup_cons, hother]
      · rw [List.filter_cons_of_pos (by simpa using hkey), List.lookup_cons, List.lookup_cons, ih]

theorem node?_without (h : disk.Unusable l) : (disk.without l).node? l = none := by
  obtain ⟨content, hnode, -⟩ := h
  unfold node? at hnode ⊢
  split at hnode
  · cases hnode
  · next hprefix => exact (if_neg hprefix).trans (disk.lookup_without l)

theorem addsFiles_without (h : disk.Unusable l) : AddsFiles (· = l) (disk.without l) disk where
  workingDirectory := rfl
  node k := by
    by_cases hk : k = l
    · subst hk
      obtain ⟨content, hnode, -⟩ := id h
      exact .inr ⟨rfl, by rw [node?_without h]; exact nofun, content, hnode⟩
    · refine .inl ?_
      unfold node?
      rw [disk.lookup_without_of_ne hk]
      rfl

theorem not_isFile_without (h : disk.Unusable l) (hp : disk.place p = l) :
    (disk.without l).isFile p = false := by
  by_contra hfile
  obtain ⟨content, hnode⟩ := node?_of_isFile (Bool.not_eq_false _ ▸ hfile)
  rw [← (addsFiles_without h).place, hp, node?_without h] at hnode
  cases hnode

theorem exportScan?_of_unusable (h : disk.Unusable l) (hp : disk.place p = l) :
    disk.exportScan? p = none := by
  obtain ⟨content, hnode, hunusable⟩ := h
  unfold exportScan?
  cases hread : SourceFile.read disk p with
  | error fault => rfl
  | ok file =>
      unfold SourceFile.read readText Disk.read at hread
      simp only [bind_eq_ok, pure_eq_ok, lookup_eq_ok] at hread
      obtain ⟨text, ⟨bytes, ⟨n, ⟨k, hk, hn⟩, hbytes⟩, htext⟩, rfl⟩ := hread
      rw [(locate_eq hk).1, hp, hnode] at hn
      obtain rfl := Option.some.inj hn
      obtain rfl : content = bytes := pure_eq_ok.1 hbytes
      split at htext
      · next decoded hdecoded =>
          obtain rfl : decoded = text := pure_eq_ok.1 htext
          rw [hdecoded, Option.bind_some] at hunusable
          exact Option.map_eq_none_iff.2 hunusable
      · cases htext

theorem references_of_unusable (h : disk.Unusable l) (hp : disk.place p = l) :
    disk.references p = [] := by
  rw [Disk.references, exportScan?_of_unusable h hp, Option.elim_none]

/-- The only file that a specifier can lead to at the place is the one there. -/
def IsSole (disk : Disk) (l : Location) (dir : Path) (specifier : String) : Prop :=
  ∀ p, resolveSpecifier disk dir specifier = some p → disk.place p = l →
    ∀ c ∈ sourceCandidates dir specifier, disk.isFile c = true → disk.place c = l

theorem isFile_without (h : disk.Unusable l) :
    (disk.without l).isFile p = true ↔ disk.isFile p = true ∧ disk.place p ≠ l := by
  by_cases hp : disk.place p = l
  · simp [not_isFile_without h hp, hp]
  · rw [(addsFiles_without h).isFile hp]
    simp [hp]

theorem resolveSpecifier_without (h : disk.Unusable l) (hsole : disk.IsSole l dir specifier) :
    resolveSpecifier (disk.without l) dir specifier
      = (resolveSpecifier disk dir specifier).filter fun p => disk.place p ≠ l := by
  unfold IsSole resolveSpecifier at hsole
  unfold resolveSpecifier
  split
  · next hrelative =>
      rw [if_pos hrelative] at hsole
      cases hfind : (sourceCandidates dir specifier).find? disk.isFile with
      | none =>
          rw [Option.filter_none, List.find?_eq_none]
          intro c hc hfile
          exact List.find?_eq_none.1 hfind c hc ((isFile_without h).1 hfile).1
      | some p =>
          by_cases hp : disk.place p = l
          · rw [Option.filter_some_neg (by simpa using hp), List.find?_eq_none]
            intro c hc hfile
            obtain ⟨hfile, hc'⟩ := (isFile_without h).1 hfile
            exact hc' (hsole p hfind hp c hc hfile)
          · rw [Option.filter_some_pos (by simpa using hp)]
            obtain ⟨hfile, before, after, hcandidates, hbefore⟩ :=
              List.find?_eq_some_iff_append.1 hfind
            refine List.find?_eq_some_iff_append.2
              ⟨(isFile_without h).2 ⟨hfile, hp⟩, before, after, hcandidates, fun c hc => ?_⟩
            have hc := hbefore c hc
            rw [Bool.not_eq_true', ← Bool.not_eq_true] at hc ⊢
            exact fun hfile => hc ((isFile_without h).1 hfile).1
  · rfl

theorem targets_without (h : disk.Unusable l)
    (hsole : ∀ specifier ∈ specifiers, disk.IsSole l p.parent specifier) :
    (disk.without l).targets p specifiers
      = (disk.targets p specifiers).filter fun q => disk.place q ≠ l := by
  unfold targets
  rw [List.filter_filterMap]
  exact List.filterMap_congr fun specifier hmem => resolveSpecifier_without h (hsole specifier hmem)

def IsSoleFor (disk : Disk) (l : Location) (dir : Path) (specifiers : List String) : Prop :=
  ∀ start specifier, disk.Asks dir specifiers start specifier → disk.IsSole l start specifier

variable (h : disk.Unusable l) (hsole : disk.IsSoleFor l dir specifiers)
include h hsole

theorem elim_targets_without {asked : ExportScan → List String}
    (hasked : ∀ scan, asked scan ⊆ scan.followed ++ scan.stars)
    (hp : disk.Meets dir specifiers p) (hl : disk.place p ≠ l) :
    ((disk.without l).exportScan? p).elim [] (fun scan => (disk.without l).targets p (asked scan))
      = ((disk.exportScan? p).elim [] fun scan => disk.targets p (asked scan)).filter
          fun q => disk.place q ≠ l := by
  rw [(addsFiles_without h).exportScan? hl]
  cases hscan : (disk.without l).exportScan? p with
  | none => rfl
  | some scan =>
      refine targets_without h fun specifier hmem => hsole _ _ (.module hp ?_ (hasked scan hmem))
      rw [(addsFiles_without h).exportScan? hl, hscan]

theorem references_without (hp : disk.Meets dir specifiers p) (hl : disk.place p ≠ l) :
    (disk.without l).references p = (disk.references p).filter fun q => disk.place q ≠ l :=
  elim_targets_without h hsole (fun _ => List.Subset.refl _) hp hl

theorem starTargets_without (hp : disk.Meets dir specifiers p) (hl : disk.place p ≠ l) :
    (disk.without l).starTargets p = (disk.starTargets p).filter fun q => disk.place q ≠ l :=
  elim_targets_without h hsole (fun _ => List.subset_append_right _ _) hp hl

end Disk

namespace ModuleTable

def off (disk : Disk) (l : Location) (t : ModuleTable) : ModuleTable :=
  t.filter fun m => disk.place m.path ≠ l

def Blank (disk : Disk) (l : Location) (t : ModuleTable) : Prop :=
  ∀ m ∈ t, disk.place m.path = l → m.exported = []

variable {disk : Disk} {l : Location} {t : ModuleTable} {dir p q : Path}
  {specifiers : List String}

theorem place_of_same (h : p.same q = true) : disk.place p = disk.place q := by
  rw [Disk.place_eq, Disk.place_eq, Path.same_iff.1 h]

theorem find_off (hq : disk.place q ≠ l) : (off disk l t).find q = t.find q := by
  unfold off find
  rw [List.find?_filter]
  refine List.find?_congr fun m _ => ?_
  by_cases hsame : m.path.same q = true
  · have hne : disk.place m.path ≠ l := place_of_same hsame ▸ hq
    simp [hsame, hne]
  · simp [hsame]

theorem off_snoc (hp : disk.place p ≠ l) (names : List String) :
    off disk l (t ++ [⟨p, names⟩]) = off disk l t ++ [⟨p, names⟩] := by
  simp [off, List.filter_append, hp]

theorem off_snoc_self (hp : disk.place p = l) (names : List String) :
    off disk l (t ++ [⟨p, names⟩]) = off disk l t := by
  simp [off, List.filter_append, hp]

theorem Blank.snoc (h : Blank disk l t) (p : Path) : Blank disk l (t ++ [⟨p, []⟩]) :=
  List.forall_mem_append.2 ⟨h, List.forall_mem_singleton.2 fun _ => rfl⟩

theorem Blank.complete (h : Blank disk l t) (hp : disk.place p ≠ l) :
    Blank disk l (complete disk t p) := by
  intro m hm hplace
  obtain ⟨m₀, hm₀, rfl⟩ := List.mem_map.1 hm
  split at hplace
  · next hsame => exact absurd ((place_of_same hsame).symm.trans hplace) hp
  · next hsame =>
      rw [if_neg hsame]
      exact h m₀ hm₀ hplace

theorem load_unusable (h : disk.Unusable l) (hblank : Blank disk l t) (hp : disk.place p = l)
    (depth : Nat) : load disk depth t p = t ∨ load disk depth t p = t ++ [⟨p, []⟩] := by
  cases depth with
  | zero => exact .inl rfl
  | succ depth =>
      cases hfind : t.find p with
      | some m => exact .inl (load_known _ hfind)
      | none =>
          rw [load_fresh _ hfind, Disk.references_of_unusable h hp, List.foldl_nil]
          refine .inr (complete_eq_self (Disk.exportScan?_of_unusable h hp) fun m hm hsame => ?_)
          exact hblank.snoc p m hm ((place_of_same hsame).trans hp)

def LoadsOff (disk : Disk) (l : Location) (depth : Nat) (t : ModuleTable) (p : Path) : Prop :=
  (if disk.place p = l then off disk l t else load (disk.without l) depth (off disk l t) p)
      = off disk l (load disk depth t p)
    ∧ Blank disk l (load disk depth t p)

theorem foldl_loadsOff {depth : Nat} (ps : List Path) (hps : ∀ p ∈ ps, ∀ t, Blank disk l t →
    LoadsOff disk l depth t p) (hblank : Blank disk l t) :
    (ps.filter fun q => disk.place q ≠ l).foldl (load (disk.without l) depth) (off disk l t)
        = off disk l (ps.foldl (load disk depth) t)
      ∧ Blank disk l (ps.foldl (load disk depth) t) := by
  induction ps generalizing t with
  | nil => exact ⟨rfl, hblank⟩
  | cons p ps ih =>
      obtain ⟨hp, hps⟩ := List.forall_mem_cons.1 hps
      obtain ⟨hload, hblank⟩ := hp t hblank
      rw [List.foldl_cons, ← (ih hps hblank).1]
      refine ⟨?_, (ih hps hblank).2⟩
      by_cases hl : disk.place p = l
      · rw [if_pos hl] at hload
        rw [List.filter_cons_of_neg (by simpa using hl), hload]
      · rw [if_neg hl] at hload
        rw [List.filter_cons_of_pos (by simpa using hl), List.foldl_cons, hload]

section

variable (h : disk.Unusable l) (hsole : disk.IsSoleFor l dir specifiers)
include h hsole

theorem passed_off (hblank : Blank disk l t) (hp : disk.Meets dir specifiers p)
    (hl : disk.place p ≠ l) : passed (disk.without l) (off disk l t) p = passed disk t p := by
  have hown : (disk.without l).ownExports p = disk.ownExports p := by
    rw [Disk.ownExports, Disk.ownExports, (Disk.addsFiles_without h).exportScan? hl]
  unfold passed
  rw [hown, Disk.starTargets_without h hsole hp hl, List.foldl_filter]
  refine List.foldl_ext _ _ _ fun names q _ => ?_
  by_cases hq : disk.place q = l
  · rw [if_neg (by simpa using hq)]
    cases hfind : t.find q with
    | none => rfl
    | some m =>
        have hm := hblank m (List.mem_of_find?_eq_some hfind)
          ((place_of_same (find_path hfind)).trans hq)
        simp only [hm]
        rfl
  · rw [if_pos (by simpa using hq), find_off hq]

theorem complete_off (hblank : Blank disk l t) (hp : disk.Meets dir specifiers p)
    (hl : disk.place p ≠ l) :
    complete (disk.without l) (off disk l t) p = off disk l (complete disk t p) := by
  rw [complete, complete, passed_off h hsole hblank hp hl, setExports, setExports, off, off,
    List.filter_map]
  refine congrArg _ (List.filter_congr fun m _ => ?_)
  simp only [Function.comp]
  split <;> rfl

theorem loadsOff_load (hblank : Blank disk l t) (hp : disk.Meets dir specifiers p)
    (depth : Nat) : LoadsOff disk l depth t p := by
  induction depth generalizing t p with
  | zero => exact ⟨ite_self _, hblank⟩
  | succ depth ih =>
      by_cases hl : disk.place p = l
      · rw [LoadsOff, if_pos hl]
        rcases load_unusable h hblank hl (depth + 1) with hsame | hsnoc
        · rw [hsame]
          exact ⟨rfl, hblank⟩
        · rw [hsnoc]
          exact ⟨(off_snoc_self hl []).symm, hblank.snoc p⟩
      · rw [LoadsOff, if_neg hl]
        cases hfind : t.find p with
        | some m =>
            rw [load_known _ hfind, load_known _ ((find_off hl).trans hfind)]
            exact ⟨rfl, hblank⟩
        | none =>
            have hP := disk.encloses_meets dir specifiers
            obtain ⟨hrefs, hblank⟩ := foldl_loadsOff (disk.references p)
              (fun q hq t ht => ih ht (hP.references p hp q hq)) (hblank.snoc p)
            rw [load_fresh _ hfind, load_fresh _ ((find_off hl).trans hfind), ← off_snoc hl,
              Disk.references_without h hsole hp hl, hrefs]
            exact ⟨complete_off h hsole hblank hp hl, hblank.complete hl⟩

end

end ModuleTable

namespace ModuleGraph

open ModuleTable

variable {disk : Disk} {l : Location} {file : SourceFile} {tree : Module} {specifier : String}
  {p : Path}

def LeadsTo (disk : Disk) (l : Location) (file : SourceFile) (tree : Module)
    (specifier : String) : Prop :=
  specifier ∈ tree.exportScan.followed ∧
    ∃ p, resolveSpecifier disk file.directory specifier = some p ∧ disk.place p = l

theorem lookup_entries_iff : (load disk file tree).entries.lookup specifier = some p ↔
    specifier ∈ tree.exportScan.followed ∧
      resolveSpecifier disk file.directory specifier = some p := by
  refine ⟨fun h => ?_, fun h => lookup_entries disk file tree h.1 h.2⟩
  obtain ⟨before, after, hentries, -⟩ := List.lookup_eq_some_iff.1 h
  have hmem : (specifier, p) ∈ (load disk file tree).entries := by simp [hentries]
  rw [load_eq, List.mem_reverse, List.mem_filterMap] at hmem
  obtain ⟨other, hother, hentry⟩ := hmem
  obtain ⟨q, hq, heq⟩ := Option.map_eq_some_iff.1 hentry
  obtain ⟨rfl, rfl⟩ := Prod.mk.inj heq
  exact ⟨hother, hq⟩

variable (h : disk.Unusable l) (hsole : disk.IsSoleFor l file.directory tree.exportScan.followed)
include h hsole

theorem modules_without : (load (disk.without l) file tree).modules
      = off disk l (load disk file tree).modules
    ∧ Blank disk l (load disk file tree).modules := by
  have hbound : chainBound (disk.without l) ≤ chainBound disk := by
    have hlength : (disk.without l).entries.length ≤ disk.entries.length :=
      List.length_filter_le _ _
    unfold chainBound
    omega
  have htargets := Disk.targets_without (p := file.path) h fun specifier hmem =>
    hsole file.directory specifier (.source hmem)
  have hnone : Blank disk l [] := fun m hm => absurd hm List.not_mem_nil
  rw [← loadWithin_eq hbound, loadWithin_eq_foldl, load_eq, htargets]
  exact foldl_loadsOff _ (fun p hp t ht => loadsOff_load h hsole ht (meets_of_targets hp) _) hnone

theorem exports?_of_leadsTo (hl : LeadsTo disk l file tree specifier) :
    (load disk file tree).exports? specifier = some [] ∧
      (load (disk.without l) file tree).exports? specifier = none := by
  obtain ⟨hmem, p, hp, hl⟩ := hl
  constructor
  · obtain ⟨-, -, -, q, -, -, names, hnames, -⟩ := exports_of_followed disk file tree hmem hp
    rw [hnames]
    rw [exports?, lookup_entries disk file tree hmem hp, Option.bind_some] at hnames
    obtain ⟨m, hfind, rfl⟩ := Option.map_eq_some_iff.1 hnames
    have hplace := (place_of_same (find_path hfind)).trans hl
    rw [(modules_without h hsole).2 m (List.mem_of_find?_eq_some hfind) hplace]
  · have hnone : (load (disk.without l) file tree).entries.lookup specifier = none := by
      refine Option.eq_none_iff_forall_ne_some.2 fun q hq => ?_
      have hq := (lookup_entries_iff.1 hq).2
      rw [Disk.resolveSpecifier_without h (hsole _ _ (.source hmem)), hp,
        Option.filter_some_neg (by simpa using hl)] at hq
      cases hq
    rw [exports?, hnone]
    rfl

theorem exports?_of_not_leadsTo (hl : ¬ LeadsTo disk l file tree specifier) :
    (load (disk.without l) file tree).exports? specifier
      = (load disk file tree).exports? specifier := by
  have hlookup : (load (disk.without l) file tree).entries.lookup specifier
      = (load disk file tree).entries.lookup specifier := by
    refine Option.ext fun q => ?_
    rw [lookup_entries_iff, lookup_entries_iff]
    refine and_congr_right fun hmem => ?_
    have hoff : ∀ p, resolveSpecifier disk file.directory specifier = some p →
        disk.place p ≠ l := fun p hp hplace => hl ⟨hmem, p, hp, hplace⟩
    rw [Disk.resolveSpecifier_without h (hsole _ _ (.source hmem))]
    cases hp : resolveSpecifier disk file.directory specifier with
    | none => rfl
    | some p =>
        have hplace := hoff p hp
        rw [Option.filter_some_pos (by simpa using hplace)]
  rw [exports?, exports?, hlookup, (modules_without h hsole).1]
  cases hp : (load disk file tree).entries.lookup specifier with
  | none => rfl
  | some p =>
      obtain ⟨hmem, hp⟩ := lookup_entries_iff.1 hp
      rw [Option.bind_some, Option.bind_some, find_off fun hplace => hl ⟨hmem, p, hp, hplace⟩]

end ModuleGraph

end ElementBridge
