import Mathlib.Data.List.Find
import ElementBridge.Batch
import ElementBridge.Proofs.AddedFiles
import ElementBridge.Proofs.LoadingDepth

/-!
Where bridges stand. A bridge has another name than its source, and no source is looked for under
the name of a bridge, so bridges that come to a disk change no surface.
-/

namespace ElementBridge

namespace Path

variable {p : Path} {name : String}

theorem fileName?_eq_some : p.fileName? = some name ↔
    ∃ before, p.components = before ++ [.name name] := by
  unfold fileName?
  constructor
  · intro h
    split at h
    · next s hlast =>
        obtain rfl := Option.some.inj h
        exact List.getLast?_eq_some_iff.1 hlast
    · exact absurd h (by simp)
  · rintro ⟨before, h⟩
    simp [h]

theorem noSlash_of_name_mem (h : .name name ∈ p.components) : '/' ∉ name.toList := by
  have hpieces : ∀ piece ∈ p.body.2, '/' ∉ piece := by
    rcases body_cases p with ⟨text, hbody⟩ | ⟨rest, hs, hbody⟩ | ⟨c, first, rest, hs, -, hbody⟩ | hbody
    all_goals rw [hbody]
    · exact fun piece hp => noSlash_of_mem_split hp
    · exact fun piece hp => noSlash_of_mem_split (hs ▸ List.mem_cons_of_mem _ hp)
    · exact fun piece hp => noSlash_of_mem_split (hs ▸ hp)
    · simp
  unfold components at h
  rcases List.mem_append.1 h with hstart | hname
  · exact absurd (Option.mem_toList.1 hstart) (body_start_ne_name p name)
  · obtain ⟨piece, hpiece, hname⟩ := List.mem_filterMap.1 hname
    unfold componentOf at hname
    split at hname
    · exact absurd hname (by simp)
    · split at hname
      · exact absurd hname (by simp)
      · have heq : String.ofList piece = name := by simpa using hname
        rw [← heq, String.toList_ofList]
        exact hpieces piece hpiece

theorem stemOf_sublist (name : String) : (stemOf name).toList.Sublist name.toList := by
  have hsuffix : (name.toList.reverse.dropWhile (· != '.')).drop 1 <:+ name.toList.reverse :=
    (List.drop_suffix _ _).trans (List.dropWhile_suffix _)
  unfold stemOf
  dsimp only
  split
  · exact List.Sublist.refl _
  · rw [String.toList_ofList, ← List.reverse_sublist, List.reverse_reverse]
    exact hsuffix.sublist

theorem noSlash_stem (p : Path) : '/' ∉ p.stem.toList := by
  unfold stem
  cases hname : p.fileName? with
  | none => exact List.not_mem_nil
  | some name =>
      obtain ⟨before, h⟩ := fileName?_eq_some.1 hname
      have hlast : .name name ∈ p.components := by simp [h]
      exact fun hmem => noSlash_of_name_mem hlast ((stemOf_sublist name).subset hmem)

def IsPlainName (name : String) : Prop :=
  '/' ∉ name.toList ∧ componentOf name.toList = some (.name name)

theorem components_alone (h : IsPlainName name) : components ⟨name⟩ = [.name name] := by
  have hdot : name.toList ≠ ['.'] := fun heq => absurd h.2 (by simp [heq, componentOf])
  cases htext : name.toList with
  | nil => exact absurd h.2 (by simp [htext, componentOf])
  | cons c rest =>
      have hs : split (c :: rest) = [c :: rest] := by rw [← htext, split_of_noSlash h.1]
      rw [components_eq, htext, componentsOf_of_split hs, ← htext, firstComponent, if_neg hdot, h.2]
      rfl

theorem components_join (h : IsPlainName name) (dir : Path) :
    (dir.join ⟨name⟩).components = dir.components ++ [.name name] := by
  have hrelative : isAbsolute ⟨name⟩ = false := by
    rw [← Bool.not_eq_true]
    intro habsolute
    have hhead : name.toList.head? = some '/' := by simpa [isAbsolute] using habsolute
    exact h.1 (List.mem_of_mem_head? hhead)
  have hlast : (split name.toList).filterMap componentOf = [.name name] := by
    rw [split_of_noSlash h.1, List.filterMap_cons_some h.2, List.filterMap_nil]
  have hempty : (split []).filterMap componentOf = [] := rfl
  unfold join
  rw [hrelative, Bool.false_or]
  split
  · next hdir =>
      rw [components_alone h, components_eq dir, eq_of_beq hdir]
      rfl
  · next hdir =>
      rw [components_eq, components_eq dir]
      split
      · next hends =>
          obtain ⟨before, hbefore⟩ := List.getLast?_eq_some_iff.1 (beq_iff_eq.1 hends)
          have htext : dir.text.toList ++ name.toList = before ++ '/' :: name.toList := by
            simp [hbefore]
          rw [String.toList_append, htext, hbefore]
          cases before with
          | nil => simp [componentsOf_root, hlast, hempty]
          | cons c before =>
              rw [componentsOf_append_slash (List.cons_ne_nil _ _),
                componentsOf_append_slash (List.cons_ne_nil _ _), hlast, hempty, List.append_nil]
      · have hne : dir.text.toList ≠ [] := by simpa using hdir
        have htext : (dir.text ++ "/" ++ name).toList = dir.text.toList ++ '/' :: name.toList := by
          simp
        rw [htext, componentsOf_append_slash hne, hlast]

theorem components_withFileName (h : IsPlainName name) (p : Path) :
    ∃ before, (p.withFileName name).components = before ++ [.name name] ∧
      (p.components = before ∨ ∃ old, p.fileName? = some old ∧ p.components = before ++ [.name old])
    := by
  unfold withFileName
  cases hname : p.fileName? with
  | none => exact ⟨p.components, components_join h p, .inl rfl⟩
  | some old =>
      obtain ⟨before, hbefore⟩ := fileName?_eq_some.1 hname
      refine ⟨before, ?_, .inr ⟨old, rfl, hbefore⟩⟩
      rw [Option.isSome_some, if_pos rfl, components_join h, components_parent hbefore]

end Path

def IsBridgeName (name : String) : Prop := "_bridge.js".toList <:+ name.toList

theorem not_isBridgeName {name : String} (h : sourceSuffix <:+ name.toList) :
    ¬ IsBridgeName name := by
  intro hbridge
  rcases List.suffix_or_suffix_of_suffix h hbridge with hle | hle
  · exact absurd hle (by decide)
  · exact absurd hle (by decide)

section Names

variable {config : Config}

theorem isPlainName_bridge (p : Path) : Path.IsPlainName (p.stem ++ "_bridge.js") := by
  have htext : (p.stem ++ "_bridge.js").toList = p.stem.toList ++ "_bridge.js".toList :=
    String.toList_append
  refine ⟨?_, ?_⟩
  · rw [htext, List.mem_append]
    rintro (hmem | hmem)
    · exact Path.noSlash_stem p hmem
    · exact absurd hmem (by simp)
  · have hlast : (p.stem ++ "_bridge.js").toList.getLast? = some 's' := by
      rw [htext, List.getLast?_append]
      rfl
    have hne (piece : List Char) (h : piece.getLast? ≠ some 's') :
        (p.stem ++ "_bridge.js").toList ≠ piece := fun heq => h (heq ▸ hlast)
    have hempty := hne [] (by decide)
    have hdot := hne ['.'] (by decide)
    rw [Path.componentOf, if_neg (by simp only [hempty, hdot]; decide),
      if_neg (hne ['.', '.'] (by decide)), String.ofList_toList]

theorem stemOf_bridge (stem : String) :
    Path.stemOf (stem ++ "_bridge.js") = stem ++ "_bridge" := by
  have hreverse : (stem ++ "_bridge.js").toList.reverse
      = ['s', 'j', '.', 'e', 'g', 'd', 'i', 'r', 'b', '_'] ++ stem.toList.reverse := by
    simp
  unfold Path.stemOf
  simp only [hreverse]
  simp

theorem fileName?_ne_bridge {source : Path} {name : String} (h : source.fileName? = some name) :
    name ≠ source.stem ++ "_bridge.js" := by
  have hstem : source.stem = Path.stemOf name := by simp [Path.stem, h]
  rw [hstem]
  intro heq
  have hlonger := stemOf_bridge (Path.stemOf name)
  rw [← heq] at hlonger
  simpa using congrArg String.length hlonger

end Names

def IsBridgePlace (l : Location) : Prop := ∃ before name, l = before ++ [name] ∧ IsBridgeName name

namespace Disk

variable {d d' : Disk} {here l : Location} {p : Path}

theorem place_eq_of_components {before : List Path.Component} {name : String}
    (h : p.components = before ++ [.name name]) :
    d.place p = before.foldl enter d.workingDirectory ++ [name] := by
  rw [place_eq, h, List.foldl_append]
  rfl

theorem not_isBridgePlace_candidate {c dir : Path} {specifier : String}
    (hrelative : isRelative specifier = true) (hc : c ∈ sourceCandidates dir specifier) :
    ¬ IsBridgePlace (d.place c) := by
  obtain ⟨head, rest, hbase, hhead, -⟩ := join_relative dir hrelative
  obtain ⟨tail, htext, hsource⟩ := text_of_candidate hbase hc
  obtain ⟨more, name, hcomponents, hname⟩ := components_source hhead htext hsource
  rintro ⟨before, bridge, hplace, hbridge⟩
  rw [place_eq_of_components hcomponents] at hplace
  obtain rfl : name = bridge := by simpa using (List.append_inj' hplace rfl).2
  exact not_isBridgeName hname hbridge

theorem not_isBridgePlace_of_resolveSpecifier {dir : Path} {specifier : String}
    (h : resolveSpecifier d dir specifier = some p) : ¬ IsBridgePlace (d.place p) := by
  unfold resolveSpecifier at h
  split at h
  · next hrelative => exact not_isBridgePlace_candidate hrelative (List.mem_of_find?_eq_some h)
  · exact absurd h (by simp)

theorem not_isBridgePlace_of_mem_references {q : Path} (h : q ∈ d.references p) :
    ¬ IsBridgePlace (d.place q) := by
  unfold references at h
  cases hscan : d.exportScan? p with
  | none => simp [hscan] at h
  | some scan =>
      rw [hscan, Option.elim_some] at h
      obtain ⟨specifier, -, hq⟩ := List.mem_filterMap.1 h
      exact not_isBridgePlace_of_resolveSpecifier hq

section OutputPath

variable {config : Config} {source : Path}

theorem place_outputPath (h : config.outputSuffix = Config.standard.outputSuffix) (d : Disk)
    (source : Path) : IsBridgePlace (d.place (config.outputPath source)) ∧
      d.place source ≠ d.place (config.outputPath source) := by
  have hpath : config.outputPath source = source.withFileName (source.stem ++ "_bridge.js") := by
    rw [Config.outputPath, h]
    rfl
  obtain ⟨before, hbefore, hsource⟩ :=
    Path.components_withFileName (isPlainName_bridge source) source
  rw [hpath, place_eq_of_components hbefore]
  refine ⟨⟨_, _, rfl, by simp [IsBridgeName]⟩, ?_⟩
  rcases hsource with hsource | ⟨name, hname, hsource⟩
  · rw [place_eq, hsource]
    intro heq
    simpa using congrArg List.length heq
  · rw [place_eq_of_components hsource]
    intro heq
    exact fileName?_ne_bridge hname (by simpa using (List.append_inj' heq rfl).2)

end OutputPath

structure AddsBridges (d d' : Disk) : Prop where
  workingDirectory : d'.workingDirectory = d.workingDirectory
  node : ∀ l, d'.node? l = d.node? l ∨
    IsBridgePlace l ∧ d.node? l ≠ some .directory ∧ ∃ content, d'.node? l = some (.file content)

namespace AddsBridges

variable (h : AddsBridges d d')
include h

theorem addsFiles : AddsFiles IsBridgePlace d d' := ⟨h.workingDirectory, h.node⟩

theorem locate_ok : d'.locate p = .ok l ↔ d.locate p = .ok l := h.addsFiles.locate_ok

theorem read_ok {file : SourceFile} (hnode : ∀ l, d.locate p = .ok l → d'.node? l = d.node? l) :
    SourceFile.read d' p = .ok file ↔ SourceFile.read d p = .ok file := h.addsFiles.read_ok hnode

theorem resolveSpecifier (dir : Path) (specifier : String) :
    ElementBridge.resolveSpecifier d' dir specifier
      = ElementBridge.resolveSpecifier d dir specifier := by
  unfold ElementBridge.resolveSpecifier
  split
  · next hrelative =>
      exact List.find?_congr fun c hc =>
        h.addsFiles.isFile (not_isBridgePlace_candidate hrelative hc)
  · rfl

theorem targets (specifiers : List String) : d'.targets p specifiers = d.targets p specifiers := by
  unfold Disk.targets
  exact List.filterMap_congr fun specifier _ => h.resolveSpecifier _ _

theorem references (hp : ¬ IsBridgePlace (d.place p)) : d'.references p = d.references p := by
  unfold Disk.references
  rw [h.addsFiles.exportScan? hp]
  simp only [h.targets]

theorem complete (hp : ¬ IsBridgePlace (d.place p)) (t : ModuleTable) :
    ModuleTable.complete d' t p = ModuleTable.complete d t p := by
  unfold ModuleTable.complete ModuleTable.passed Disk.starTargets Disk.ownExports
  rw [h.addsFiles.exportScan? hp]
  simp only [h.targets]

theorem load (depth : Nat) (t : ModuleTable) (hp : ¬ IsBridgePlace (d.place p)) :
    ModuleTable.load d' depth t p = ModuleTable.load d depth t p := by
  induction depth generalizing t p with
  | zero => rfl
  | succ depth ih =>
      cases hfind : t.find p with
      | some m => rw [ModuleTable.load_known _ hfind, ModuleTable.load_known _ hfind]
      | none =>
          rw [ModuleTable.load_fresh _ hfind, ModuleTable.load_fresh _ hfind, h.complete hp,
            h.references hp]
          refine congrArg (ModuleTable.complete d · p) (List.foldl_ext _ _ _ fun t q hq => ?_)
          exact ih t (not_isBridgePlace_of_mem_references hq)

/-- The modules that a source takes types from stay as they are, though the bound on the depth of
their loading grows with the disk. -/
theorem graph (file : SourceFile) (tree : Tree.Module) :
    ModuleGraph.load d' file tree = ModuleGraph.load d file tree := by
  let depth := max (ModuleGraph.chainBound d) (ModuleGraph.chainBound d')
  rw [← ModuleGraph.loadWithin_eq (Nat.le_max_left _ _ : ModuleGraph.chainBound d ≤ depth),
    ← ModuleGraph.loadWithin_eq (Nat.le_max_right _ _ : ModuleGraph.chainBound d' ≤ depth)]
  unfold ModuleGraph.loadWithin
  refine List.foldl_ext _ _ _ fun g specifier _ => ?_
  rw [h.resolveSpecifier]
  cases hresolve : ElementBridge.resolveSpecifier d file.directory specifier with
  | none => rfl
  | some p =>
      dsimp only
      rw [h.load depth g.modules (not_isBridgePlace_of_resolveSpecifier hresolve)]

theorem surface (config : Config) (file : SourceFile) :
    file.surface config d' = file.surface config d := by
  unfold SourceFile.surface
  simp only [h.graph]

end AddsBridges

end Disk

end ElementBridge
