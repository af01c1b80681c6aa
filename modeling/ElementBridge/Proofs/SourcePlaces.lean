import Mathlib.Data.List.Infix
import ElementBridge.ModuleGraph
import ElementBridge.Proofs.PathComponents
import ElementBridge.Proofs.Results

namespace ElementBridge

open ElementBridge.Path

theorem isSuffix_behind_slash {suffix before after : List Char} (hslash : '/' ∉ suffix)
    (h : suffix <:+ before ++ '/' :: after) : suffix <:+ after := by
  have hafter : '/' :: after <:+ before ++ '/' :: after := List.suffix_append _ _
  rcases List.suffix_or_suffix_of_suffix h hafter with hs | hs
  · rcases List.suffix_cons_iff.1 hs with heq | hs
    · exact absurd (heq ▸ List.mem_cons_self) hslash
    · exact hs
  · exact absurd (hs.subset List.mem_cons_self) hslash

theorem split_append_of_noSlash (text : List Char) {more : List Char} (h : '/' ∉ more) :
    ∃ pieces last, split (text ++ more) = pieces ++ [last ++ more] := by
  induction text with
  | nil => exact ⟨[], [], split_of_noSlash h⟩
  | cons c text ih =>
      obtain ⟨pieces, last, hs⟩ := ih
      by_cases hc : c = '/'
      · exact ⟨[] :: pieces, last, by rw [hc, List.cons_append, split_slash, hs]; rfl⟩
      · cases pieces with
        | nil => exact ⟨[], c :: last, by simpa [split, hc] using by simp [hs]⟩
        | cons piece pieces =>
            exact ⟨(c :: piece) :: pieces, last, by simpa [split, hc] using by simp [hs]⟩

def sourceSuffix : List Char := ['.', 't', 's']

theorem componentOf_source (stem : List Char) :
    componentOf (stem ++ sourceSuffix) = some (.name (String.ofList (stem ++ sourceSuffix))) := by
  have hlast : (stem ++ sourceSuffix).getLast? = some 's' := by simp [sourceSuffix]
  have hne (piece : List Char) (h : piece.getLast? ≠ some 's') : stem ++ sourceSuffix ≠ piece :=
    fun heq => h (heq ▸ hlast)
  have hempty := hne [] (by decide)
  have hdot := hne ['.'] (by decide)
  rw [componentOf, if_neg (by simp [hempty, hdot]), if_neg (hne ['.', '.'] (by decide))]

theorem components_source {p : Path} {head rest : List Char} (hhead : head ≠ [])
    (htext : p.text.toList = head ++ '/' :: rest) (hsource : sourceSuffix <:+ rest) :
    ∃ more name, p.components = componentsOf head ++ more ++ [.name name] ∧
      sourceSuffix <:+ name.toList := by
  obtain ⟨stem, rfl⟩ := hsource
  have hslash : '/' ∉ sourceSuffix := by decide
  obtain ⟨pieces, last, hs⟩ := split_append_of_noSlash stem hslash
  refine ⟨pieces.filterMap componentOf, String.ofList (last ++ sourceSuffix), ?_,
    by rw [String.toList_ofList]; exact List.suffix_append _ _⟩
  rw [components_eq, htext, componentsOf_append_slash hhead, hs, List.filterMap_append,
    List.filterMap_cons_some (componentOf_source last), List.filterMap_nil, List.append_assoc]

theorem componentsOf_isPrefix (text more : List Char) :
    componentsOf (text ++ ['/']) <+: componentsOf (text ++ '/' :: more) := by
  cases text with
  | nil => simp [componentsOf_root, split, componentOf]
  | cons c text =>
      rw [componentsOf_append_slash (List.cons_ne_nil _ _),
        componentsOf_append_slash (List.cons_ne_nil _ _)]
      simp [split, componentOf]

theorem dots_of_isRelative {specifier : String} (h : isRelative specifier = true) :
    ∃ dots rest, specifier.toList = dots ++ '/' :: rest ∧ dots ≠ [] ∧ '/' ∉ dots := by
  rw [isRelative, Bool.or_eq_true, List.isPrefixOf_iff_prefix, List.isPrefixOf_iff_prefix] at h
  rcases h with ⟨rest, h⟩ | ⟨rest, h⟩
  · exact ⟨['.'], rest, by simpa using h.symm, by simp, by simp⟩
  · exact ⟨['.', '.'], rest, by simpa using h.symm, by simp, by simp⟩

theorem join_relative (dir : Path) {specifier : String} (h : isRelative specifier = true) :
    ∃ head rest, (dir.join ⟨specifier⟩).text.toList = head ++ '/' :: rest ∧ head ≠ [] ∧
      dir.components <+: componentsOf head := by
  obtain ⟨dots, rest, hspec, hdots, hslash⟩ := dots_of_isRelative h
  have hrelative : isAbsolute ⟨specifier⟩ = false := by
    obtain ⟨c, more, rfl⟩ := List.exists_cons_of_ne_nil hdots
    have hc : c ≠ '/' := fun hc => hslash (hc ▸ List.mem_cons_self)
    simp [isAbsolute, hspec, hc]
  by_cases hempty : dir.text = ""
  · refine ⟨dots, rest, by simp [join, hempty, hspec], hdots, ?_⟩
    simp [hempty, componentsOf, components, body, split, componentOf]
  · by_cases hends : dir.text.toList.getLast? = some '/'
    · obtain ⟨before, hbefore⟩ := List.getLast?_eq_some_iff.1 hends
      refine ⟨before ++ '/' :: dots, rest, ?_, by simp, ?_⟩
      · simp [join, hempty, hrelative, hbefore, hspec]
      · rw [components_eq, hbefore]
        exact componentsOf_isPrefix _ _
    · refine ⟨dir.text.toList ++ '/' :: dots, rest, ?_, by simp, ?_⟩
      · simp [join, hempty, hrelative, hends, hspec]
      · rw [components_eq, componentsOf_append_slash (by simpa using hempty)]
        exact List.prefix_append _ _

theorem dropLast_split_append (text : List Char) {more : List Char} (h : '/' ∉ more) :
    (split (text ++ more)).dropLast = (split text).dropLast := by
  induction text with
  | nil => rw [List.nil_append, split_of_noSlash h]; rfl
  | cons c text ih =>
      by_cases hc : c = '/'
      · rw [hc, List.cons_append, split_slash, split_slash,
          List.dropLast_cons_of_ne_nil (split_ne_nil _),
          List.dropLast_cons_of_ne_nil (split_ne_nil _), ih]
      · obtain ⟨first, rest, hs⟩ := List.exists_cons_of_ne_nil (split_ne_nil text)
        obtain ⟨first', rest', hs'⟩ := List.exists_cons_of_ne_nil (split_ne_nil (text ++ more))
        rw [hs, hs'] at ih
        simp only [List.cons_append, split, beq_iff_eq, hc, if_false, hs, hs']
        cases rest <;> cases rest' <;> simp_all

theorem toList_of_stripSuffix? {suffix text stem : String}
    (h : stripSuffix? suffix text = some stem) : text.toList = stem.toList ++ suffix.toList := by
  unfold stripSuffix? at h
  split at h
  · next hsuffix =>
      obtain ⟨before, hbefore⟩ := List.isSuffixOf_iff_suffix.1 hsuffix
      have hlength : text.length - suffix.length = before.length := by
        rw [← String.length_toList, ← hbefore, List.length_append, String.length_toList,
          Nat.add_sub_cancel]
      rw [← Option.some.inj h, String.toList_ofList, hlength, ← hbefore, List.take_left]
  · cases h

theorem exists_tail_of_ending {text head front : List Char} (more other : List Char)
    (htext : text = head ++ '/' :: (front ++ more)) (hsource : sourceSuffix <:+ more)
    (hmore : '/' ∉ more) (hother : '/' ∉ other) :
    ∃ tail, text = head ++ '/' :: tail ∧ sourceSuffix <:+ tail ∧
      (split tail).dropLast ⊆ split (front ++ other) := by
  refine ⟨front ++ more, htext, hsource.trans (List.suffix_append _ _), ?_⟩
  rw [dropLast_split_append _ hmore, ← dropLast_split_append _ hother]
  exact List.dropLast_subset _

theorem exists_tail_of_candidate {dir c : Path} {specifier : String} {head rest : List Char}
    (hbase : (dir.join ⟨specifier⟩).text.toList = head ++ '/' :: rest)
    (h : c ∈ sourceCandidates dir specifier) :
    ∃ tail, c.text.toList = head ++ '/' :: tail ∧ sourceSuffix <:+ tail ∧
      (split tail).dropLast ⊆ split rest := by
  unfold sourceCandidates at h
  set base := dir.join ⟨specifier⟩ with hb
  have extended (more : List Char) (htext : c.text.toList = base.text.toList ++ more)
      (hsource : sourceSuffix <:+ more) (hmore : '/' ∉ more) :
      ∃ tail, c.text.toList = head ++ '/' :: tail ∧ sourceSuffix <:+ tail ∧
        (split tail).dropLast ⊆ split rest := by
    have htail : c.text.toList = head ++ '/' :: (rest ++ more) := by simp [htext, hbase]
    have hending := exists_tail_of_ending more [] htail hsource hmore List.not_mem_nil
    rwa [List.append_nil] at hending
  simp only at h
  split at h
  · next stem hstem =>
      have hstripped := toList_of_stripSuffix? hstem
      rw [hbase] at hstripped
      obtain ⟨before, rfl⟩ := isSuffix_behind_slash (by decide) ⟨_, hstripped.symm⟩
      have hstem : stem.toList = head ++ '/' :: before := by
        refine (List.append_left_inj ".js".toList).1 ?_
        rw [← hstripped, List.append_assoc, List.cons_append]
      rcases List.mem_pair.1 h with rfl | rfl
      · exact exists_tail_of_ending sourceSuffix ".js".toList (by simp [hstem, sourceSuffix])
          (by decide) (by decide) (by decide)
      · exact exists_tail_of_ending ".d.ts".toList ".js".toList (by simp [hstem])
          (by decide) (by decide) (by decide)
  · split at h
    · next hsuffix =>
        rw [hasSuffix, List.isSuffixOf_iff_suffix, hbase] at hsuffix
        rw [List.mem_singleton] at h
        exact ⟨rest, h ▸ hbase, isSuffix_behind_slash (by decide) hsuffix, List.dropLast_subset _⟩
    · rcases List.mem_pair.1 h with rfl | rfl
      · exact extended sourceSuffix (by simp [sourceSuffix]) (by decide) (by decide)
      · have hne : base.text ≠ "" := fun h => by simp [h] at hbase
        by_cases hends : base.text.toList.getLast? = some '/'
        · exact extended "index.ts".toList (by simp [join, isAbsolute, hne, hends])
            (by decide) (by decide)
        · have hindex : split (rest ++ '/' :: "index.ts".toList)
              = split rest ++ ["index.ts".toList] := by
            rw [split_append_slash, split_of_noSlash (by decide : '/' ∉ "index.ts".toList)]
          have hjoin : (base.join ⟨"index.ts"⟩).text.toList
              = base.text.toList ++ '/' :: "index.ts".toList := by
            simp [join, isAbsolute, hne, hends]
          refine ⟨rest ++ '/' :: "index.ts".toList, ?_, ?_, ?_⟩
          · rw [hjoin, hbase, List.append_assoc, List.cons_append]
          · exact (by decide : sourceSuffix <:+ '/' :: "index.ts".toList).trans
              (List.suffix_append _ _)
          · rw [hindex, List.dropLast_concat]
            exact List.Subset.refl _

theorem text_of_candidate {dir c : Path} {specifier : String} {head rest : List Char}
    (hbase : (dir.join ⟨specifier⟩).text.toList = head ++ '/' :: rest)
    (h : c ∈ sourceCandidates dir specifier) :
    ∃ tail, c.text.toList = head ++ '/' :: tail ∧ sourceSuffix <:+ tail := by
  obtain ⟨tail, htext, hsource, -⟩ := exists_tail_of_candidate hbase h
  exact ⟨tail, htext, hsource⟩

theorem components_of_resolveSpecifier {disk : Disk} {dir p : Path} {specifier : String}
    (h : resolveSpecifier disk dir specifier = some p) :
    ∃ more name, p.components = dir.components ++ more ++ [.name name] ∧
      dir.components ++ more ≠ [] := by
  unfold resolveSpecifier at h
  split at h
  · next hrelative =>
      obtain ⟨head, rest, hbase, hhead, more, hmore⟩ := join_relative dir hrelative
      obtain ⟨tail, htext, hsource⟩ := text_of_candidate hbase (List.mem_of_find?_eq_some h)
      obtain ⟨behind, name, hcomponents, -⟩ := components_source hhead htext hsource
      refine ⟨more ++ behind, name, by rw [hcomponents, ← hmore, List.append_assoc dir.components], ?_⟩
      rw [← List.append_assoc, hmore]
      exact fun hnil => componentsOf_ne_nil hhead (List.append_eq_nil_iff.1 hnil).1
  · exact absurd h (by simp)

theorem isFile_of_resolveSpecifier {disk : Disk} {dir p : Path} {specifier : String}
    (h : resolveSpecifier disk dir specifier = some p) : disk.isFile p = true := by
  unfold resolveSpecifier at h
  split at h
  · exact List.find?_some h
  · exact absurd h (by simp)

namespace Disk

def enter (here : Location) : Path.Component → Location
  | .root => []
  | .here => here
  | .up => here.dropLast
  | .name s => here ++ [s]

theorem place_eq (d : Disk) (p : Path) :
    d.place p = p.components.foldl enter d.workingDirectory := by
  unfold place
  congr 1

theorem step_eq {d : Disk} {here l : Location} {piece : List Char} (h : d.step here piece = .ok l) :
    l = ((componentOf piece).toList).foldl enter here := by
  unfold step at h
  unfold componentOf
  split at h
  · exact absurd h (by simp)
  · exact absurd h (by simp)
  · split at h
    · next htrivial => simpa [htrivial] using h.symm
    · next htrivial =>
        split at h
        · next hup => simpa [hup, enter] using h.symm
        · next hup =>
            split at h
            · exact absurd h (by simp)
            · simpa [htrivial, hup, enter] using h.symm

theorem foldlM_step_eq {d : Disk} {pieces : List (List Char)} {here l : Location}
    (h : pieces.foldlM d.step here = .ok l) : l = (pieces.filterMap componentOf).foldl enter here := by
  induction pieces generalizing here with
  | nil => exact (pure_eq_ok.1 h).symm
  | cons piece pieces ih =>
      rw [List.foldlM_cons, bind_eq_ok] at h
      obtain ⟨next, hstep, h⟩ := h
      have hrest := ih h
      have hnext := step_eq hstep
      cases hc : componentOf piece with
      | none => simpa [hc, hnext] using hrest
      | some k => simpa [hc, hnext] using hrest

theorem foldl_firstComponent (here : Location) (piece : List Char) :
    (firstComponent piece).toList.foldl enter here
      = (componentOf piece).toList.foldl enter here := by
  -- a leading dot is a component of its own, but leads nowhere
  unfold firstComponent
  split
  · next hdot => simp [hdot, componentOf, enter]
  · rfl

theorem foldl_componentsOf {text : List Char} (h : ∀ more, text ≠ '/' :: more) (here : Location) :
    (componentsOf text).foldl enter here
      = ((split text).filterMap componentOf).foldl enter here := by
  rcases text with - | ⟨c, text⟩
  · simp [componentsOf, components, body, split, componentOf]
  · have hc : c ≠ '/' := fun hc => h text (by rw [hc])
    obtain ⟨first, rest, hs⟩ := split_cons hc text
    rw [componentsOf_of_split hs, hs, List.foldl_append, foldl_firstComponent]
    cases hc : componentOf (c :: first) <;> simp [hc]

theorem locate_eq {d : Disk} {p : Path} {l : Location} (h : d.locate p = .ok l) :
    l = d.place p ∧ p.text.utf8ByteSize ≤ 4095 := by
  unfold locate at h
  split at h
  · exact absurd h (by simp)
  · split at h
    · exact absurd h (by simp)
    · next hsize =>
        refine ⟨?_, Nat.le_of_not_lt hsize⟩
        rw [place_eq, components_eq]
        split at h
        · next habsolute =>
            obtain ⟨rest, htext⟩ : ∃ rest, p.text.toList = '/' :: rest := by
              simpa [isAbsolute, List.head?_eq_some_iff] using habsolute
            have hplace := foldlM_step_eq h
            rw [htext, split_slash] at hplace
            simpa [htext, componentsOf_root, enter, componentOf] using hplace
        · next hrelative =>
            rw [foldl_componentsOf]
            · exact foldlM_step_eq h
            · intro more htext
              exact hrelative (by simp [isAbsolute, htext])

theorem isFile_place {d : Disk} {p : Path} (h : d.isFile p = true) :
    d.place p ∈ d.entries.map (·.1) ∧ p.text.utf8ByteSize ≤ 4095 := by
  unfold isFile at h
  split at h
  · next content hlookup =>
      unfold lookup at hlookup
      rw [bind_eq_ok] at hlookup
      obtain ⟨l, hl, hlookup⟩ := hlookup
      obtain ⟨hplace, hsize⟩ := locate_eq hl
      split at hlookup
      · next n hnode =>
          obtain rfl := pure_eq_ok.1 hlookup
          unfold node? at hnode
          split at hnode
          · exact absurd hnode (by simp)
          · obtain ⟨before, after, hentries, -⟩ := List.lookup_eq_some_iff.1 hnode
            exact ⟨by simp [hentries, ← hplace], hsize⟩
      · exact absurd hlookup (by simp)
  · exact absurd h (by simp)

end Disk

end ElementBridge
