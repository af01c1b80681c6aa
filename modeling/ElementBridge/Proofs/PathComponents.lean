import ElementBridge.Path

namespace ElementBridge.Path

theorem split_slash (text : List Char) : split ('/' :: text) = [] :: split text := by
  simp [split]

theorem split_append_slash (a b : List Char) : split (a ++ '/' :: b) = split a ++ split b := by
  induction a with
  | nil => rw [List.nil_append, split_slash]; rfl
  | cons c a ih =>
      by_cases hc : c = '/'
      · rw [hc, List.cons_append, split_slash, split_slash, ih, List.cons_append]
      · obtain ⟨piece, pieces, hs⟩ := List.exists_cons_of_ne_nil (split_ne_nil a)
        simp [split, hc, ih, hs]

theorem split_of_noSlash {text : List Char} (h : '/' ∉ text) : split text = [text] := by
  induction text with
  | nil => rfl
  | cons c text ih =>
      have hc : c ≠ '/' := fun hc => h (hc ▸ List.mem_cons_self)
      simp [split, hc, ih fun hmem => h (List.mem_cons_of_mem _ hmem)]

theorem noSlash_of_mem_split {text piece : List Char} (h : piece ∈ split text) : '/' ∉ piece := by
  induction text generalizing piece with
  | nil =>
      have hp : piece = [] := by simpa [split] using h
      simp [hp]
  | cons c text ih =>
      by_cases hc : c = '/'
      · rw [hc, split_slash, List.mem_cons] at h
        rcases h with rfl | h
        · exact List.not_mem_nil
        · exact ih h
      · obtain ⟨first, rest, hs⟩ := List.exists_cons_of_ne_nil (split_ne_nil text)
        have hfirst : '/' ∉ first := ih (hs ▸ List.mem_cons_self)
        simp only [split, beq_iff_eq, hc, if_false, hs, List.mem_cons] at h
        rcases h with rfl | h
        · simp [hfirst, Ne.symm hc]
        · exact ih (hs ▸ List.mem_cons_of_mem _ h)

theorem length_split_le (text : List Char) : (split text).length ≤ text.length + 1 := by
  induction text with
  | nil => simp [split]
  | cons c text ih =>
      by_cases hc : c = '/'
      · simpa [hc, split_slash] using ih
      · obtain ⟨first, rest, hs⟩ := List.exists_cons_of_ne_nil (split_ne_nil text)
        rw [hs, List.length_cons] at ih
        simp only [split, beq_iff_eq, hc, if_false, hs, List.length_cons]
        omega

theorem split_joinPieces {pieces : List (List Char)} (hne : pieces ≠ [])
    (h : ∀ piece ∈ pieces, '/' ∉ piece) : split (joinPieces pieces) = pieces := by
  induction pieces with
  | nil => exact absurd rfl hne
  | cons piece pieces ih =>
      have hpiece := split_of_noSlash (h piece List.mem_cons_self)
      cases pieces with
      | nil => exact hpiece
      | cons next rest =>
          have hrest := ih (List.cons_ne_nil _ _) fun q hq => h q (List.mem_cons_of_mem _ hq)
          rw [joinPieces, split_append_slash, hpiece, hrest]
          · rfl
          · exact List.cons_ne_nil _ _

def componentsOf (text : List Char) : List Component := components ⟨String.ofList text⟩

theorem components_eq (p : Path) : p.components = componentsOf p.text.toList := by
  rw [componentsOf, String.ofList_toList]

theorem componentsOf_root (rest : List Char) :
    componentsOf ('/' :: rest) = .root :: (split rest).filterMap componentOf := by
  simp [componentsOf, components, body]

def firstComponent (piece : List Char) : Option Component :=
  if piece = ['.'] then some .here else componentOf piece

theorem split_cons {c : Char} (hc : c ≠ '/') (text : List Char) :
    ∃ first rest, split (c :: text) = (c :: first) :: rest := by
  obtain ⟨first, rest, hs⟩ := List.exists_cons_of_ne_nil (split_ne_nil text)
  exact ⟨first, rest, by simp [split, hc, hs]⟩

theorem body_of_split {p : Path} {c : Char} {first : List Char} {rest : List (List Char)}
    (hs : split p.text.toList = (c :: first) :: rest) :
    p.body = if c :: first = ['.'] then (some .here, rest) else (none, (c :: first) :: rest) := by
  unfold body
  split
  · next more htext => simp [htext, split_slash] at hs
  · rw [hs]
    split
    · next hdot =>
        rw [List.cons.injEq] at hdot
        rw [if_pos hdot.1, hdot.2]
    · next hfirst => rw [if_neg fun hdot => hfirst rest (by rw [hdot])]

theorem componentsOf_of_split {text first : List Char} {c : Char} {rest : List (List Char)}
    (hs : split text = (c :: first) :: rest) :
    componentsOf text = (firstComponent (c :: first)).toList ++ rest.filterMap componentOf := by
  rw [componentsOf, components, body_of_split (by rw [String.toList_ofList, hs]), firstComponent]
  by_cases hdot : c :: first = ['.']
  · simp [hdot]
  · cases hfirst : componentOf (c :: first) <;> simp [hdot, hfirst]

theorem componentsOf_append_slash {text : List Char} (hne : text ≠ []) (more : List Char) :
    componentsOf (text ++ '/' :: more) = componentsOf text ++ (split more).filterMap componentOf := by
  obtain ⟨c, text, rfl⟩ := List.exists_cons_of_ne_nil hne
  by_cases hc : c = '/'
  · rw [hc, List.cons_append, componentsOf_root, componentsOf_root, split_append_slash,
      List.filterMap_append, List.cons_append]
  · obtain ⟨first, rest, hs⟩ := split_cons hc text
    have hlong : split (c :: text ++ '/' :: more) = (c :: first) :: (rest ++ split more) := by
      rw [split_append_slash, hs, List.cons_append]
    rw [componentsOf_of_split hs, componentsOf_of_split hlong, List.filterMap_append,
      List.append_assoc]

theorem length_componentsOf_le (text : List Char) :
    (componentsOf text).length ≤ text.length + 1 := by
  rcases text with - | ⟨c, text⟩
  · simp [componentsOf, components, body, split, componentOf]
  · by_cases hc : c = '/'
    · have hpieces := length_split_le text
      have hkept := List.length_filterMap_le componentOf (split text)
      rw [hc, componentsOf_root, List.length_cons, List.length_cons]
      omega
    · obtain ⟨first, rest, hs⟩ := split_cons hc text
      have hpieces := length_split_le (c :: text)
      have hkept := List.length_filterMap_le componentOf rest
      have hfirst := (firstComponent (c :: first)).length_toList_le
      rw [componentsOf_of_split hs, List.length_append]
      rw [hs, List.length_cons] at hpieces
      omega

theorem firstComponent_isSome (c : Char) (first : List Char) :
    (firstComponent (c :: first)).isSome := by
  unfold firstComponent componentOf
  split
  · rfl
  · next hdot =>
      rw [if_neg (by simp [hdot])]
      split <;> rfl

theorem componentsOf_ne_nil {text : List Char} (hne : text ≠ []) : componentsOf text ≠ [] := by
  obtain ⟨c, text, rfl⟩ := List.exists_cons_of_ne_nil hne
  by_cases hc : c = '/'
  · rw [hc, componentsOf_root]
    exact List.cons_ne_nil _ _
  · obtain ⟨first, rest, hs⟩ := split_cons hc text
    obtain ⟨k, hk⟩ := Option.isSome_iff_exists.1 (firstComponent_isSome c first)
    rw [componentsOf_of_split hs, hk]
    exact List.cons_ne_nil _ _

theorem dropTrivial_isPrefix (pieces : List (List Char)) : dropTrivial pieces <+: pieces := by
  have h : (pieces.reverse.dropWhile fun piece => (componentOf piece).isNone) <:+ pieces.reverse :=
    List.dropWhile_suffix _
  simpa [dropTrivial] using List.reverse_prefix.2 h

theorem filterMap_dropTrivial (pieces : List (List Char)) :
    (dropTrivial pieces).filterMap componentOf = pieces.filterMap componentOf := by
  have h : ∀ reversed : List (List Char),
      (reversed.dropWhile fun piece => (componentOf piece).isNone).filterMap componentOf
        = reversed.filterMap componentOf := by
    intro reversed
    induction reversed with
    | nil => rfl
    | cons piece rest ih =>
        cases hc : componentOf piece with
        | none => simp [hc, ih]
        | some k => simp [hc]
  rw [dropTrivial, List.filterMap_reverse, h, List.filterMap_reverse, List.reverse_reverse]

theorem dropTrivial_last {pieces : List (List Char)} {last : List Char} {before : List (List Char)}
    (h : (dropTrivial pieces).reverse = last :: before) : (componentOf last).isSome := by
  rw [dropTrivial, List.reverse_reverse] at h
  have hlast := List.head?_dropWhile_not (fun piece => (componentOf piece).isNone) pieces.reverse
  rw [h] at hlast
  simpa [Option.isSome_iff_ne_none] using hlast

theorem filterMap_split_joinPieces {pieces : List (List Char)}
    (h : ∀ piece ∈ pieces, '/' ∉ piece) :
    (split (joinPieces pieces)).filterMap componentOf = pieces.filterMap componentOf := by
  by_cases hne : pieces = []
  · simp [hne, joinPieces, split, componentOf]
  · rw [split_joinPieces hne h]

def directoryText : Option Component → List (List Char) → List Char
  | some .root, kept => '/' :: joinPieces kept
  | some _, kept => joinPieces (['.'] :: kept)
  | none, kept => joinPieces kept

theorem parent_of_body {p : Path} {start : Option Component} {pieces : List (List Char)}
    {before : List Component} {last : Component} (hbody : p.body = (start, pieces))
    (hpieces : pieces.filterMap componentOf = before ++ [last]) :
    ∃ kept, kept <+: pieces ∧ kept.filterMap componentOf = before ∧
      p.parent.text.toList = directoryText start kept := by
  cases hlast : (dropTrivial pieces).reverse with
  | nil =>
      have hempty : dropTrivial pieces = [] := List.reverse_eq_nil_iff.1 hlast
      have hnone := filterMap_dropTrivial pieces
      rw [hempty, hpieces] at hnone
      exact absurd hnone.symm (by simp)
  | cons piece reversed =>
      obtain ⟨k, hk⟩ := Option.isSome_iff_exists.1 (dropTrivial_last hlast)
      have hsplit : dropTrivial pieces = reversed.reverse ++ [piece] := by
        rw [← List.reverse_reverse (dropTrivial pieces), hlast, List.reverse_cons]
      have hbefore : reversed.reverse.filterMap componentOf = before := by
        have hall := filterMap_dropTrivial pieces
        rw [hsplit, hpieces, List.filterMap_append, List.filterMap_cons_some hk,
          List.filterMap_nil] at hall
        exact List.append_inj_left' hall rfl
      refine ⟨dropTrivial reversed.reverse, ?_, ?_, ?_⟩
      · have hprefix : reversed.reverse <+: pieces :=
          (hsplit ▸ List.prefix_append _ _).trans (dropTrivial_isPrefix pieces)
        exact (dropTrivial_isPrefix _).trans hprefix
      · rw [filterMap_dropTrivial, hbefore]
      · rw [parent, parent?, hbody]
        simp only [hlast]
        rcases start with - | - | - | - | name <;> simp [directoryText]

theorem body_cases (p : Path) :
    (∃ text, p.body = (some .root, split text)) ∨
    (∃ rest, split p.text.toList = ['.'] :: rest ∧ p.body = (some .here, rest)) ∨
    (∃ c first rest, split p.text.toList = (c :: first) :: rest ∧ c :: first ≠ ['.'] ∧
      p.body = (none, (c :: first) :: rest)) ∨
    p.body = (none, [[]]) := by
  rcases htext : p.text.toList with - | ⟨c, text⟩
  · exact .inr (.inr (.inr (by simp [body, htext, split])))
  · by_cases hc : c = '/'
    · exact .inl ⟨text, by simp [body, htext, hc]⟩
    · obtain ⟨first, rest, hs⟩ := split_cons hc text
      have hbody := body_of_split (p := p) (htext ▸ hs)
      by_cases hdot : c :: first = ['.']
      · exact .inr (.inl ⟨rest, hdot ▸ hs, by rw [hbody, if_pos hdot]⟩)
      · exact .inr (.inr (.inl ⟨c, first, rest, hs, hdot, by rw [hbody, if_neg hdot]⟩))

theorem componentsOf_directoryText {p : Path} {start : Option Component}
    {pieces kept : List (List Char)} (hbody : p.body = (start, pieces)) (hkept : kept <+: pieces) :
    componentsOf (directoryText start kept) = start.toList ++ kept.filterMap componentOf := by
  rcases body_cases p with ⟨text, h⟩ | ⟨rest, hs, h⟩ | ⟨c, first, rest, hs, hdot, h⟩ | h
  all_goals
    rw [hbody, Prod.mk.injEq] at h
    obtain ⟨rfl, rfl⟩ := h
  · have hnoSlash : ∀ piece ∈ kept, '/' ∉ piece := fun piece hp =>
      noSlash_of_mem_split (hkept.subset hp)
    rw [directoryText, componentsOf_root, filterMap_split_joinPieces hnoSlash]
    rfl
  · have hnoSlash : ∀ piece ∈ ['.'] :: kept, '/' ∉ piece := by
      intro piece hp
      have hmem : piece ∈ ['.'] :: pieces := List.cons_subset_cons _ hkept.subset hp
      exact noSlash_of_mem_split (hs ▸ hmem)
    rw [directoryText, componentsOf_of_split (split_joinPieces (List.cons_ne_nil _ _) hnoSlash)]
    · rfl
    · exact fun h => nomatch h
  · rcases kept with - | ⟨piece, kept⟩
    · simp [directoryText, joinPieces, componentsOf, components, body, split, componentOf]
    · have hnoSlash : ∀ q ∈ piece :: kept, '/' ∉ q := fun q hq =>
        noSlash_of_mem_split (hs ▸ hkept.subset hq)
      obtain rfl : piece = c :: first := (List.cons_prefix_cons.1 hkept).1
      rw [directoryText, componentsOf_of_split (split_joinPieces (List.cons_ne_nil _ _) hnoSlash),
        firstComponent, if_neg hdot]
      cases hfirst : componentOf (c :: first) <;> simp [hfirst]
  · have hkept' : kept = [] ∨ kept = [[]] := by
      rcases kept with - | ⟨piece, kept⟩
      · exact .inl rfl
      · obtain ⟨rfl, hrest⟩ := List.cons_prefix_cons.1 hkept
        exact .inr (by rw [List.prefix_nil.1 hrest])
    rcases hkept' with rfl | rfl <;>
      simp [directoryText, joinPieces, componentsOf, components, body, split, componentOf]

theorem body_start_ne_name (p : Path) (name : String) : p.body.1 ≠ some (.name name) := by
  rcases body_cases p with ⟨_, h⟩ | ⟨_, _, h⟩ | ⟨_, _, _, _, _, h⟩ | h <;> simp [h]

theorem components_parent {p : Path} {before : List Component} {name : String}
    (h : p.components = before ++ [.name name]) : p.parent.components = before := by
  rcases hbody : p.body with ⟨start, pieces⟩
  have hcomponents : p.components = start.toList ++ pieces.filterMap componentOf := by
    rw [components, hbody]
  have hname : ∀ name, start ≠ some (.name name) := fun name => by
    simpa [hbody] using body_start_ne_name p name
  obtain ⟨shorter, hshorter, hpieces⟩ : ∃ shorter, before = start.toList ++ shorter ∧
      pieces.filterMap componentOf = shorter ++ [.name name] := by
    rw [hcomponents] at h
    cases start with
    | none => exact ⟨before, rfl, h⟩
    | some k =>
        cases before with
        | nil => exact absurd (by simpa using (List.cons.inj h).1) (hname name)
        | cons first shorter =>
            obtain ⟨rfl, hrest⟩ := List.cons.inj h
            exact ⟨shorter, rfl, hrest⟩
  obtain ⟨kept, hkept, hbefore, hparent⟩ := parent_of_body hbody hpieces
  rw [components_eq, hparent, componentsOf_directoryText hbody hkept, hbefore, hshorter]

end ElementBridge.Path
