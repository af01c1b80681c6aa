import Mathlib.Data.List.Nodup
import Mathlib.Data.List.Pairwise
import ElementBridge.Proofs.LoadingOrder
import ElementBridge.Proofs.LoadingRoom

namespace ElementBridge

namespace ModuleTable

def paths (t : ModuleTable) : List Path := t.map (·.path)

theorem mem_paths {t : ModuleTable} {p : Path} : p ∈ paths t ↔ ∃ m ∈ t, m.path = p := by
  simp [paths]

theorem path_mem_paths {t : ModuleTable} {m : LoadedModule} (h : m ∈ t) : m.path ∈ paths t :=
  List.mem_map_of_mem h

theorem paths_snoc (t : ModuleTable) (m : LoadedModule) : paths (t ++ [m]) = paths t ++ [m.path] := by
  simp [paths]

/-- What a table holds while its modules are loaded. Those in progress have no exports yet. -/
structure Records (disk : Disk) (t : ModuleTable) (completed : List Path) : Prop where
  met : disk.IsMet (paths t)
  subset : completed ⊆ paths t
  finished : ∀ m ∈ t, m.path ∈ completed →
    ∀ x, x ∈ m.exported ↔ disk.PassedOn completed m.path x
  waiting : ∀ m ∈ t, m.path ∉ completed → m.exported = []

namespace Records

variable {disk : Disk} {t : ModuleTable} {completed : List Path} {p q : Path} {x : String}

theorem nil (disk : Disk) : Records disk [] [] := by
  refine ⟨⟨?_, List.Pairwise.nil⟩, List.nil_subset _, ?_, ?_⟩
  · exact fun p hp => absurd hp List.not_mem_nil
  · exact fun m hm => absurd hm List.not_mem_nil
  · exact fun m hm => absurd hm List.not_mem_nil

theorem find_eq_some (h : Records disk t completed) {m : LoadedModule} (hm : m ∈ t)
    (hsame : m.path.same q = true) : ∃ m', t.find q = some m' ∧ m'.path = m.path := by
  cases hfind : t.find q with
  | none => exact absurd hsame (by simp [find_eq_none.1 hfind m hm])
  | some m' =>
      have hm' : m' ∈ t := List.mem_of_find?_eq_some hfind
      have hboth := Path.same_trans (find_path hfind) (Path.same_comm _ _ ▸ hsame)
      exact ⟨m', rfl, h.met.eq_of_same (path_mem_paths hm') (path_mem_paths hm) hboth⟩

theorem mem_exported_iff (h : Records disk t completed) {m : LoadedModule} (hm : m ∈ t) :
    x ∈ m.exported ↔ disk.PassedOn completed m.path x := by
  by_cases hdone : m.path ∈ completed
  · exact h.finished m hm hdone x
  · rw [h.waiting m hm hdone]
    exact ⟨fun hx => absurd hx List.not_mem_nil, fun hx => absurd hx.mem hdone⟩

theorem enter (h : Records disk t completed) (hp : disk.IsSource p)
    (hfresh : ∀ q ∈ paths t, q.same p = false) :
    Records disk (t ++ [⟨p, []⟩]) completed := by
  have hp' : p ∉ completed := fun hmem =>
    absurd (Path.same_refl p) (by simp [hfresh p (h.subset hmem)])
  refine ⟨?_, ?_, ?_, ?_⟩
  · rw [paths_snoc]
    exact h.met.snoc hp hfresh
  · intro q hq
    rw [paths_snoc]
    exact List.mem_append_left _ (h.subset hq)
  · intro m hm hdone
    rcases List.mem_append.1 hm with hm | hm
    · exact h.finished m hm hdone
    · rw [List.mem_singleton.1 hm] at hdone
      exact absurd hdone hp'
  · intro m hm hdone
    rcases List.mem_append.1 hm with hm | hm
    · exact h.waiting m hm hdone
    · rw [List.mem_singleton.1 hm]

theorem mem_passed_iff (h : Records disk t completed) (hp : p ∉ completed) :
    x ∈ passed disk t p ↔ disk.PassedOn (p :: completed) p x := by
  rw [mem_passed, Disk.PassedOn.cons_iff hp]
  refine or_congr_right ⟨?_, ?_⟩
  · rintro ⟨q, hq, m, hfind, hx⟩
    have hm : m ∈ t := List.mem_of_find?_eq_some hfind
    exact ⟨q, hq, m.path, find_path hfind, (h.mem_exported_iff hm).1 hx⟩
  · rintro ⟨q, hq, r, hsame, hx⟩
    obtain ⟨m, hm, rfl⟩ := mem_paths.1 (h.subset hx.mem)
    obtain ⟨m', hfind, hpath⟩ := h.find_eq_some hm hsame
    have hm' : m' ∈ t := List.mem_of_find?_eq_some hfind
    exact ⟨q, hq, m', hfind, (h.mem_exported_iff hm').2 (hpath ▸ hx)⟩

theorem paths_complete (disk : Disk) (t : ModuleTable) (p : Path) :
    paths (complete disk t p) = paths t := by
  rw [complete, setExports, paths, paths, List.map_map]
  refine List.map_congr_left fun m _ => ?_
  simp only [Function.comp]
  split <;> rfl

theorem complete (h : Records disk t completed) (hmet : p ∈ paths t) (hp : p ∉ completed) :
    Records disk (complete disk t p) (p :: completed) := by
  have hpath := paths_complete disk t p
  have entry {m : LoadedModule} (hm : m ∈ ModuleTable.complete disk t p) :
      (m.path = p ∧ m.exported = passed disk t p) ∨ (m.path ≠ p ∧ m ∈ t) := by
    obtain ⟨m₀, hm₀, rfl⟩ := List.mem_map.1 hm
    split
    · next hsame =>
        have hm₀' := path_mem_paths hm₀
        exact .inl ⟨h.met.eq_of_same hm₀' hmet hsame, rfl⟩
    · next hsame => exact .inr ⟨fun heq => hsame (heq ▸ Path.same_refl _), hm₀⟩
  refine ⟨hpath ▸ h.met, ?_, ?_, ?_⟩
  · rw [hpath]
    exact List.cons_subset.2 ⟨hmet, h.subset⟩
  · intro m hm hdone x
    rcases entry hm with ⟨rfl, hexported⟩ | ⟨hne, hm⟩
    · rw [hexported, h.mem_passed_iff hp]
    · rw [Disk.PassedOn.cons_of_ne hne, h.mem_exported_iff hm]
  · intro m hm hdone
    rcases entry hm with ⟨rfl, -⟩ | ⟨-, hm⟩
    · exact absurd List.mem_cons_self hdone
    · exact h.waiting m hm fun hmem => hdone (List.mem_cons_of_mem _ hmem)

end Records

variable {disk : Disk} {t : ModuleTable} {completed : List Path} {p : Path}

def Follows (disk : Disk) (t : ModuleTable) (completed ps : List Path) (t' : ModuleTable) : Prop :=
  ∃ completed', Records disk t' completed' ∧
    Loads disk ⟨paths t, completed⟩ ps ⟨paths t', completed'⟩

theorem follows_foldl {depth : Nat}
    (hload : ∀ {t : ModuleTable} {completed : List Path} {p : Path}, Records disk t completed →
      disk.IsSource p → disk.room (paths t) p ≤ depth →
      Follows disk t completed [p] (load disk depth t p))
    {ps : List Path} (h : Records disk t completed)
    (hps : ∀ p ∈ ps, disk.IsSource p ∧ disk.room (paths t) p ≤ depth) :
    Follows disk t completed ps (ps.foldl (load disk depth) t) := by
  induction ps generalizing t completed with
  | nil => exact ⟨completed, h, .done _⟩
  | cons p ps ih =>
      obtain ⟨hp, hroom⟩ := hps p List.mem_cons_self
      obtain ⟨completed₁, h₁, hloads₁⟩ := hload h hp hroom
      have hrest : ∀ q ∈ ps, disk.IsSource q ∧
          disk.room (paths (load disk depth t p)) q ≤ depth := by
        intro q hq
        obtain ⟨hq, hroom⟩ := hps q (List.mem_cons_of_mem _ hq)
        exact ⟨hq, (Disk.room_antitone hloads₁.met_isPrefix).trans hroom⟩
      obtain ⟨completed', h', hloads'⟩ := ih h₁ hrest
      exact ⟨completed', h', hloads₁.append hloads'⟩

theorem follows_load {depth : Nat} (h : Records disk t completed) (hp : disk.IsSource p)
    (hroom : disk.room (paths t) p ≤ depth) :
    Follows disk t completed [p] (load disk depth t p) := by
  induction depth generalizing t completed p with
  | zero =>
      have hpos := Disk.room_pos h.met hp
      omega
  | succ depth ih =>
      cases hfind : t.find p with
      | some m =>
          rw [load_known _ hfind]
          have hm : m.path ∈ paths t :=
            path_mem_paths (List.mem_of_find?_eq_some hfind)
          exact ⟨completed, h, .known hm (find_path hfind) (.done _)⟩
      | none =>
          have hfresh : ∀ q ∈ paths t, q.same p = false := by
            intro q hq
            obtain ⟨m, hm, rfl⟩ := mem_paths.1 hq
            exact find_eq_none.1 hfind m hm
          have hnew : p ∉ paths t := fun hmem =>
            absurd (Path.same_refl p) (by simp [hfresh p hmem])
          have hentered := h.enter hp hfresh
          have hmet : paths (t ++ [⟨p, []⟩]) = paths t ++ [p] := paths_snoc t _
          have hrefs : ∀ q ∈ disk.references p, disk.IsSource q ∧
              disk.room (paths (t ++ [⟨p, []⟩])) q ≤ depth := by
            intro q hq
            obtain ⟨hq, hbelow⟩ := Disk.isSource_of_mem_references hq
            have hlt := Disk.room_lt (hmet ▸ hentered.met) hq hbelow
            rw [hmet]
            exact ⟨hq, by omega⟩
          obtain ⟨completed₁, h₁, hloads⟩ := follows_foldl ih hentered hrefs
          rw [hmet] at hloads
          have hmem : p ∈ paths t ++ [p] := List.mem_append_right _ List.mem_cons_self
          have hopen : p ∉ completed₁ := fun hdone =>
            (hloads.completed_new hdone).elim (fun hold => hnew (h.subset hold)) (· hmem)
          rw [load_fresh _ hfind]
          refine ⟨p :: completed₁, h₁.complete (hloads.met_isPrefix.subset hmem) hopen, ?_⟩
          rw [Records.paths_complete]
          exact .fresh hfresh hloads (.done _)

end ModuleTable

end ElementBridge
