import ElementBridge.Proofs.BaseWalks

namespace ElementBridge.Surface

variable {s : Surface}

/-- The interfaces that bases stand for, each behind its own lineage. What stands on the path to it
already is left out, and nothing else is: an interface that two bases share comes twice. -/
def lineage (s : Surface) (path : List String) (bases : List String) : List Interface :=
  match bases with
  | [] => []
  | base :: bases =>
      match _ : s.interface? base with
      | none => lineage s path bases
      | some b =>
          if _ : b.name ∈ path then lineage s path bases
          else lineage s (b.name :: path) b.bases ++ b :: lineage s path bases
termination_by ((s.unmet path).length, bases.length)
decreasing_by
  · exact Prod.Lex.right _ (Nat.lt_succ_self _)
  · exact Prod.Lex.right _ (Nat.lt_succ_self _)
  · exact Prod.Lex.left _ _ (length_unmet_cons (List.mem_of_find?_eq_some ‹_›) ‹_›)
  · exact Prod.Lex.right _ (Nat.lt_succ_self _)

variable {path bases : List String} {base : String} {b : Interface}

@[simp]
theorem lineage_nil : s.lineage path [] = [] := by rw [lineage]

theorem lineage_absent (hb : s.interface? base = none) :
    s.lineage path (base :: bases) = s.lineage path bases := by
  rw [lineage]
  split
  · rfl
  · next b hb' =>
      rw [hb] at hb'
      cases hb'

theorem lineage_of_mem (hb : s.interface? base = some b) (hpath : b.name ∈ path) :
    s.lineage path (base :: bases) = s.lineage path bases := by
  rw [lineage]
  split
  · rfl
  · next b' hb' =>
      obtain rfl := Option.some.inj (hb'.symm.trans hb)
      rw [dif_pos hpath]

theorem lineage_of_not_mem (hb : s.interface? base = some b) (hpath : b.name ∉ path) :
    s.lineage path (base :: bases)
      = s.lineage (b.name :: path) b.bases ++ b :: s.lineage path bases := by
  rw [lineage]
  split
  · next hnone =>
      rw [hb] at hnone
      cases hnone
  · next b' hb' =>
      obtain rfl := Option.some.inj (hb'.symm.trans hb)
      rw [dif_neg hpath]

theorem lineage_keeps {P : Interface → Prop}
    (hstep : ∀ e b, e.name ∉ path → P e → s.Extends e b → P b) :
    ∀ (longer bases : List String), (∀ x ∈ path, x ∈ longer) →
      (∀ base ∈ bases, ∀ b, s.interface? base = some b → P b) →
      ∀ e ∈ s.lineage longer bases, P e ∧ e.name ∉ longer ∧ s.interface? e.name = some e := by
  intro longer bases
  induction longer, bases using lineage.induct s with
  | case1 longer => exact fun _ _ e he => absurd he (by simp)
  | case2 longer base bases hb ih =>
      intro hlonger hbases
      rw [lineage_absent hb]
      exact ih hlonger fun base hbase => hbases base (List.mem_cons_of_mem _ hbase)
  | case3 longer base bases b hb hmem ih =>
      intro hlonger hbases
      rw [lineage_of_mem hb hmem]
      exact ih hlonger fun base hbase => hbases base (List.mem_cons_of_mem _ hbase)
  | case4 longer base bases b hb hmem ihInner ih =>
      intro hlonger hbases e he
      have hP : P b := hbases base List.mem_cons_self b hb
      rw [lineage_of_not_mem hb hmem] at he
      rcases List.mem_append.1 he with he | he
      · obtain ⟨hPe, hnew, hfirst⟩ := ihInner (fun x hx => List.mem_cons_of_mem _ (hlonger x hx))
          (fun base hbase c hc => hstep b c (fun h => hmem (hlonger _ h)) hP ⟨base, hbase, hc⟩) e he
        exact ⟨hPe, fun h => hnew (List.mem_cons_of_mem _ h), hfirst⟩
      · rcases List.mem_cons.1 he with rfl | he
        · exact ⟨hP, hmem, interface?_self hb⟩
        · exact ih hlonger (fun base hbase => hbases base (List.mem_cons_of_mem _ hbase)) e he

theorem of_mem_lineage {e : Interface} (he : e ∈ s.lineage path bases) :
    e.name ∉ path ∧ s.interface? e.name = some e :=
  (lineage_keeps (P := fun _ => True) (fun _ _ _ _ _ => trivial) path bases (fun _ hx => hx)
    (fun _ _ _ _ => trivial) e he).2

/-- Off the path, what was met before was met with everything it extends. -/
def Closed (s : Surface) (path met : List String) : Prop :=
  ∀ e b, e.name ∈ met → e.name ∉ path → s.interface? e.name = some e → s.Extends e b →
    b.name ∈ met

theorem Closed.mem_of_mem_lineage {longer met : List String} (hclosed : s.Closed path met)
    (hlonger : ∀ x ∈ path, x ∈ longer)
    (hbases : ∀ base ∈ bases, ∀ b, s.interface? base = some b → b.name ∈ met) {e : Interface}
    (he : e ∈ s.lineage longer bases) : e.name ∈ met := by
  have hstep : ∀ e b, e.name ∉ path → (e.name ∈ met ∧ s.interface? e.name = some e) →
      s.Extends e b → b.name ∈ met ∧ s.interface? b.name = some b := by
    intro e b hpath he hstep
    obtain ⟨base, -, hb⟩ := id hstep
    exact ⟨hclosed e b he.1 hpath he.2 hstep, interface?_self hb⟩
  exact (lineage_keeps hstep longer bases hlonger
    (fun base hbase b hb => ⟨hbases base hbase b hb, interface?_self hb⟩) e he).1.1

theorem Closed.enter {met : List String} (h : s.Closed path met) (name : String) :
    s.Closed (name :: path) (name :: met) := by
  intro e c he hoff hfirst hstep
  have hne : e.name ≠ name := fun heq => hoff (heq ▸ List.mem_cons_self)
  have hpath : e.name ∉ path := fun hmem => hoff (List.mem_cons_of_mem _ hmem)
  have hmet : e.name ∈ met := (List.mem_cons.1 he).resolve_left hne
  exact List.mem_cons_of_mem _ (h e c hmet hpath hfirst hstep)

theorem Closed.leave {met mid : List String} {inner : List Interface} (h : s.Closed path met)
    (hb : s.interface? b.name = some b) (hinner : s.Gathers (b.name :: met) b.bases inner mid) :
    s.Closed path mid := by
  intro e c he hoff hfirst hstep
  rcases (hinner.mem_met_iff e.name).1 he with he | ⟨i, hi, hname⟩
  · rcases List.mem_cons.1 he with hname | he
    · rw [hname, hb] at hfirst
      obtain rfl := Option.some.inj hfirst
      obtain ⟨base, hbase, hc⟩ := hstep
      exact hinner.meets_bases hbase hc
    · exact hinner.mem_of_met (List.mem_cons_of_mem _ (h e c he hoff hfirst hstep))
  · have hfirst' := hinner.first i hi
    rw [hname, hfirst] at hfirst'
    exact hinner.meets_extended i hi c (Option.some.inj hfirst' ▸ hstep)

theorem Gathers.mem_mid_iff {met mid : List String} {inner : List Interface}
    (hinner : s.Gathers (b.name :: met) b.bases inner mid) (hb : s.interface? b.name = some b)
    {e : Interface} (he : s.interface? e.name = some e) :
    e.name ∈ mid ↔ (e = b ∨ e.name ∈ met) ∨ e ∈ inner := by
  have hself : e.name = b.name ↔ e = b := by
    refine ⟨fun h => ?_, fun h => h ▸ rfl⟩
    rw [h, hb] at he
    exact (Option.some.inj he).symm
  have htaken : (∃ i ∈ inner, i.name = e.name) ↔ e ∈ inner := by
    refine ⟨fun ⟨i, hi, hname⟩ => ?_, fun h => ⟨e, h, rfl⟩⟩
    have hfirst := hinner.first i hi
    rw [hname, he] at hfirst
    exact Option.some.inj hfirst ▸ hi
  rw [hinner.mem_met_iff, List.mem_cons, hself, htaken]

/-- The walk takes the lineage without what was met before, each interface where it comes first. -/
theorem Gathers.eq_lineage {met met' : List String} {taken : List Interface}
    (h : s.Gathers met bases taken met') {path : List String} (hpath : ∀ x ∈ path, x ∈ met)
    (hclosed : s.Closed path met) :
    taken = ((s.lineage path bases).filter fun e => !met.contains e.name).eraseDups := by
  induction h generalizing path with
  | done met => simp
  | absent hnone _ ih => rw [lineage_absent hnone, ← ih hpath hclosed]
  | @again met bases met' base b taken hb hmem _ ih =>
      by_cases hb' : b.name ∈ path
      · rw [lineage_of_mem hb hb', ← ih hpath hclosed]
      · have hmet : ∀ e ∈ s.lineage (b.name :: path) b.bases, e.name ∈ met := fun e he =>
          hclosed.mem_of_mem_lineage (fun x hx => List.mem_cons_of_mem _ hx)
            (fun base hbase c hc => hclosed b c hmem hb' (interface?_self hb) ⟨base, hbase, hc⟩) he
        have hnone : (s.lineage (b.name :: path) b.bases).filter (fun e => !met.contains e.name)
            = [] := by simpa using hmet
        rw [lineage_of_not_mem hb hb', List.filter_append, hnone, List.nil_append,
          List.filter_cons_of_neg (by simpa using hmem), ← ih hpath hclosed]
  | @fresh met bases mid met' base b inner taken hb hnew hinner hrest ihInner ih =>
      have hb' : b.name ∉ path := fun h => hnew (hpath _ h)
      have hinner' := ihInner (List.forall_mem_cons.2
        ⟨List.mem_cons_self, fun x hx => List.mem_cons_of_mem _ (hpath x hx)⟩) (hclosed.enter b.name)
      have hpathMid : ∀ x ∈ path, x ∈ mid := fun x hx =>
        hinner.mem_of_met (List.mem_cons_of_mem _ (hpath x hx))
      -- No interface of the inner lineage has the name of `b`, which stands on its path.
      have hsame : (s.lineage (b.name :: path) b.bases).filter (fun e => !met.contains e.name)
          = (s.lineage (b.name :: path) b.bases).filter
              fun e => !(b.name :: met).contains e.name := by
        refine List.filter_congr fun e he => ?_
        have hne : e.name ≠ b.name := fun h => (of_mem_lineage he).1 (h ▸ List.mem_cons_self)
        rw [List.contains_cons, beq_false_of_ne hne, Bool.false_or]
      have hfresh : b ∉ (s.lineage (b.name :: path) b.bases).filter
          (fun e => !met.contains e.name) := fun h =>
        (of_mem_lineage (List.mem_filter.1 h).1).1 List.mem_cons_self
      rw [lineage_of_not_mem hb hb', List.filter_append,
        List.filter_cons_of_pos (by simpa using hnew), FirstOccurrences.eraseDups_append_cons hfresh,
        hsame, ← hinner', List.filter_filter, ih hpathMid (hclosed.leave (interface?_self hb) hinner)]
      refine congrArg (fun l => inner ++ b :: List.eraseDups l) (List.filter_congr fun e he => ?_)
      have hmid := hinner.mem_mid_iff (interface?_self hb) (of_mem_lineage he).2
      rw [Bool.eq_iff_iff]
      simp only [Bool.and_eq_true, Bool.not_eq_true', List.contains_eq_mem, decide_eq_false_iff_not,
        beq_eq_false_iff_ne, hmid, hinner', List.mem_eraseDups]
      tauto

/-! ### Flattened fields -/

/-- The interfaces that give an interface its fields, in the order in which they do. -/
def givers (s : Surface) (d : Interface) : List Interface :=
  (s.lineage [d.name] d.bases).eraseDups ++ [d]

theorem exists_walk (s : Surface) (d : Interface) : ∃ taken met,
    s.Gathers [d.name] d.bases taken met ∧ s.givers d = taken ++ [d] := by
  obtain ⟨taken, met, h⟩ := s.exists_gathers [d.name] d.bases
  have hclosed : s.Closed [d.name] [d.name] := fun e b he hoff => absurd he hoff
  have hall : (s.lineage [d.name] d.bases).filter (fun e => !List.contains [d.name] e.name)
      = s.lineage [d.name] d.bases := by
    refine List.filter_eq_self.2 fun e he => ?_
    simpa using (of_mem_lineage he).1
  refine ⟨taken, met, h, ?_⟩
  rw [givers, h.eq_lineage (fun _ hx => hx) hclosed, hall]

theorem flattenFrom_of_le {d : Interface} (hd : d ∈ s.interfaces) {depth : Nat}
    (hdepth : s.interfaces.length ≤ depth) :
    (s.flattenFrom depth [] d).1 = mergeFields [] ((s.givers d).flatMap ownFields) := by
  obtain ⟨taken, met, h, hgivers⟩ := s.exists_walk d
  have hroom : (s.unmet [d.name]).length < s.interfaces.length :=
    Nat.lt_of_lt_of_le (length_unmet_cons hd List.not_mem_nil) (List.length_filter_le _ _)
  rw [h.flattenFrom (Nat.lt_of_lt_of_le hroom hdepth), hgivers]

theorem flatten_eq {d : Interface} (hd : d ∈ s.interfaces) :
    s.flatten d = mergeFields [] ((s.givers d).flatMap ownFields) :=
  flattenFrom_of_le hd (Nat.le_add_right _ _)

variable {d : Interface}

theorem nodup_givers (hd : s.interface? d.name = some d) : (s.givers d).Nodup := by
  obtain ⟨taken, met, h, hgivers⟩ := s.exists_walk d
  rw [hgivers]
  refine List.nodup_append'.2 ⟨h.nodup, List.nodup_singleton d, fun e he he' => ?_⟩
  obtain rfl := List.mem_singleton.1 he'
  exact h.unmet_before e he List.mem_cons_self

theorem Inherits.first {b e : Interface} (h : s.Inherits b e)
    (hb : s.interface? b.name = some b) : s.interface? e.name = some e := by
  induction h with
  | self => exact hb
  | base _ hc _ ih => exact ih (interface?_self hc)

/-- The bases of a declaration lead to another one of its name. -/
def ComesBack (s : Surface) (d : Interface) : Prop :=
  ∃ e, s.Inherits d e ∧ e.name = d.name ∧ e ≠ d

theorem not_comesBack_of_first (hd : s.interface? d.name = some d) : ¬ s.ComesBack d := by
  rintro ⟨e, he, hname, hne⟩
  have hfirst := he.first hd
  rw [hname, hd] at hfirst
  exact hne (Option.some.inj hfirst).symm

theorem extends_mem_givers {e b : Interface} (he : e ∈ s.givers d) (hstep : s.Extends e b) :
    b ∈ s.givers d ∨ b.name = d.name ∧ b ≠ d := by
  obtain ⟨taken, met, h, hgivers⟩ := s.exists_walk d
  rw [hgivers] at he ⊢
  have hmet : b.name ∈ met := by
    rcases List.mem_append.1 he with he | he
    · exact h.meets_extended e he b hstep
    · obtain rfl := List.mem_singleton.1 he
      obtain ⟨base, hbase, hb⟩ := hstep
      exact h.meets_bases hbase hb
  obtain ⟨base, -, hb⟩ := hstep
  rcases (h.mem_met_iff b.name).1 hmet with hname | ⟨i, hi, hname⟩
  · by_cases hself : b = d
    · exact .inl (List.mem_append_right _ (List.mem_singleton.2 hself))
    · exact .inr ⟨List.mem_singleton.1 hname, hself⟩
  · have hfirst := h.first i hi
    rw [hname, interface?_self hb] at hfirst
    exact .inl (List.mem_append_left _ (Option.some.inj hfirst ▸ hi))

theorem self_mem_givers (s : Surface) (d : Interface) : d ∈ s.givers d :=
  List.mem_append_right _ List.mem_cons_self

theorem inherits_of_mem_givers {e : Interface} (he : e ∈ s.givers d) : s.Inherits d e := by
  obtain ⟨taken, met, h, hgivers⟩ := s.exists_walk d
  rw [hgivers] at he
  rcases List.mem_append.1 he with he | he
  · obtain ⟨base, hbase, b, hb, hreach⟩ := h.inherited e he
    exact .base hbase hb hreach
  · obtain rfl := List.mem_singleton.1 he
    exact .self e

theorem mem_givers_or_back {e : Interface} (he : s.Inherits d e) : e ∈ s.givers d ∨
    ∃ k, s.Inherits d k ∧ k.name = d.name ∧ k ≠ d ∧ s.Inherits k e := by
  induction inherits_iff.1 he with
  | refl => exact .inl (self_mem_givers s d)
  | @tail b c hreach hstep ih =>
      have hreach' : s.Inherits d c := inherits_iff.2 (hreach.tail hstep)
      rcases ih (inherits_iff.2 hreach) with hgiver | ⟨k, hk, hname, hne, hrest⟩
      · refine (extends_mem_givers hgiver hstep).imp_right fun ⟨hname, hne⟩ => ?_
        exact ⟨c, hreach', hname, hne, .self c⟩
      · exact .inr ⟨k, hk, hname, hne, inherits_iff.2 ((inherits_iff.1 hrest).tail hstep)⟩

theorem mem_givers_iff (hd : s.interface? d.name = some d) {e : Interface} :
    e ∈ s.givers d ↔ s.Inherits d e := by
  refine ⟨inherits_of_mem_givers, fun he => (mem_givers_or_back he).resolve_right ?_⟩
  rintro ⟨k, hk, hname, hne, -⟩
  exact not_comesBack_of_first hd ⟨k, hk, hname, hne⟩

theorem mem_of_extends (hd : s.interface? d.name = some d)
    (hacyclic : ∀ e, s.Inherits d e → ¬ Relation.TransGen s.Extends e e)
    {before after : List Interface} (hsplit : s.givers d = before ++ after) {j k : Interface}
    (hj : j ∈ before) (hjk : Relation.TransGen s.Extends j k) : k ∈ before := by
  have hstep : ∀ x ∈ before, ∀ y, s.Extends x y → y ∈ before := by
    intro x hx y hxy
    have hx' : x ∈ s.givers d := hsplit ▸ List.mem_append_left _ hx
    have hreach := (mem_givers_iff hd).1 hx'
    have hy : y ∈ before ++ after :=
      hsplit ▸ (mem_givers_iff hd).2 (inherits_iff.2 ((inherits_iff.1 hreach).tail hxy))
    refine (List.mem_append.1 hy).resolve_right fun hy => ?_
    obtain ⟨taken, met, h, hgivers⟩ := s.exists_walk d
    have hpair : (s.givers d).Pairwise fun x y => s.Extends x y → s.Inherits y x := by
      rw [hgivers]
      refine List.pairwise_append.2 ⟨h.pairwise, List.pairwise_singleton _ _, fun x hx y hy _ => ?_⟩
      obtain rfl := List.mem_singleton.1 hy
      obtain ⟨base, hbase, b, hb, hreach⟩ := h.inherited x hx
      exact .base hbase hb hreach
    rw [hsplit] at hpair
    have hyx := (List.pairwise_append.1 hpair).2.2 x hx y hy hxy
    exact hacyclic x hreach (.head' hxy (inherits_iff.1 hyx))
  induction hjk with
  | single hxy => exact hstep _ hj _ hxy
  | tail _ hxy ih => exact hstep _ ih _ hxy

theorem fieldNames_flatMap (ds : List Interface) :
    fieldNames (ds.flatMap ownFields) = ds.flatMap fun e => fieldNames (ownFields e) :=
  List.map_flatMap

structure IsFlattened (s : Surface) (d : Interface) (fields : List Field) : Prop where
  nodup : (fieldNames fields).Nodup
  mem_iff : ∀ name, name ∈ fieldNames fields
    ↔ ∃ e, s.Inherits d e ∧ name ∈ fieldNames (ownFields e)
  own : ∀ f ∈ ownFields d,
    fields.find? (·.name == f.name) = lastField? (ownFields d) f.name
  order : fieldNames fields
    = ((s.lineage [d.name] d.bases).flatMap (fun e => fieldNames (ownFields e))
        ++ fieldNames (ownFields d)).eraseDups
  overrides : (∀ e, s.Inherits d e → ¬ Relation.TransGen s.Extends e e) →
    ∀ f ∈ fields, ∃ k, s.Inherits d k ∧ lastField? (ownFields k) f.name = some f ∧
      ∀ j, s.Inherits d j → f.name ∈ fieldNames (ownFields j) → ¬ Relation.TransGen s.Extends j k

/-- However deep the bases go, and though they come back to where they began, the fields of an
interface are found. -/
theorem isFlattened_flatten (hd : s.interface? d.name = some d) :
    (∀ depth, s.interfaces.length ≤ depth → (s.flattenFrom depth [] d).1 = s.flatten d)
      ∧ s.IsFlattened d (s.flatten d) := by
  have hmem : d ∈ s.interfaces := List.mem_of_find?_eq_some hd
  have hnil : (fieldNames []).Nodup := List.nodup_nil
  have hflat := flatten_eq hmem
  have hnodup : (fieldNames (s.flatten d)).Nodup := hflat ▸ nodup_mergeFields hnil _
  have hnames : fieldNames (s.flatten d)
      = ((s.givers d).flatMap fun e => fieldNames (ownFields e)).eraseDups := by
    rw [hflat, fieldNames_mergeFields hnil, ← fieldNames_flatMap]
    rfl
  have hfind : ∀ name, (s.flatten d).find? (·.name == name)
      = lastField? ((s.givers d).flatMap ownFields) name := by
    intro name
    rw [hflat, find?_mergeFields, List.find?_nil, Option.or_none]
  refine ⟨fun depth hdepth => (flattenFrom_of_le hmem hdepth).trans hflat.symm, hnodup, ?_, ?_, ?_,
    ?_⟩
  · intro name
    rw [hnames, List.mem_eraseDups, List.mem_flatMap]
    simp only [mem_givers_iff hd]
  · intro f hf
    have hown : lastField? (ownFields d) f.name ≠ none := fun h =>
      lastField?_eq_none.1 h (List.mem_map_of_mem hf)
    obtain ⟨g, hg⟩ := Option.ne_none_iff_exists'.1 hown
    rw [hfind, givers, List.flatMap_append, lastField?_append, List.flatMap_cons, List.flatMap_nil,
      List.append_nil, hg, Option.some_or]
  · rw [hnames, givers, List.flatMap_append, List.flatMap_cons, List.flatMap_nil, List.append_nil,
      FirstOccurrences.eraseDups_flatMap_eraseDups]
  · intro hacyclic f hf
    have hlast := (hfind f.name).symm.trans (find?_of_mem hnodup hf)
    obtain ⟨before, k, after, hsplit, hk, hafter⟩ := exists_last_of_flatMap hlast
    have hkd : s.Inherits d k := (mem_givers_iff hd).1 (by simp [hsplit])
    refine ⟨k, hkd, hk, fun j hj hname hjk => ?_⟩
    have hj' : j ∈ before ++ k :: after := hsplit ▸ (mem_givers_iff hd).2 hj
    have hbefore : j ∈ before := by
      rcases List.mem_append.1 hj' with hj' | hj'
      · exact hj'
      · rcases List.mem_cons.1 hj' with rfl | hj'
        · exact absurd hjk (hacyclic j hj)
        · exact absurd hname (hafter j hj')
    -- `k` would stand among the givers twice.
    have hagain : k ∈ before := mem_of_extends hd hacyclic hsplit hbefore hjk
    have hnodup := nodup_givers hd
    rw [hsplit] at hnodup
    exact (List.nodup_append'.1 hnodup).2.2 hagain List.mem_cons_self

theorem not_transGen_of_rank (rank : Interface → Nat)
    (h : ∀ e ∈ s.interfaces, ∀ b, s.Extends e b → rank b < rank e) {e : Interface}
    (he : e ∈ s.interfaces) : ¬ Relation.TransGen s.Extends e e := by
  have hless : ∀ b, Relation.TransGen s.Extends e b → b ∈ s.interfaces ∧ rank b < rank e := by
    intro b hb
    induction hb with
    | single hstep =>
        obtain ⟨base, -, hb⟩ := id hstep
        exact ⟨List.mem_of_find?_eq_some hb, h e he _ hstep⟩
    | tail _ hstep ih =>
        obtain ⟨base, -, hb⟩ := id hstep
        exact ⟨List.mem_of_find?_eq_some hb, Nat.lt_trans (h _ ih.1 _ hstep) ih.2⟩
  exact fun hself => Nat.lt_irrefl _ (hless e hself).2

def diamondTop : Interface :=
  ⟨"Box", ["Sized", "Named"], .record [⟨"own", .primitive .string, false⟩]⟩

def diamond : Surface where
  fileName := "box"
  interfaces :=
    [diamondTop,
      ⟨"Sized", ["Root"], .record [⟨"id", .primitive .number, false⟩]⟩,
      ⟨"Named", ["Root"], .record [⟨"name", .primitive .string, false⟩]⟩,
      ⟨"Root", [], .record [⟨"id", .primitive .string, false⟩, ⟨"at", .primitive .number, true⟩]⟩]
  enums := []
  component := ⟨"BoxElement", "HTMLElement", .named, none, none⟩
  members := []
  imports := []
  referenced := ["Box"]

theorem isFlattened_diamond : diamond.interface? diamondTop.name = some diamondTop
    ∧ (∀ e, diamond.Inherits diamondTop e → ¬ Relation.TransGen diamond.Extends e e)
    ∧ diamond.IsFlattened diamondTop
        [⟨"id", .primitive .number, false⟩, ⟨"at", .primitive .number, true⟩,
          ⟨"name", .primitive .string, false⟩, ⟨"own", .primitive .string, false⟩] := by
  have htop : diamond.interface? diamondTop.name = some diamondTop := by decide
  let rank : Interface → Nat := fun e =>
    if e.name = "Box" then 2 else if e.name = "Root" then 0 else 1
  have hrank : ∀ e ∈ diamond.interfaces, ∀ base ∈ e.bases,
      (diamond.interface? base).all fun b => decide (rank b < rank e) := by decide
  refine ⟨htop, fun e he => not_transGen_of_rank rank ?_ (he.mem_interfaces (by decide)),
    (isFlattened_flatten htop).2⟩
  rintro e he b ⟨base, hbase, hb⟩
  have hless := hrank e he base hbase
  rw [hb] at hless
  exact of_decide_eq_true hless

end ElementBridge.Surface
