import ElementBridge.Proofs.NumberedMentions

namespace ElementBridge.Setting

open Surface

variable {e : Setting} {s t s₀ : Surface} {m : Mention} {found pending ms : List Mention}
  {f g : Failure}

/-- What is wrong with a mention, whatever has been taken in before. A base counts as local only if
it could be lowered. -/
inductive Faults (e : Setting) (s : Surface) (m : Mention) : Failure → Prop where
  | unlowered {o : Obstacle} (ho : e.obstacles.lookup (rootName m.name) = some o) :
      Faults e s m (.unsupported e.file (rootName m.name) o.message)
  | nonLocalBase {d : Interface} {base : String}
      (ho : e.obstacles.lookup (rootName m.name) = none) (hd : s.interface? m.name = some d)
      (hb : d.bases.find? (fun b => (s.interface? b).isNone) = some base) :
      Faults e s m (.unsupported e.file d.name (Obstacle.nonLocalBase base).message)
  | unresolved (ho : e.obstacles.lookup (rootName m.name) = none)
      (hf : s.IsForeign e.globals m.name)
      (hi : ∀ symbol, e.imports.lookup (rootName m.name) = some symbol →
        symbol.whole = false ∧ ∃ names, e.graph.exports? symbol.module = some names ∧
          symbol.imported ∉ names) :
      Faults e s m (.unresolved e.file m.name m.origin)

inductive FirstFault (e : Setting) (s : Surface) : List Mention → Failure → Prop where
  | here {m : Mention} {rest : List Mention} {f : Failure} (h : e.Faults s m f) :
      FirstFault e s (m :: rest) f
  | later {m : Mention} {rest : List Mention} {f : Failure} (h : ∀ g, ¬ e.Faults s m g)
      (hrest : FirstFault e s rest f) : FirstFault e s (m :: rest) f

theorem FirstFault.faults (h : e.FirstFault s ms f) : ∃ m ∈ ms, e.Faults s m f := by
  induction h with
  | here h => exact ⟨_, List.mem_cons_self, h⟩
  | later _ _ ih =>
      obtain ⟨m, hm, hf⟩ := ih
      exact ⟨m, List.mem_cons_of_mem _ hm, hf⟩

theorem exists_firstFault_iff : (∃ f, e.FirstFault s ms f) ↔ ∃ m ∈ ms, ∃ f, e.Faults s m f := by
  constructor
  · rintro ⟨f, h⟩
    obtain ⟨m, hm, hf⟩ := h.faults
    exact ⟨m, hm, f, hf⟩
  · rintro ⟨m, hm, hf⟩
    induction ms with
    | nil => exact absurd hm List.not_mem_nil
    | cons n rest ih =>
        by_cases hn : ∃ g, e.Faults s n g
        · exact hn.imp fun _ => .here
        · obtain rfl | hm := List.mem_cons.1 hm
          · exact absurd hf hn
          · exact (ih hm).imp fun _ => .later (not_exists.1 hn)

/-- What a run has made sure of: that its imports are exported, and that the types it holds extend
local types. -/
structure Checked (e : Setting) (s : Surface) : Prop where
  imports : ∀ k ∈ s.imports.map Prod.fst,
    ∃ symbol, e.imports.lookup k = some symbol ∧ e.isExported symbol = true
  bases : ∀ d, s.interface? d.name = some d → d.name ∈ s.referenced →
    ∀ base ∈ d.bases, (s.interface? base).isSome

theorem isInterface_eq (e : Setting) (s : Surface) (name : String) :
    e.isInterface s name = (s.interface? name).isSome := by
  unfold isInterface
  cases hi : s.interface? name with
  | some d => rw [resolve_interface.2 hi]; rfl
  | none =>
      split
      · next d hd => rw [resolve_interface.1 hd] at hi; cases hi
      · rfl

theorem isExported_eq_false {symbol : Imported} :
    e.isExported symbol = false ↔ symbol.whole = false ∧
      ∃ names, e.graph.exports? symbol.module = some names ∧ symbol.imported ∉ names := by
  unfold isExported
  cases e.graph.exports? symbol.module <;> simp

theorem faults_of_takeImport (ho : e.obstacles.lookup (rootName m.name) = none)
    (h : e.takeImport s m = .error f) : e.Faults s m f := by
  unfold takeImport at h
  split at h
  · cases h
  · next hr =>
      split at h
      · cases h
      · next symbol hl =>
          split at h
          · cases h
          · next he =>
              obtain rfl := (Except.error.inj h)
              refine .unresolved ho (isForeign_of_resolve_eq_none hr) fun symbol' hl' => ?_
              obtain rfl := Option.some.inj (hl.symm.trans hl')
              exact isExported_eq_false.1 (by simpa using he)

theorem mem_insert_self (t : ImportTable) (k : String) (v : Imported) :
    k ∈ (t.insert k v).map Prod.fst := by
  induction t with
  | nil => simp [ImportTable.insert]
  | cons entry rest ih =>
      rw [ImportTable.insert]
      split
      · next h => simp [h]
      · exact List.mem_cons_of_mem _ ih

theorem lookup_of_takeImport (h : e.takeImport s m = .ok t)
    (hn : t.resolve e.globals m.name = none) :
    s.IsForeign e.globals m.name ∧ e.imports.lookup (rootName m.name) = none := by
  unfold takeImport at h
  split at h
  · next hr =>
      obtain rfl := Except.ok.inj h
      simp [hr] at hn
  · next hr =>
      have hf := isForeign_of_resolve_eq_none hr
      split at h
      · next hl => exact ⟨hf, hl⟩
      · next symbol _ =>
        split at h
        · obtain rfl := Except.ok.inj h
          have hf' : { s with imports := s.imports.insert (rootName m.name) symbol }.IsForeign
            e.globals m.name := hf
          have hsome := (isSome_resolve_iff_of_foreign hf').2 (mem_insert_self _ _ _)
          simp [hn] at hsome
        · cases h

theorem faults_of_visit (h : e.visit s m = .error f) : e.Faults s m f := by
  unfold visit at h
  cases ho : e.obstacles.lookup (rootName m.name) with
  | some o =>
      obtain rfl : e.unsupported (rootName m.name) o = f := by
        simpa [ho, bind, Except.bind] using h
      exact .unlowered ho
  | none =>
      cases hi : e.takeImport s m with
      | error g =>
          obtain rfl : g = f := by simpa [ho, hi, bind, Except.bind] using h
          exact faults_of_takeImport ho hi
      | ok u =>
          simp only [ho, hi, bind, Except.bind, pure, Except.pure] at h
          split at h
          · next hr =>
              obtain rfl := Except.error.inj h
              obtain ⟨hf, hl⟩ := lookup_of_takeImport hi hr
              exact .unresolved ho hf fun symbol hs => by simp [hl] at hs
          · next d hr =>
              split at h
              · cases h
              · split at h
                · next base hb =>
                    obtain rfl := Except.error.inj h
                    have same : SameDeclarations s u := (takeImport_ok hi (by simp [hr])).sameDeclarations
                    rw [resolve_interface, same.interface?] at hr
                    refine .nonLocalBase ho hr ?_
                    rw [← hb]
                    congr
                    funext b
                    rw [isInterface_eq, same.interface?]
                    simp
                · cases h
          · cases h
          · cases h

theorem Faults.unique (hf : e.Faults s m f) (hg : e.Faults s m g) : f = g := by
  cases hf with
  | unlowered ho =>
      cases hg with
      | unlowered ho' => rw [Option.some.inj (ho.symm.trans ho')]
      | nonLocalBase ho' _ _ => cases ho.symm.trans ho'
      | unresolved ho' _ _ => cases ho.symm.trans ho'
  | nonLocalBase ho hd hb =>
      cases hg with
      | unlowered ho' => cases ho.symm.trans ho'
      | nonLocalBase _ hd' hb' =>
          obtain rfl := Option.some.inj (hd.symm.trans hd')
          rw [Option.some.inj (hb.symm.trans hb')]
      | unresolved _ hf' _ =>
          have hl := localMeaning_interface.2 hd
          rw [hf'.1] at hl
          cases hl
  | unresolved ho hf _ =>
      cases hg with
      | unlowered ho' => cases ho.symm.trans ho'
      | nonLocalBase _ hd' _ =>
          have hl := localMeaning_interface.2 hd'
          rw [hf.1] at hl
          cases hl
      | unresolved _ _ _ => rfl

theorem Checked.bases_of_takes (hs : e.Checked s) (h : Takes e s m t found) {d : Interface}
    (hd : s.interface? m.name = some d) {base : String} (hb : base ∈ d.bases) :
    (s.interface? base).isSome := by
  have hr : s.resolve e.globals m.name = some (.interface d) := resolve_interface.2 hd
  cases h with
  | again hd' hheld =>
      obtain rfl := Meaning.interface.inj (Option.some.inj (hr.symm.trans hd'))
      exact hs.bases d (interface?_name hd ▸ hd) hheld base hb
  | interface hd' _ hall =>
      obtain rfl := Meaning.interface.inj (Option.some.inj (hr.symm.trans hd'))
      rw [← isInterface_eq e]
      exact hall base hb
  | enum hd' => cases hr.symm.trans hd'
  | terminal hd' hm =>
      obtain rfl := Option.some.inj (hr.symm.trans hd')
      cases hm

theorem Checked.admits (hs : e.Checked s) (h : Admits e s m t) : e.Checked t := by
  cases h with
  | known _ => exact hs
  | imported _ _ hl he =>
      refine ⟨fun k hk => ?_, hs.bases⟩
      rw [List.map_append, List.mem_append] at hk
      rcases hk with hk | hk
      · exact hs.imports k hk
      · obtain rfl := List.mem_singleton.1 hk
        exact ⟨_, hl, he⟩

theorem Checked.takes (hs : e.Checked s) (h : Takes e s m t found) : e.Checked t := by
  refine ⟨h.imports ▸ hs.imports, fun d hd hheld base hb => ?_⟩
  rw [h.sameDeclarations.interface?] at hd ⊢
  rcases h.mem_referenced hheld with hheld | ⟨hname, -⟩
  · exact hs.bases d hd hheld base hb
  · exact hs.bases_of_takes h (hname ▸ hd) hb

/-- A mention at fault fails, since nothing that was taken in before can have covered the fault. -/
theorem Checked.visit (hs : e.Checked s) (hf : e.Faults s m f) : e.visit s m = .error f := by
  cases hv : e.visit s m with
  | error g => rw [hf.unique (faults_of_visit hv)]
  | ok r =>
      obtain ⟨t, found⟩ := r
      obtain ⟨ho', u, ha, ht⟩ := visit_ok hv
      cases hf with
      | unlowered ho => cases ho'.symm.trans ho
      | nonLocalBase _ hd hb =>
          rw [← ha.sameDeclarations.interface?] at hd
          have hlocal := (hs.admits ha).bases_of_takes ht hd (List.mem_of_find?_eq_some hb)
          have hnone := List.find?_some hb
          rw [ha.sameDeclarations.interface?] at hlocal
          simp [Option.isNone_iff_eq_none.1 hnone] at hlocal
      | unresolved _ hforeign hi =>
          have refuted {symbol : Imported} (hl : e.imports.lookup (rootName m.name) = some symbol)
              (he : e.isExported symbol = true) : False := by
            simp [isExported_eq_false.2 (hi symbol hl)] at he
          cases ha with
          | known hsome =>
              obtain ⟨symbol, hl, he⟩ :=
                hs.imports _ ((isSome_resolve_iff_of_foreign hforeign).1 hsome)
              exact (refuted hl he).elim
          | imported _ _ hl he => exact (refuted hl he).elim

theorem visit_eq_error_iff (hs : e.Checked s) : e.visit s m = .error f ↔ e.Faults s m f :=
  ⟨faults_of_visit, hs.visit⟩

theorem Checked.reach {n : Nat} (hs : e.Checked s) (h : e.reach n ms s = .ok t) : e.Checked t := by
  induction n generalizing ms s with
  | zero =>
      cases ms <;>
        · obtain rfl := Except.ok.inj h
          exact hs
  | succ n ih =>
      cases ms with
      | nil =>
          obtain rfl := Except.ok.inj h
          exact hs
      | cons m rest =>
          rw [Setting.reach, bind_eq_ok] at h
          obtain ⟨⟨u, found⟩, hv, h⟩ := h
          obtain ⟨-, v, ha, ht⟩ := visit_ok hv
          exact ih ((hs.admits ha).takes ht) h

theorem Faults.same (hf : e.Faults s m f) (h : SameDeclarations s t) : e.Faults t m f := by
  cases hf with
  | unlowered ho => exact .unlowered ho
  | nonLocalBase ho hd hb =>
      refine .nonLocalBase ho (h.interface? _ ▸ hd) ?_
      simpa only [h.interface?] using hb
  | unresolved ho hf hi => exact .unresolved ho (h.isForeign.2 hf) hi

theorem FirstFault.same (hf : e.FirstFault s ms f) (h : SameDeclarations s t) :
    e.FirstFault t ms f := by
  induction hf with
  | here hm => exact .here (hm.same h)
  | later hm _ ih => exact .later (fun g hg => hm g (hg.same h.symm)) ih

theorem not_firstFault_nil : ¬ e.FirstFault s [] f := fun h => by cases h

theorem firstFault_cons_of_faults (h : e.Faults s m g) :
    e.FirstFault s (m :: ms) f ↔ g = f := by
  constructor
  · rintro (hf | ⟨hnone, -⟩)
    · exact h.unique hf
    · exact absurd h (hnone g)
  · rintro rfl
    exact .here h

theorem firstFault_cons_of_not_faults (h : ∀ g, ¬ e.Faults s m g) :
    e.FirstFault s (m :: ms) f ↔ e.FirstFault s ms f := by
  refine ⟨?_, .later h⟩
  rintro (hf | ⟨-, hrest⟩)
  · exact absurd hf (h f)
  · exact hrest

def Keeps (s : Surface) (seen : List String) : Prop :=
  ∀ d, s.interface? d.name = some d → (d.name ∈ seen ↔ d.name ∈ s.referenced)

theorem Takes.numberedFrom {seen : List String} (h : Takes e s m t found) (hseen : Keeps s seen)
    (rest : List Mention) :
    ∃ seen', Keeps t seen' ∧ Mention.numberedFrom s.interfaces seen (m :: rest)
      = m :: Mention.numberedFrom s.interfaces seen' (rest ++ found) := by
  cases h with
  | again hd hheld =>
      refine ⟨seen, hseen, ?_⟩
      rw [resolve_interface] at hd
      rw [List.append_nil, Mention.numberedFrom_seen seen rest]
      intro d' hd'
      obtain rfl := Option.some.inj (hd.symm.trans hd')
      exact (hseen _ (interface?_name hd ▸ hd)).2 hheld
  | @interface d hd hheld _ =>
      rw [resolve_interface] at hd
      refine ⟨seen ++ [d.name], fun d' hd' => ?_, ?_⟩
      · simp [hseen d' hd']
      · refine Mention.numberedFrom_new rest hd fun hmem => hheld ?_
        exact (hseen d (interface?_name hd ▸ hd)).1 hmem
  | @enum d hd =>
      have hl := (resolve_type rfl).1 hd
      have none : ∀ d', s.interface? m.name = some d' → False := fun d' hd' => by
        cases (localMeaning_interface.2 hd').symm.trans hl
      refine ⟨seen, fun d' hd' => ?_, ?_⟩
      · have same := (Takes.enum hd : Takes e s m _ []).sameDeclarations
        rw [same.interface?] at hd'
        rw [hseen d' hd', addReferenced]
        split
        · rfl
        · have hne : d'.name ≠ d.name := fun hname =>
            none d' (enum?_name (localMeaning_enum hl) ▸ hname ▸ hd')
          simp [hne]
      · rw [List.append_nil, Mention.numberedFrom_seen seen rest fun d' hd' => (none d' hd').elim]
  | terminal hd hm =>
      refine ⟨seen, hseen, ?_⟩
      rw [List.append_nil, Mention.numberedFrom_seen seen rest]
      intro d' hd'
      obtain rfl := Option.some.inj (hd.symm.trans (resolve_interface.2 hd'))
      cases hm

theorem reach_eq_error_iff {n : Nat} {seen : List String} (hs : e.Checked s)
    (hseen : Keeps s seen) (hn : weight s pending ≤ n) :
    e.reach n pending s = .error f
      ↔ e.FirstFault s (Mention.numberedFrom s.interfaces seen pending) f := by
  -- a visit either fails with the fault of the first mention pending, or goes on to the rest of
  -- the numbering
  induction n generalizing pending s seen with
  | zero =>
      cases pending with
      | nil => simp [Setting.reach, Mention.numberedFrom_nil, not_firstFault_nil]
      | cons m rest => simp [weight] at hn
  | succ n ih =>
      cases pending with
      | nil => simp [Setting.reach, Mention.numberedFrom_nil, not_firstFault_nil]
      | cons m rest =>
          rw [Setting.reach]
          cases hv : e.visit s m with
          | error g =>
              have hfault := (visit_eq_error_iff hs).1 hv
              rw [Mention.numberedFrom_eq, List.cons_append, firstFault_cons_of_faults hfault]
              exact ⟨Except.error.inj, congrArg _⟩
          | ok r =>
              obtain ⟨t, found⟩ := r
              obtain ⟨-, u, ha, ht⟩ := visit_ok hv
              have hnone : ∀ g, ¬ e.Faults s m g := fun g hg => by
                cases hv.symm.trans ((visit_eq_error_iff hs).2 hg)
              have hsu := ha.sameDeclarations
              have hut := ht.sameDeclarations
              have hseen' : Keeps u seen := fun d hd => by
                rw [ha.referenced]
                exact hseen d (hsu.interface? _ ▸ hd)
              obtain ⟨seen', hkeeps, hnumbered⟩ := ht.numberedFrom hseen' rest
              have hlt := weight_visit rest hv
              rw [hsu.interfaces] at hnumbered
              rw [hnumbered, firstFault_cons_of_not_faults hnone]
              have hrest := ih ((hs.admits ha).takes ht) hkeeps
                (by omega : weight t (rest ++ found) ≤ n)
              rw [hut.interfaces, hsu.interfaces] at hrest
              change e.reach n (rest ++ found) t = .error f ↔ _
              rw [hrest]
              exact ⟨fun h => (h.same hut.symm).same hsu.symm, fun h => (h.same hsu).same hut⟩

end ElementBridge.Setting
