import ElementBridge.Proofs.ClosedBridge
import ElementBridge.Proofs.FirstFault

namespace ElementBridge

open ElementBridge.Tree

theorem DottedName.rootName_text (n : DottedName) : rootName n.text = n.root.text := by
  have hdot : ∀ c ∈ n.root.text.toList, (c != '.') = true := by
    refine fun c hc => bne_iff_ne.2 ?_
    rintro rfl
    have hpart := List.all_eq_true.1 (Text.all_isIdentifierPart n.root.isIdentifier).2 _ hc
    exact absurd hpart (by decide)
  have hroot : n.text.toList.takeWhile (· != '.') = n.root.text.toList := by
    rw [DottedName.toList_text]
    cases n.rest with
    | nil => simpa using @List.takeWhile_append_of_pos _ _ _ [] hdot
    | cons w rest =>
        rw [List.map_cons, List.map_cons, List.intercalate_cons_cons, List.append_assoc,
          List.takeWhile_append_of_pos hdot]
        simp
  rw [rootName, hroot, String.ofList_toList]

namespace TypeExpr

theorem WellNamed.references {t : TypeExpr} (h : t.WellNamed) :
    ∀ name ∈ t.references, ∃ n : DottedName, n.text = name := by
  induction h with
  | primitive p => simp [TypeExpr.references]
  | reference n _ ih =>
      intro name hname
      rw [TypeExpr.references, referencesAll_eq_flatMap, List.mem_cons, List.mem_flatMap] at hname
      rcases hname with rfl | ⟨t, ht, hname⟩
      · exact ⟨n, rfl⟩
      · exact ih t ht name hname
  | array _ ih => simpa [TypeExpr.references] using ih
  | union _ ih =>
      intro name hname
      rw [TypeExpr.references, referencesAll_eq_flatMap, List.mem_flatMap] at hname
      obtain ⟨t, ht, hname⟩ := hname
      exact ih t ht name hname
  | function _ _ ih ih' =>
      intro name hname
      rw [TypeExpr.references, referencesAll_eq_flatMap, List.mem_append, List.mem_flatMap] at hname
      rcases hname with ⟨t, ht, hname⟩ | hname
      · exact ih t ht name hname
      · exact ih' name hname
  | record _ _ ih =>
      intro name hname
      rw [TypeExpr.references, referencesFields_eq_flatMap, List.mem_flatMap] at hname
      obtain ⟨f, hf, hname⟩ := hname
      exact ih f hf name hname

end TypeExpr

namespace Setting

open Surface

variable {e : Setting} {s t : Surface} {m : Mention} {found : List Mention}

def BasesDeclared (s : Surface) : Prop :=
  ∀ d, s.interface? d.name = some d → d.name ∈ s.referenced →
  ∀ base ∈ d.bases, (s.interface? base).isSome

theorem BasesDeclared.visit (h : BasesDeclared s) (hv : e.visit s m = .ok (t, found)) :
    BasesDeclared t := by
  obtain ⟨-, u, ha, ht⟩ := visit_ok hv
  have hu : BasesDeclared u := by
    intro d hd hr base hbase
    rw [ha.sameDeclarations.interface?] at hd ⊢
    exact h d hd (ha.referenced ▸ hr) base hbase
  intro d hd hr base hbase
  rw [ht.sameDeclarations.interface?] at hd ⊢
  rcases ht.mem_referenced hr with hr | ⟨hname, -⟩
  · exact hu d hd hr base hbase
  · cases ht with
    | again _ _ => exact hu d hd hr base hbase
    | @interface met hmet _ hbases =>
        obtain rfl : d = met := by
          rw [resolve_interface, ← hname, hd] at hmet
          exact Option.some.inj hmet
        rw [← isInterface_eq e]
        exact hbases base hbase
    | enum hmet =>
        rw [resolve_type rfl, ← hname, localMeaning_interface.2 hd] at hmet
        cases hmet
    | terminal _ _ => exact hu d hd hr base hbase

theorem BasesDeclared.reach {n : Nat} {pending : List Mention} (h : BasesDeclared s)
    (hr : e.reach n pending s = .ok t) : BasesDeclared t := by
  induction n generalizing pending s with
  | zero =>
      cases pending <;>
      · cases hr
        exact h
  | succ n ih =>
      cases pending with
      | nil =>
          cases hr
          exact h
      | cons m rest =>
          rw [Setting.reach, bind_eq_ok] at hr
          obtain ⟨⟨u, found⟩, hv, hr⟩ := hr
          exact ih (h.visit hv) hr

end Setting

theorem Shape.Has.types {Q : TypeExpr → Prop} {shape : Shape} (h : shape.Has Q) :
    ∀ t ∈ shape.types, Q t := by
  intro t ht
  cases shape with
  | record fields =>
      obtain ⟨f, hf, rfl⟩ := List.mem_map.1 ht
      exact (h f hf).2
  | «alias» type => exact List.mem_singleton.1 ht ▸ h

namespace Surface

variable {config : Config} {disk : Disk} {file : SourceFile} {s : Surface} {name : String}

theorem exposed_of_foreign (hs : file.surface config disk = .ok s)
    (hn : Reached s config.globalTypes name) (hf : s.IsForeign config.globalTypes name) :
    ∃ type, s.Exposes config.globalTypes type ∧ name ∈ type.references := by
  obtain ⟨m, ⟨o⟩⟩ := origin_of_ok hs
  cases hn with
  | member hm ht hn => exact ⟨_, .member hm ht, hn⟩
  | constructor hp hn => exact ⟨_, .constructor hp, hn⟩
  | @base other _ d hr hd hb =>
      have hlocal : Setting.BasesDeclared s :=
        Setting.BasesDeclared.reach (fun d _ hr => absurd hr (by simp [start])) o.reaches
      rw [resolve_interface] at hd
      have hheld := (o.settled hr).2 (by simp [localMeaning_interface.2 hd, Meaning.isType])
      have hbase := hlocal d ((interface?_name hd).symm ▸ hd)
        ((interface?_name hd).symm ▸ hheld) _ hb
      obtain ⟨b, hb⟩ := Option.isSome_iff_exists.1 hbase
      exact absurd (hf.1.symm.trans (localMeaning_interface.2 hb)) (by simp)
  | shape hr hd ht hn => exact ⟨_, .shape hr (resolve_interface.1 hd) ht, hn⟩

theorem isIdentifier_of_mem_imports (hs : file.surface config disk = .ok s) :
    ∀ entry ∈ s.imports, Text.isIdentifier entry.1 = true := by
  intro entry hentry
  obtain ⟨m, ⟨o⟩⟩ := origin_of_ok hs
  obtain ⟨-, name, hn, hf, hroot⟩ := o.progress.imports entry.1 entry.2 hentry
  obtain ⟨type, htype, hname⟩ := exposed_of_foreign hs (o.progress.same.reached hn)
    (o.progress.same.isForeign.2 hf)
  have hnamed := has_of_surface TypeExpr.wellNamed_kept hs
  have hwell : type.WellNamed := by
    cases htype with
    | member hm ht => exact hnamed.members _ hm _ ht
    | constructor hp => exact hnamed.params _ hp
    | shape hr hd ht => exact (hnamed.interfaces _ (List.mem_of_find?_eq_some hd)).shape.types _ ht
  obtain ⟨n, rfl⟩ := hwell.references name hname
  rw [← hroot, n.rootName_text]
  exact n.root.isIdentifier

end Surface

end ElementBridge
