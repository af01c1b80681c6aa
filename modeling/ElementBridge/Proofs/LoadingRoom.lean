import Mathlib.Data.List.Pairwise
import Mathlib.Data.List.Perm.Subperm
import ElementBridge.Proofs.ModuleTables

namespace ElementBridge

theorem length_le_utf8ByteSize (text : String) : text.toList.length ≤ text.utf8ByteSize := by
  have h : ∀ chars : List Char, chars.length ≤ (String.ofList chars).utf8ByteSize := by
    intro chars
    induction chars with
    | nil => simp
    | cons c chars ih =>
        rw [← List.singleton_append, String.ofList_append, String.utf8ByteSize_append,
          List.length_append]
        have hc := c.utf8Size_pos
        have hone : (String.ofList [c]).utf8ByteSize = c.utf8Size := by
          rw [← String.singleton_eq_ofList, String.utf8ByteSize_singleton]
        rw [List.length_singleton]
        omega
  simpa using h text.toList

structure Disk.IsSource (disk : Disk) (p : Path) : Prop where
  file : disk.isFile p = true
  named : ∃ name, p.components = p.parent.components ++ [.name name]

namespace Disk

variable {disk : Disk} {p q : Path}

theorem isSource_of_resolveSpecifier {dir : Path} {specifier : String}
    (h : resolveSpecifier disk dir specifier = some p) :
    disk.IsSource p ∧ dir.components <+: p.parent.components := by
  obtain ⟨more, name, hcomponents, -⟩ := components_of_resolveSpecifier h
  have hparent := Path.components_parent hcomponents
  refine ⟨⟨isFile_of_resolveSpecifier h, name, by rw [hparent, hcomponents]⟩, ?_⟩
  rw [hparent]
  exact List.prefix_append _ _

theorem isSource_of_mem_targets {specifiers : List String} (h : q ∈ disk.targets p specifiers) :
    disk.IsSource q ∧ p.parent.components <+: q.parent.components := by
  obtain ⟨specifier, -, hq⟩ := List.mem_filterMap.1 h
  exact isSource_of_resolveSpecifier hq

theorem isSource_of_mem_references (h : q ∈ disk.references p) :
    disk.IsSource q ∧ p.parent.components <+: q.parent.components := by
  unfold references at h
  cases hscan : disk.exportScan? p with
  | none => simp [hscan] at h
  | some scan => exact isSource_of_mem_targets (by simpa [hscan] using h)

theorem IsSource.place_eq (h : disk.IsSource p) :
    ∃ name, p.components = p.parent.components ++ [.name name] ∧
      disk.place p = p.parent.components.foldl enter disk.workingDirectory ++ [name] := by
  obtain ⟨name, hname⟩ := h.named
  refine ⟨name, hname, ?_⟩
  rw [Disk.place_eq, hname, List.foldl_append]
  rfl

theorem IsSource.same_of_place (hp : disk.IsSource p) (hq : disk.IsSource q)
    (hdir : p.parent.components = q.parent.components) (hplace : disk.place p = disk.place q) :
    p.same q = true := by
  obtain ⟨name, hname, hp⟩ := hp.place_eq
  obtain ⟨name', hname', hq⟩ := hq.place_eq
  rw [hp, hq, hdir] at hplace
  obtain rfl : name = name' := by simpa using List.append_cancel_left hplace
  rw [Path.same_iff, hname, hname', hdir]

theorem IsSource.depth_lt (h : disk.IsSource p) : p.parent.components.length < 4096 := by
  obtain ⟨name, hname⟩ := h.named
  have hlength := congrArg List.length hname
  have hsize := (isFile_place h.file).2
  have htext := Path.length_componentsOf_le p.text.toList
  have hbytes := length_le_utf8ByteSize p.text
  rw [Path.components_eq, List.length_append, List.length_singleton] at hlength
  omega

end Disk

structure Disk.IsMet (disk : Disk) (met : List Path) : Prop where
  sources : ∀ p ∈ met, disk.IsSource p
  distinct : met.Pairwise fun p q => p.same q = false

namespace Disk.IsMet

variable {disk : Disk} {met : List Path} {p q : Path}

theorem eq_of_same (h : disk.IsMet met) (hp : p ∈ met) (hq : q ∈ met) (hsame : p.same q = true) :
    p = q := by
  by_contra hne
  have hsymm : Std.Symm fun p q : Path => p.same q = false :=
    ⟨fun p q h => (Path.same_comm q p).trans h⟩
  exact absurd hsame (by simp [h.distinct.forall hp hq hne])

theorem snoc (h : disk.IsMet met) (hp : disk.IsSource p) (hfresh : ∀ q ∈ met, q.same p = false) :
    disk.IsMet (met ++ [p]) := by
  constructor
  · intro q hq
    rcases List.mem_append.1 hq with hq | hq
    · exact h.sources q hq
    · exact List.mem_singleton.1 hq ▸ hp
  · refine List.pairwise_append.2 ⟨h.distinct, List.pairwise_singleton _ _, fun q hq r hr => ?_⟩
    rw [List.mem_singleton.1 hr]
    exact hfresh q hq

def beside (met : List Path) (p : Path) : List Path :=
  met.filter fun q => q.parent.components = p.parent.components

theorem length_beside_le (h : disk.IsMet met) (p : Path) :
    (beside met p).length ≤ disk.entries.length := by
  have hplaces : ((beside met p).map disk.place).Nodup := by
    refine List.Pairwise.map _ (fun q r hne => hne) ?_
    refine (h.distinct.filter _).imp_of_mem fun {q r} hq hr hdistinct hplace => ?_
    have hq := List.mem_filter.1 hq
    have hr := List.mem_filter.1 hr
    have hdir : q.parent.components = r.parent.components := by
      rw [of_decide_eq_true hq.2, of_decide_eq_true hr.2]
    have hsame := (h.sources q hq.1).same_of_place (h.sources r hr.1) hdir hplace
    exact absurd hsame (by simp [hdistinct])
  have hfiles : (beside met p).map disk.place ⊆ disk.entries.map (·.1) := by
    intro l hl
    obtain ⟨q, hq, rfl⟩ := List.mem_map.1 hl
    exact (Disk.isFile_place (h.sources q (List.mem_filter.1 hq).1).file).1
  simpa using (hplaces.subperm hfiles).length_le

end Disk.IsMet

namespace Disk

variable {disk : Disk} {met met' : List Path} {p q : Path}

/-- How much further modules can lead from a path, when some are met already: into deeper
directories, and to the files beside it. -/
def room (disk : Disk) (met : List Path) (p : Path) : Nat :=
  (4096 - p.parent.components.length) * (disk.entries.length + 1) - (IsMet.beside met p).length

theorem room_antitone (h : met <+: met') : disk.room met' p ≤ disk.room met p :=
  Nat.sub_le_sub_left (h.sublist.filter _).length_le _

theorem room_pos (h : disk.IsMet met) (hp : disk.IsSource p) : 0 < disk.room met p := by
  have hbeside := h.length_beside_le p
  have hdepth : 1 * (disk.entries.length + 1)
      ≤ (4096 - p.parent.components.length) * (disk.entries.length + 1) :=
    Nat.mul_le_mul_right _ (Nat.le_sub_of_add_le' hp.depth_lt)
  unfold room
  omega

theorem room_lt (h : disk.IsMet (met ++ [p])) (hq : disk.IsSource q)
    (hbelow : p.parent.components <+: q.parent.components) :
    disk.room (met ++ [p]) q < disk.room met p := by
  have hp : disk.IsSource p := h.sources p (List.mem_append_right _ List.mem_cons_self)
  have hbeside := h.length_beside_le p
  have hgrown : (IsMet.beside (met ++ [p]) p).length = (IsMet.beside met p).length + 1 := by
    simp [IsMet.beside]
  have hdepth := hp.depth_lt
  -- one level further down outweighs all files of a directory; beside `p` there is now one file less
  rcases Nat.lt_or_ge p.parent.components.length q.parent.components.length with hlt | hge
  · have hdeeper : (4096 - q.parent.components.length + 1) * (disk.entries.length + 1)
        ≤ (4096 - p.parent.components.length) * (disk.entries.length + 1) :=
      Nat.mul_le_mul_right _ (by have := hq.depth_lt; omega)
    rw [Nat.add_mul] at hdeeper
    unfold room
    omega
  · have hdir : q.parent.components = p.parent.components := (hbelow.eq_of_length_le hge).symm
    have hpos := room_pos h hp
    have hsame : disk.room (met ++ [p]) q = disk.room (met ++ [p]) p := by
      simp [room, IsMet.beside, hdir]
    rw [hsame]
    unfold room at hpos ⊢
    omega

theorem room_le_chainBound :
    disk.room met p ≤ ModuleGraph.chainBound disk := by
  have h : (4096 - p.parent.components.length) * (disk.entries.length + 1)
      ≤ 4096 * (disk.entries.length + 1) := Nat.mul_le_mul_right _ (Nat.sub_le _ _)
  exact (Nat.sub_le _ _).trans h

end Disk

end ElementBridge
