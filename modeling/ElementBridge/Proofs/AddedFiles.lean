import ElementBridge.Proofs.DiskAccess
import ElementBridge.Proofs.ModuleTables

namespace ElementBridge.Disk

structure AddsFiles (places : Location → Prop) (d d' : Disk) : Prop where
  workingDirectory : d'.workingDirectory = d.workingDirectory
  node : ∀ l, d'.node? l = d.node? l ∨
    places l ∧ d.node? l ≠ some .directory ∧ ∃ content, d'.node? l = some (.file content)

namespace AddsFiles

variable {places : Location → Prop} {d d' : Disk} {here l : Location} {p : Path}
variable (h : AddsFiles places d d')
include h

theorem step_ok (piece : List Char) : d'.step here piece = .ok l ↔ d.step here piece = .ok l := by
  rcases h.node here with heq | ⟨-, hnode, content, hfile⟩
  · rw [step_congr heq]
  · unfold step
    rw [hfile]
    cases hkind : d.node? here with
    | none => simp
    | some n =>
        cases n with
        | file content => simp
        | directory => exact absurd hkind hnode

theorem foldlM_ok (pieces : List (List Char)) :
    pieces.foldlM d'.step here = .ok l ↔ pieces.foldlM d.step here = .ok l := by
  induction pieces generalizing here with
  | nil => exact Iff.rfl
  | cons piece pieces ih =>
      rw [List.foldlM_cons, List.foldlM_cons, bind_eq_ok, bind_eq_ok]
      simp only [h.step_ok, ih]

theorem locate_ok : d'.locate p = .ok l ↔ d.locate p = .ok l := by
  unfold locate
  rw [h.workingDirectory]
  split
  · exact Iff.rfl
  · split
    · exact Iff.rfl
    · split <;> exact h.foldlM_ok _

theorem place : d'.place p = d.place p := by
  unfold Disk.place
  rw [h.workingDirectory]

theorem node_of_locate (hp : ¬ places (d.place p)) (hl : d.locate p = .ok l) :
    d'.node? l = d.node? l := by
  rcases h.node l with heq | ⟨hadded, -, -⟩
  · exact heq
  · exact absurd ((locate_eq hl).1 ▸ hadded) hp

theorem lookup_ok {n : Node} (hnode : ∀ l, d.locate p = .ok l → d'.node? l = d.node? l) :
    d'.lookup p = .ok n ↔ d.lookup p = .ok n := by
  rw [lookup_eq_ok, lookup_eq_ok]
  refine exists_congr fun l => ?_
  rw [h.locate_ok]
  exact and_congr_right fun hl => by rw [hnode l hl]

theorem read_ok {file : SourceFile} (hnode : ∀ l, d.locate p = .ok l → d'.node? l = d.node? l) :
    SourceFile.read d' p = .ok file ↔ SourceFile.read d p = .ok file := by
  unfold SourceFile.read readText Disk.read
  simp only [bind_eq_ok, h.lookup_ok hnode]

theorem isFile (hp : ¬ places (d.place p)) : d'.isFile p = d.isFile p := by
  rw [Bool.eq_iff_iff, isFile_iff, isFile_iff]
  simp only [h.lookup_ok fun _ => h.node_of_locate hp]

theorem exportScan? (hp : ¬ places (d.place p)) : d'.exportScan? p = d.exportScan? p := by
  have hread (file : SourceFile) :
      SourceFile.read d' p = .ok file ↔ SourceFile.read d p = .ok file :=
    h.read_ok fun _ => h.node_of_locate hp
  unfold Disk.exportScan?
  cases hd : SourceFile.read d p with
  | ok file => rw [(hread file).2 hd]
  | error fault =>
      cases hd' : SourceFile.read d' p with
      | ok file => exact absurd (hd.symm.trans ((hread file).1 hd')) nofun
      | error fault' => rfl

end AddsFiles

end ElementBridge.Disk
