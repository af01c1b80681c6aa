import ElementBridge.Proofs.Pipelines
import Mathlib.Data.List.Induction

namespace ElementBridge

open Pipeline

variable {ι α : Type}

structure Shared (ι α : Type) where
  pipelines : ι → Pipeline α
  disk : Disk

/-- Each program spares the places that the others change. -/
def Apart (x : ι → Pipeline α) (d : Disk) : Prop :=
  ∀ i j, i ≠ j → ∀ l ∈ (x i).changed d, (x j).Spares d l

namespace Pipeline

theorem visits_after (n : Nat) (x : Pipeline α) (d : Disk) :
    (after n x d).1.visits (after n x d).2 ⊆ x.visits d := by
  induction n with
  | zero => exact List.Subset.refl _
  | succ n ih =>
      rw [after_succ]
      exact List.Subset.trans (visits_step _ _) ih

theorem changed_after (n : Nat) (x : Pipeline α) (d : Disk) :
    (after n x d).1.changed (after n x d).2 ⊆ x.changed d := by
  induction n with
  | zero => exact List.Subset.refl _
  | succ n ih =>
      rw [after_succ]
      exact List.Subset.trans (changed_step _ _) ih

end Pipeline

namespace Shared

variable [DecidableEq ι]

def turn (s : Shared ι α) (i : ι) : Shared ι α where
  pipelines := Function.update s.pipelines i ((s.pipelines i).step s.disk).1
  disk := ((s.pipelines i).step s.disk).2

def turns (s : Shared ι α) (schedule : List ι) : Shared ι α := schedule.foldl turn s

/-- Each program is where its turns bring it alone. What the others do not change stands on the
shared disk as it would stand on its own, and what they change are files, where a file may be. -/
structure Follows (x : ι → Pipeline α) (d : Disk) (schedule : List ι) (s : Shared ι α) : Prop where
  pipelines : ∀ i, s.pipelines i = (after (schedule.count i) (x i) d).1
  directory : ∀ i, s.disk.workingDirectory = (after (schedule.count i) (x i) d).2.workingDirectory
  node : ∀ i l, (∀ j, j ≠ i → l ∉ (x j).changed d) →
    s.disk.node? l = (after (schedule.count i) (x i) d).2.node? l
  file : ∀ i l, s.disk.node? l = (after (schedule.count i) (x i) d).2.node? l ∨
    (after (schedule.count i) (x i) d).2.node? l ≠ some .directory ∧
      ∃ content, s.disk.node? l = some (.file content)
  restDirectory : s.disk.workingDirectory = d.workingDirectory
  rest : ∀ l, (∀ j, l ∉ (x j).changed d) → s.disk.node? l = d.node? l

variable {x : ι → Pipeline α} {d : Disk} {schedule : List ι} {s : Shared ι α}

theorem follows_nil (x : ι → Pipeline α) (d : Disk) : Follows x d [] ⟨x, d⟩ :=
  ⟨fun _ => rfl, fun _ => rfl, fun _ _ _ => rfl, fun _ _ => .inl rfl, rfl, fun _ _ => rfl⟩

theorem Follows.same (h : Follows x d schedule s) (hx : Apart x d) (i : ι) {p : Path}
    (hp : (after (schedule.count i) (x i) d).1.path? = some p) :
    Disk.SameAt p (after (schedule.count i) (x i) d).2 s.disk := by
  refine .of_spares (h.directory i) fun l => ?_
  by_cases hchanged : ∃ j, j ≠ i ∧ l ∈ (x j).changed d
  · obtain ⟨j, hj, hl⟩ := hchanged
    exact (h.file i l).imp_right fun hfile =>
      ⟨hx j i hj l hl _ (visits_after _ _ _ (mem_visits_of_path hp)), hfile⟩
  · exact .inl (h.node i l fun j hj hl => hchanged ⟨j, hj, hl⟩)

theorem after_count_snoc_self (schedule : List ι) (i : ι) :
    after ((schedule ++ [i]).count i) (x i) d
      = (after (schedule.count i) (x i) d).1.step (after (schedule.count i) (x i) d).2 := by
  rw [List.count_append, List.count_singleton_self, after_succ]

theorem count_snoc_of_ne (schedule : List ι) {i j : ι} (h : j ≠ i) :
    (schedule ++ [i]).count j = schedule.count j := by
  rw [List.count_append, List.count_singleton, if_neg (by simpa using h.symm), Nat.add_zero]

theorem Follows.turn_disk (h : Follows x d schedule s) (i : ι) :
    (s.turn i).disk = ((after (schedule.count i) (x i) d).1.step s.disk).2 := by
  rw [← h.pipelines i]
  rfl

theorem Follows.turn_pipelines (h : Follows x d schedule s) (hx : Apart x d) (i j : ι) :
    (s.turn i).pipelines j = (after ((schedule ++ [i]).count j) (x j) d).1 := by
  have hupdate : (s.turn i).pipelines = Function.update s.pipelines i
      ((after (schedule.count i) (x i) d).1.step s.disk).1 := by
    rw [← h.pipelines i]
    rfl
  rw [hupdate]
  by_cases hj : j = i
  · subst hj
    rw [after_count_snoc_self, Function.update_self]
    exact (step_same fun p hp => h.same hx j hp).1
  · rw [count_snoc_of_ne _ hj, Function.update_of_ne hj]
    exact h.pipelines j

theorem Follows.turn (h : Follows x d schedule s) (hx : Apart x d) (i : ι) :
    Follows x d (schedule ++ [i]) (s.turn i) := by
  have pipelines := h.turn_pipelines hx i
  have hdisk := h.turn_disk i
  -- the disks change together or not at all
  rcases (step_same fun p hp => h.same hx i hp).2 with ⟨hown, hshared⟩ |
    ⟨p, l, content, hp, hlocate, hnode, hsame, hown, hshared⟩
  · rw [hshared] at hdisk
    have own : ∀ j, (after ((schedule ++ [i]).count j) (x j) d).2
        = (after (schedule.count j) (x j) d).2 := by
      intro j
      by_cases hj : j = i
      · rw [hj, after_count_snoc_self, hown]
      · rw [count_snoc_of_ne _ hj]
    refine ⟨pipelines, fun j => ?_, fun j l hl => ?_, fun j l => ?_, ?_, fun l hl => ?_⟩
    · rw [own, hdisk, h.directory j]
    · rw [own, hdisk, h.node j l hl]
    · rw [own, hdisk]
      exact h.file j l
    · rw [hdisk, h.restDirectory]
    · rw [hdisk, h.rest l hl]
  · rw [hshared] at hdisk
    -- the program comes to this place, so no other one changes it
    have hvisit := visits_after _ _ _ (mem_visits_of_path hp)
    have hmine : s.disk.node? l = (after (schedule.count i) (x i) d).2.node? l :=
      h.node i l fun j hj hl => (hx j i hj l hl _ hvisit).other hlocate
    have hput (k : Location) : (s.turn i).disk.node? k
        = if k = l then some (.file content) else s.disk.node? k := by
      rw [hdisk, Disk.node?_withFile (hmine ▸ hnode)]
    have kept {k : Location} (hk : k ∉ (x i).changed d) :
        (s.turn i).disk.node? k = s.disk.node? k := by
      rw [hput]
      split
      · next heq =>
          rw [heq, hmine, hsame fun hl => hk (heq ▸ changed_after _ _ _ hl)]
      · rfl
    refine ⟨pipelines, fun j => ?_, fun j k hk => ?_, fun j k => ?_, ?_, fun k hk => ?_⟩
    · by_cases hj : j = i
      · rw [hj, after_count_snoc_self, hown, hdisk]
        exact h.directory i
      · rw [count_snoc_of_ne _ hj, hdisk]
        exact h.directory j
    · by_cases hj : j = i
      · subst hj
        rw [after_count_snoc_self, hown, hput, Disk.node?_withFile hnode, h.node j k hk]
      · rw [count_snoc_of_ne _ hj, kept (hk i (Ne.symm hj)), h.node j k hk]
    · by_cases hj : j = i
      · subst hj
        rw [after_count_snoc_self, hown, hput, Disk.node?_withFile hnode]
        split
        · exact .inl rfl
        · exact h.file j k
      · rw [count_snoc_of_ne _ hj, hput]
        split
        · next heq =>
            subst heq
            refine .inr ⟨?_, content, rfl⟩
            rcases h.file j k with hk | ⟨hk, -⟩
            · rwa [← hk, hmine]
            · exact hk
        · exact h.file j k
    · rw [hdisk]
      exact h.restDirectory
    · rw [kept (hk i), h.rest k hk]

theorem follows_turns (hx : Apart x d) (schedule : List ι) :
    Follows x d schedule (turns ⟨x, d⟩ schedule) := by
  induction schedule using List.reverseRecOn with
  | nil => exact follows_nil x d
  | append_singleton schedule i ih =>
      rw [turns, List.foldl_append]
      exact ih.turn hx i

theorem turns_done_iff (hx : Apart x d) (schedule : List ι) (i : ι) (a : α) :
    (turns ⟨x, d⟩ schedule).pipelines i = .done a ↔
      (x i).accesses d ≤ schedule.count i ∧ ((x i).run d).1 = a := by
  rw [(follows_turns hx schedule).pipelines i]
  constructor
  · intro h
    have hcount := accesses_le_of_after h
    rw [after_of_accesses_le hcount] at h
    exact ⟨hcount, Pipeline.done.inj h⟩
  · rintro ⟨hcount, rfl⟩
    rw [after_of_accesses_le hcount]

theorem node?_turns (hx : Apart x d) {i : ι} (hcount : (x i).accesses d ≤ schedule.count i)
    {l : Location} (hl : ∀ j, j ≠ i → l ∉ (x j).changed d) :
    (turns ⟨x, d⟩ schedule).disk.node? l = ((x i).run d).2.node? l := by
  rw [(follows_turns hx schedule).node i l hl, after_of_accesses_le hcount]

theorem turns_append (s : Shared ι α) (schedule more : List ι) :
    s.turns (schedule ++ more) = (s.turns schedule).turns more := List.foldl_append

theorem turns_replicate (s : Shared ι α) (i : ι) (n : Nat) :
    s.turns (List.replicate n i) = ⟨Function.update s.pipelines i (after n (s.pipelines i) s.disk).1,
      (after n (s.pipelines i) s.disk).2⟩ := by
  induction n generalizing s with
  | zero => simp [turns, after]
  | succ n ih =>
      rw [List.replicate_succ]
      change (s.turn i).turns (List.replicate n i) = _
      rw [ih]
      simp [Shared.turn, after]

end Shared

end ElementBridge
