import ElementBridge.Proofs.DiskAccess
import Mathlib.Logic.Function.Basic

namespace ElementBridge

inductive Pipeline (α : Type) where
  | done (result : α)
  | look (p : Path) (next : Except Fault Node → Pipeline α)
  | replace (p : Path) (content : ByteArray) (next : Except Fault Unit → Pipeline α)

namespace Pipeline

variable {α β : Type}

def bind (x : Pipeline α) (f : α → Pipeline β) : Pipeline β :=
  match x with
  | .done a => f a
  | .look p next => .look p fun found => (next found).bind f
  | .replace p content next => .replace p content fun put => (next put).bind f

instance : Monad Pipeline where
  pure := .done
  bind := .bind

def step (x : Pipeline α) (d : Disk) : Pipeline α × Disk :=
  match x with
  | .done a => (.done a, d)
  | .look p next => (next (d.lookup p), d)
  | .replace p content next =>
      match d.replace p content with
      | .ok d => (next (.ok ()), d)
      | .error f => (next (.error f), d)

def run (x : Pipeline α) (d : Disk) : α × Disk :=
  match x with
  | .done a => (a, d)
  | .look p next => (next (d.lookup p)).run d
  | .replace p content next =>
      match d.replace p content with
      | .ok d => (next (.ok ())).run d
      | .error f => (next (.error f)).run d

def accesses (x : Pipeline α) (d : Disk) : Nat :=
  match x with
  | .done _ => 0
  | .look p next => (next (d.lookup p)).accesses d + 1
  | .replace p content next =>
      (match d.replace p content with
      | .ok d => (next (.ok ())).accesses d
      | .error f => (next (.error f)).accesses d) + 1

def path? : Pipeline α → Option Path
  | .done _ => none
  | .look p _ | .replace p _ _ => some p

/-- The accesses of a program alone, each with the disk that it finds. -/
def visits (x : Pipeline α) (d : Disk) : List (Disk × Path) :=
  match x with
  | .done _ => []
  | .look p next => (d, p) :: (next (d.lookup p)).visits d
  | .replace p content next =>
      (d, p) :: match d.replace p content with
        | .ok d' => (next (.ok ())).visits d'
        | .error f => (next (.error f)).visits d

/-- No access of a program alone leads to the place, or through it while nothing is there. -/
def Spares (x : Pipeline α) (d : Disk) (l : Location) : Prop :=
  ∀ visit ∈ x.visits d, visit.1.Spares l visit.2

def written (x : Pipeline α) (d : Disk) : List Location :=
  match x with
  | .done _ => []
  | .look p next => (next (d.lookup p)).written d
  | .replace p content next =>
      match d.replace p content with
      | .ok d' => (d.locate p).toOption.toList ++ (next (.ok ())).written d'
      | .error f => (next (.error f)).written d

/-- The places that a program alone puts something else into than what they hold. -/
def changed (x : Pipeline α) (d : Disk) : List Location :=
  match x with
  | .done _ => []
  | .look p next => (next (d.lookup p)).changed d
  | .replace p content next =>
      match d.replace p content with
      | .ok d' =>
          (d.locate p).toOption.toList.filter (d.node? · != some (.file content))
            ++ (next (.ok ())).changed d'
      | .error f => (next (.error f)).changed d

def result? : Pipeline α → Option α
  | .done a => some a
  | .look _ _ | .replace _ _ _ => none

def after : Nat → Pipeline α → Disk → Pipeline α × Disk
  | 0, x, d => (x, d)
  | n + 1, x, d => after n (x.step d).1 (x.step d).2

variable {x : Pipeline α} {d d' : Disk}

theorem result?_eq_some {a : α} : x.result? = some a ↔ x = .done a := by
  cases x <;> simp [result?]

theorem visits_step (x : Pipeline α) (d : Disk) :
    (x.step d).1.visits (x.step d).2 ⊆ x.visits d := by
  cases x with
  | done a => exact List.Subset.refl _
  | look p next => exact List.subset_cons_self _ _
  | replace p content next =>
      cases hd : d.replace p content with
      | ok d' =>
          simp only [step, visits, hd]
          exact List.subset_cons_self _ _
      | error f =>
          simp only [step, visits, hd]
          exact List.subset_cons_self _ _

theorem mem_visits_of_path {p : Path} (h : x.path? = some p) : (d, p) ∈ x.visits d := by
  cases x with
  | done a => cases h
  | look q next =>
      obtain rfl := Option.some.inj h
      exact List.mem_cons_self
  | replace q content next =>
      obtain rfl := Option.some.inj h
      rw [visits]
      exact List.mem_cons_self

theorem changed_step (x : Pipeline α) (d : Disk) :
    (x.step d).1.changed (x.step d).2 ⊆ x.changed d := by
  cases x with
  | done a => exact List.Subset.refl _
  | look p next => exact List.Subset.refl _
  | replace p content next =>
      cases hd : d.replace p content with
      | ok d' =>
          simp only [step, changed, hd]
          exact List.subset_append_right _ _
      | error f =>
          simp only [step, changed, hd]
          exact List.Subset.refl _

theorem changed_subset_written (x : Pipeline α) (d : Disk) : x.changed d ⊆ x.written d := by
  induction x generalizing d with
  | done a => exact List.Subset.refl _
  | look p next ih => exact ih _ d
  | replace p content next ih =>
      rw [changed, written]
      cases d.replace p content with
      | ok d' =>
          exact List.append_subset.2
            ⟨List.subset_append_of_subset_left _ List.filter_sublist.subset,
              List.subset_append_of_subset_right _ (ih (.ok ()) d')⟩
      | error f => exact ih _ d

theorem exists_visit_of_written {l : Location} (h : l ∈ x.written d) :
    ∃ visit ∈ x.visits d, visit.1.locate visit.2 = .ok l := by
  induction x generalizing d with
  | done a => cases h
  | look p next ih =>
      obtain ⟨visit, hvisit, hl⟩ := ih _ h
      exact ⟨visit, List.mem_cons_of_mem _ hvisit, hl⟩
  | replace p content next ih =>
      rw [written] at h
      rw [visits]
      cases hd : d.replace p content with
      | ok d' =>
          rw [hd] at h
          rcases List.mem_append.1 h with h | h
          · rw [Option.mem_toList, toOption_eq_some] at h
            exact ⟨(d, p), List.mem_cons_self, h⟩
          · obtain ⟨visit, hvisit, hl⟩ := ih _ h
            exact ⟨visit, List.mem_cons_of_mem _ hvisit, hl⟩
      | error f =>
          rw [hd] at h
          obtain ⟨visit, hvisit, hl⟩ := ih _ h
          exact ⟨visit, List.mem_cons_of_mem _ hvisit, hl⟩

theorem Spares.not_mem_written {l : Location} (h : x.Spares d l) : l ∉ x.written d := by
  intro hl
  obtain ⟨visit, hvisit, hlocate⟩ := exists_visit_of_written hl
  exact (h visit hvisit).other hlocate

variable {p : Path} {content : ByteArray}

theorem step_of_replace_ok (next : Except Fault Unit → Pipeline α)
    (h : d.replace p content = .ok d') :
    (Pipeline.replace p content next).step d = (next (.ok ()), d') := by
  simp only [step, h]

theorem step_of_replace_error (next : Except Fault Unit → Pipeline α) {f : Fault}
    (h : d.replace p content = .error f) :
    (Pipeline.replace p content next).step d = (next (.error f), d) := by
  simp only [step, h]

/-- Where the next path leads to the same place on two disks, with the same there, a program makes
the same step on both, and the same change if any. -/
theorem step_same (h : ∀ p, x.path? = some p → Disk.SameAt p d d') :
    (x.step d').1 = (x.step d).1 ∧
      ((x.step d).2 = d ∧ (x.step d').2 = d' ∨
        ∃ p l content, x.path? = some p ∧ d.locate p = .ok l ∧ d.node? l ≠ some .directory ∧
          (l ∉ x.changed d → d.node? l = some (.file content)) ∧
          (x.step d).2 = d.withFile l content ∧ (x.step d').2 = d'.withFile l content) := by
  cases x with
  | done a => exact ⟨rfl, .inl ⟨rfl, rfl⟩⟩
  | look p next => exact ⟨congrArg next (h p rfl).lookup, .inl ⟨rfl, rfl⟩⟩
  | replace p content next =>
      rcases (h p rfl).replace content with ⟨f, hd, hd'⟩ | ⟨l, hl, hnode, hd, hd'⟩
      · rw [step_of_replace_error next hd, step_of_replace_error next hd']
        exact ⟨rfl, .inl ⟨rfl, rfl⟩⟩
      · have hsame (hl' : l ∉ (Pipeline.replace p content next).changed d) :
            d.node? l = some (.file content) := by
          by_contra hother
          refine hl' ?_
          simp [changed, hd, hl, Except.toOption, hother]
        rw [step_of_replace_ok next hd, step_of_replace_ok next hd']
        exact ⟨rfl, .inr ⟨p, l, content, rfl, hl, hnode, hsame, rfl, rfl⟩⟩

theorem after_succ (n : Nat) (x : Pipeline α) (d : Disk) :
    after (n + 1) x d = (after n x d).1.step (after n x d).2 := by
  induction n generalizing x d with
  | zero => rfl
  | succ n ih => exact ih _ _

theorem run_step (x : Pipeline α) (d : Disk) : (x.step d).1.run (x.step d).2 = x.run d := by
  cases x with
  | done a => rfl
  | look p next => rfl
  | replace p content next =>
      cases hd : d.replace p content with
      | ok d' => simp only [step, run, hd]
      | error f => simp only [step, run, hd]

theorem accesses_step (x : Pipeline α) (d : Disk) :
    (x.step d).1.accesses (x.step d).2 = x.accesses d - 1 := by
  cases x with
  | done a => rfl
  | look p next => rfl
  | replace p content next =>
      cases hd : d.replace p content with
      | ok d' => simp only [step, accesses, hd, Nat.add_sub_cancel]
      | error f => simp only [step, accesses, hd, Nat.add_sub_cancel]

theorem accesses_eq_zero (h : x.accesses d = 0) : x = .done (x.run d).1 ∧ (x.run d).2 = d := by
  cases x with
  | done a => exact ⟨rfl, rfl⟩
  | look p next => cases h
  | replace p content next =>
      rw [accesses] at h
      exact absurd h (Nat.succ_ne_zero _)

theorem after_of_accesses_le {n : Nat} (h : x.accesses d ≤ n) :
    after n x d = (.done (x.run d).1, (x.run d).2) := by
  induction n generalizing x d with
  | zero =>
      obtain ⟨hx, hd⟩ := accesses_eq_zero (Nat.le_zero.1 h)
      rw [after, hd, ← hx]
  | succ n ih =>
      have hrest := ih (x := (x.step d).1) (d := (x.step d).2) (by rw [accesses_step]; omega)
      rwa [run_step] at hrest

theorem accesses_le_of_after {n : Nat} {a : α} (h : (after n x d).1 = .done a) :
    x.accesses d ≤ n := by
  induction n generalizing x d with
  | zero =>
      obtain rfl : x = .done a := h
      exact Nat.le_refl _
  | succ n ih =>
      have hrest := ih h
      rw [accesses_step] at hrest
      omega

end Pipeline

end ElementBridge
