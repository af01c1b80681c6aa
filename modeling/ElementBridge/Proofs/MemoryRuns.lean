import ElementBridge.Output.Memory
import ElementBridge.Proofs.ModuleTables

namespace ElementBridge

structure Writing where
  path : Path
  bridge : Bridge
  config : Config
  options : WriteOptions

namespace Writing

variable (w : Writing)

def code : String := w.bridge.render w.config.headerLines

def bytes : ByteArray := w.code.toUTF8

def outcome (status : Status) : Outcome := ⟨status, w.path, w.code⟩

def perform (m : Memory) : Except Failure Outcome × Memory :=
  Memory.store.write m w.path w.bridge w.config w.options

/-- The old content counts: there is nothing to overwrite, or it may be there already. -/
def NeedsRead : Prop := w.options.check = true ∨ w.options.forceRewriting = false

/-- The file has to be replaced: that is allowed, and it is asked for or the content is another. -/
def NeedsWrite (m : Memory) : Prop :=
  w.options.check = false ∧
    (w.options.forceRewriting = true ∨ m.content? w.path ≠ some w.bytes)

end Writing

namespace Memory

inductive Step where
  | put (path : Path) (content : ByteArray)
  | remove (path : Path)
  | fail (reads writes : Bool)
  | write (w : Writing)

def Step.run (m : Memory) : Step → Memory
  | .put path content => m.put path content
  | .remove path => m.remove path
  | .fail reads writes => m.fail reads writes
  | .write w => (w.perform m).2

def run (m : Memory) (steps : List Step) : Memory := steps.foldl Step.run m

def results (m : Memory) : List Step → List (Except Failure Outcome)
  | [] => []
  | .write w :: rest => (w.perform m).1 :: results (w.perform m).2 rest
  | step :: rest => results (step.run m) rest

variable {m : Memory} {p q : Path} {content : ByteArray}

theorem content?_congr (h : p.same q = true) : m.content? p = m.content? q := by
  have hsame (e : Path × ByteArray) : e.1.same p = e.1.same q := by
    rw [Bool.eq_iff_iff]
    exact ⟨fun he => Path.same_trans he h, fun he => Path.same_trans he (Path.same_comm p q ▸ h)⟩
  unfold content?
  rw [funext hsame]

theorem content?_put (m : Memory) (p : Path) (content : ByteArray) :
    (m.put p content).content? p = some content := by
  simp [content?, put, Path.same_refl]

theorem find?_without (h : q.same p = false) :
    (m.without q).find? (·.1.same p) = m.files.find? (·.1.same p) := by
  have hother (e : Path × ByteArray) (he : e.1.same p = true) : e.1.same q = false := by
    rw [← Bool.not_eq_true] at h ⊢
    exact fun hq => h (Path.same_trans (Path.same_comm e.1 q ▸ hq) he)
  rw [without, List.find?_filter]
  congr 1
  funext e
  cases he : e.1.same p <;> simp [hother, he]

theorem content?_remove_of_ne (h : q.same p = false) : (m.remove q).content? p = m.content? p :=
  congrArg (Option.map _) (find?_without h)

theorem content?_put_of_ne (h : q.same p = false) :
    (m.put q content).content? p = m.content? p := by
  have hput : (m.put q content).files.find? (·.1.same p) = (m.without q).find? (·.1.same p) := by
    rw [put, List.find?_cons, h]
  exact congrArg (Option.map _) (hput.trans (find?_without h))

section Update

variable {options : WriteOptions}

theorem update_of_forced (h : options.compares = false) : store.update m p content options
    = (m.replace p content).map (Status.written, ·) := by
  simp only [Store.update, h, Bool.false_eq_true, if_false]
  rfl

theorem update_of_unreadable (h : options.compares = true) (hfail : m.failReads = true) :
    store.update m p content options = .error (.other "unreadable") := by
  simp [Store.update, h, store, read?, hfail, bind, Except.bind]

theorem read?_of_readable (hfail : m.failReads = false) : store.read? m p = .ok (m.content? p) := by
  simp [store, read?, hfail]

theorem update_of_held (h : options.compares = true) (hfail : m.failReads = false)
    (hold : m.content? p = some content) :
    store.update m p content options = .ok (.unchanged, m) := by
  have hany := any_sameBytes.2 hold
  simp only [Store.update, h, if_true, read?_of_readable hfail, bind, Except.bind, hany]
  rfl

theorem update_of_differing (h : options.compares = true) (hfail : m.failReads = false)
    (hother : m.content? p ≠ some content) : store.update m p content options
      = if options.check = true then .ok (.stale, m)
        else (m.replace p content).map (Status.written, ·) := by
  have hany : ¬ (m.content? p).any (sameBytes content) = true := fun h => hother (any_sameBytes.1 h)
  simp only [Store.update, h, if_true, read?_of_readable hfail, bind, Except.bind, if_neg hany]
  split <;> rfl

end Update

end Memory

namespace Writing

variable {w w' : Writing} {m : Memory}

theorem compares_iff : w.options.compares = true ↔ w.NeedsRead := by
  simp [WriteOptions.compares, NeedsRead, or_comm]

inductive Performs (w : Writing) (m : Memory) : Except Failure Outcome → Memory → Prop where
  | unreadable : w.NeedsRead → m.failReads = true →
      Performs w m (.error (.unwritable w.path.text "unreadable")) m
  | unchanged : w.NeedsRead → m.failReads = false → m.content? w.path = some w.bytes →
      Performs w m (.ok (w.outcome .unchanged)) m
  | stale : w.options.check = true → m.failReads = false → m.content? w.path ≠ some w.bytes →
      Performs w m (.ok (w.outcome .stale)) m
  | unwritable : (w.NeedsRead → m.failReads = false) → w.NeedsWrite m → m.failWrites = true →
      Performs w m (.error (.unwritable w.path.text "read-only")) m
  | written : (w.NeedsRead → m.failReads = false) → w.NeedsWrite m → m.failWrites = false →
      Performs w m (.ok (w.outcome .written))
        { m.put w.path w.bytes with writes := m.writes + 1 }

theorem perform_of_ok {status : Status} {after : Memory}
    (h : Memory.store.update m w.path w.bytes w.options = .ok (status, after)) :
    w.perform m = (.ok (w.outcome status), after) := by
  have hcode : Memory.store.update m w.path (w.bridge.render w.config.headerLines).toUTF8 w.options
      = .ok (status, after) := h
  simp only [perform, Store.write, hcode]
  rfl

theorem perform_of_error {fault : Fault}
    (h : Memory.store.update m w.path w.bytes w.options = .error fault) :
    w.perform m = (.error (.unwritable w.path.text fault.text), m) := by
  have hcode : Memory.store.update m w.path (w.bridge.render w.config.headerLines).toUTF8 w.options
      = .error fault := h
  simp only [perform, Store.write, hcode]

theorem performs_of_replace (hread : w.NeedsRead → m.failReads = false) (hwrite : w.NeedsWrite m)
    (h : Memory.store.update m w.path w.bytes w.options
      = (m.replace w.path w.bytes).map (Status.written, ·)) :
    w.Performs m (w.perform m).1 (w.perform m).2 := by
  unfold Memory.replace at h
  cases hfail : m.failWrites with
  | true =>
      rw [hfail, if_pos rfl] at h
      rw [perform_of_error h]
      exact .unwritable hread hwrite hfail
  | false =>
      rw [hfail, if_neg Bool.false_ne_true] at h
      rw [perform_of_ok h]
      exact .written hread hwrite hfail

theorem performs_perform (w : Writing) (m : Memory) :
    w.Performs m (w.perform m).1 (w.perform m).2 := by
  by_cases hread : w.NeedsRead
  · have hcompares := compares_iff.2 hread
    cases hfail : m.failReads with
    | true =>
        rw [perform_of_error (Memory.update_of_unreadable hcompares hfail)]
        exact .unreadable hread hfail
    | false =>
        by_cases hold : m.content? w.path = some w.bytes
        · rw [perform_of_ok (Memory.update_of_held hcompares hfail hold)]
          exact .unchanged hread hfail hold
        · have hupdate := Memory.update_of_differing hcompares hfail hold
          by_cases hcheck : w.options.check = true
          · rw [if_pos hcheck] at hupdate
            rw [perform_of_ok hupdate]
            exact .stale hcheck hfail hold
          · rw [if_neg hcheck] at hupdate
            have hunchecked : w.options.check = false := by simpa using hcheck
            exact performs_of_replace (fun _ => hfail) ⟨hunchecked, .inr hold⟩ hupdate
  · have hcompares : w.options.compares = false := by
      simpa using fun h => hread (compares_iff.1 h)
    obtain ⟨hunchecked, hforced⟩ : w.options.check = false ∧ w.options.forceRewriting = true := by
      simpa [NeedsRead] using hread
    exact performs_of_replace (fun h => absurd h hread) ⟨hunchecked, .inl hforced⟩
      (Memory.update_of_forced hcompares)

@[simp]
theorem outcome_inj {a b : Status} : w.outcome a = w.outcome b ↔ a = b := by
  simp [outcome]

theorem NeedsWrite.differs (h : w.NeedsWrite m) (hread : w.NeedsRead) :
    m.content? w.path ≠ some w.bytes := by
  obtain ⟨hcheck, hforced | hother⟩ := h
  · rcases hread with hread | hread
    · cases hcheck.symm.trans hread
    · cases hforced.symm.trans hread
  · exact hother

theorem NeedsWrite.not_check (h : w.NeedsWrite m) : ¬ w.options.check = true := by
  simp [h.1]

namespace Performs

variable {result : Except Failure Outcome} {after : Memory}

theorem elsewhere (h : w.Performs m result after) {p : Path} (hp : w.path.same p = false) :
    after.content? p = m.content? p := by
  cases h with
  | written => exact Memory.content?_put_of_ne hp
  | _ => rfl

theorem counted (h : w.Performs m result after) :
    (after.writes = m.writes + 1 ↔ result = .ok (w.outcome .written)) ∧
      (result ≠ .ok (w.outcome .written) → after.writes = m.writes) := by
  cases h <;> simp

theorem holds (h : w.Performs m result after)
    (hok : result = .ok (w.outcome .written) ∨ result = .ok (w.outcome .unchanged)) :
    after.content? w.path = some w.bytes := by
  cases h with
  | unchanged _ _ hold => exact hold
  | written => exact Memory.content?_put m w.path w.bytes
  | _ => simp at hok

theorem holds_of_ok (h : w.Performs m result after) (hcheck : w.options.check = false)
    (hok : ∃ outcome, result = .ok outcome) : after.content? w.path = some w.bytes := by
  refine h.holds ?_
  cases h with
  | stale hstale => cases hcheck.symm.trans hstale
  | _ => simp at hok ⊢

theorem still (h : w.Performs m result after)
    (hstill : w.options.check = true ∨ ∃ failure, result = .error failure) : after = m := by
  cases h with
  | written _ hwrite => simp [hwrite.not_check] at hstill
  | _ => rfl

theorem unchanged_iff (h : w.Performs m result after) : result = .ok (w.outcome .unchanged) ↔
    w.NeedsRead ∧ m.failReads = false ∧ m.content? w.path = some w.bytes := by
  cases h with
  | unreadable _ hfail => simp [hfail]
  | unchanged hread hfail hold => simp [hread, hfail, hold]
  | stale _ _ hother => simp [hother]
  | unwritable _ hwrite => simpa using fun hread _ => hwrite.differs hread
  | written _ hwrite => simpa using fun hread _ => hwrite.differs hread

theorem stale_iff (h : w.Performs m result after) : result = .ok (w.outcome .stale) ↔
    w.options.check = true ∧ m.failReads = false ∧ m.content? w.path ≠ some w.bytes := by
  cases h with
  | unreadable _ hfail => simp [hfail]
  | unchanged _ _ hold => simp [hold]
  | stale hcheck hfail hother => simp [hcheck, hfail, hother]
  | unwritable _ hwrite => simp [hwrite.not_check]
  | written _ hwrite => simp [hwrite.not_check]

theorem failed_iff (h : w.Performs m result after) : (∃ failure, result = .error failure) ↔
    w.NeedsRead ∧ m.failReads = true ∨ w.NeedsWrite m ∧ m.failWrites = true := by
  cases h with
  | unreadable hread hfail => simp [hread, hfail]
  | unchanged hread hfail hold =>
      have hnone : ¬ w.NeedsWrite m := fun hwrite => hwrite.differs hread hold
      simp [hfail, hnone]
  | stale hcheck hfail =>
      have hnone : ¬ w.NeedsWrite m := fun hwrite => hwrite.not_check hcheck
      simp [hfail, hnone]
  | unwritable _ hwrite hfail => simp [hwrite, hfail]
  | written hreads _ hfail => simpa [hfail] using hreads

theorem answers (h : w.Performs m result after) {outcome : Outcome} (hok : result = .ok outcome) :
    ∃ status, outcome = w.outcome status := by
  cases h <;> cases hok <;> exact ⟨_, rfl⟩

end Performs

structure Abides (w : Writing) (before : Memory) (result : Except Failure Outcome)
    (after : Memory) : Prop where
  elsewhere : ∀ p : Path, w.path.same p = false → after.content? p = before.content? p
  counted : (after.writes = before.writes + 1 ↔ result = .ok (w.outcome .written)) ∧
    (result ≠ .ok (w.outcome .written) → after.writes = before.writes)
  holds : result = .ok (w.outcome .written) ∨ result = .ok (w.outcome .unchanged) →
    after.content? w.path = some w.bytes
  still : w.options.check = true ∨ (∃ failure, result = .error failure) → after = before
  unchanged : result = .ok (w.outcome .unchanged) ↔
    w.NeedsRead ∧ before.failReads = false ∧ before.content? w.path = some w.bytes
  stale : result = .ok (w.outcome .stale) ↔
    w.options.check = true ∧ before.failReads = false ∧ before.content? w.path ≠ some w.bytes
  failed : (∃ failure, result = .error failure) ↔
    w.NeedsRead ∧ before.failReads = true ∨ w.NeedsWrite before ∧ before.failWrites = true
  answers : ∀ outcome, result = .ok outcome → ∃ status, outcome = w.outcome status

theorem abides_perform (w : Writing) (m : Memory) :
    w.Abides m (w.perform m).1 (w.perform m).2 := by
  have h := performs_perform w m
  exact ⟨fun p => h.elsewhere, h.counted, h.holds, h.still, h.unchanged_iff, h.stale_iff,
    h.failed_iff, fun _ => h.answers⟩

theorem perform_of_held (hread : w.NeedsRead) (hold : m.content? w.path = some w.bytes) :
    (w.perform m).2 = m ∧
      ((w.perform m).1 = .ok (w.outcome .unchanged) ↔ m.failReads = false) := by
  have h := performs_perform w m
  constructor
  · cases hfail : m.failReads with
    | true => exact h.still (.inr (h.failed_iff.2 (.inl ⟨hread, hfail⟩)))
    | false =>
        have hanswer := h.unchanged_iff.2 ⟨hread, hfail, hold⟩
        generalize (w.perform m).1 = result, (w.perform m).2 = after at h hanswer
        cases h with
        | unchanged => rfl
        | _ => simp at hanswer
  · rw [h.unchanged_iff]
    exact ⟨fun hall => hall.2.1, fun hfail => ⟨hread, hfail, hold⟩⟩

end Writing

namespace Memory

/-- Steps that leave what a path names alone: those at other places, checks, and faults to come. -/
def Step.Spares (p : Path) : Step → Prop
  | .put q _ | .remove q => q.same p = false
  | .fail _ _ => True
  | .write w => w.path.same p = false ∨ w.options.check = true

theorem Step.Spares.content? {p : Path} {step : Step} (h : step.Spares p) (m : Memory) :
    (step.run m).content? p = m.content? p := by
  cases step with
  | put q content => exact content?_put_of_ne h
  | remove q => exact content?_remove_of_ne h
  | fail reads writes => rfl
  | write w =>
      have hw := w.performs_perform m
      rcases h with hother | hcheck
      · exact hw.elsewhere hother
      · exact congrArg (Memory.content? · p) (hw.still (.inl hcheck))

theorem content?_run {p : Path} {steps : List Step} (h : ∀ step ∈ steps, step.Spares p)
    (m : Memory) : (m.run steps).content? p = m.content? p := by
  induction steps generalizing m with
  | nil => rfl
  | cons step rest ih =>
      obtain ⟨hstep, hrest⟩ := List.forall_mem_cons.1 h
      exact (ih hrest (step.run m)).trans (hstep.content? m)

theorem run_append (m : Memory) (front back : List Step) :
    m.run (front ++ back) = (m.run front).run back := List.foldl_append

def isWritten (result : Except Failure Outcome) : Bool :=
  result.toOption.any (·.status = .written)

theorem isWritten_perform (w : Writing) (m : Memory) :
    isWritten (w.perform m).1 = true ↔ (w.perform m).1 = .ok (w.outcome .written) := by
  have h := w.performs_perform m
  generalize (w.perform m).1 = result, (w.perform m).2 = after at h
  cases h <;> simp [isWritten, Except.toOption, Writing.outcome]

theorem writes_perform (w : Writing) (m : Memory) :
    (w.perform m).2.writes = m.writes + if isWritten (w.perform m).1 then 1 else 0 := by
  have hcounted := (w.performs_perform m).counted
  split
  · next hwritten => exact hcounted.1.2 ((isWritten_perform w m).1 hwritten)
  · next hwritten => exact hcounted.2 fun hok => hwritten ((isWritten_perform w m).2 hok)

theorem writes_run (m : Memory) (steps : List Step) :
    (m.run steps).writes = m.writes + (m.results steps).countP isWritten := by
  induction steps generalizing m with
  | nil => rfl
  | cons step rest ih =>
      have hlater := ih (step.run m)
      cases step with
      | write w =>
          have hcount : (m.results (.write w :: rest)).countP isWritten
              = (((Step.write w).run m).results rest).countP isWritten
                + if isWritten (w.perform m).1 then 1 else 0 := List.countP_cons
          have hstep : ((Step.write w).run m).writes
              = m.writes + if isWritten (w.perform m).1 then 1 else 0 := writes_perform w m
          change (((Step.write w).run m).run rest).writes = _
          omega
      | _ => exact hlater

structure Orderly (steps : List Step) : Prop where
  policy : ∀ front w back, steps = front ++ .write w :: back →
    w.Abides (empty.run front) (w.perform (empty.run front)).1 (empty.run (front ++ [.write w]))
  total : (empty.run steps).writes = (empty.results steps).countP isWritten
  again : ∀ front (w : Writing) between (w' : Writing) back,
    steps = front ++ .write w :: (between ++ .write w' :: back) →
    w.options.check = false → (∃ outcome, (w.perform (empty.run front)).1 = .ok outcome) →
    w.path.same w'.path = true → w'.code = w.code → w'.options.forceRewriting = false →
    (∀ step ∈ between, step.Spares w.path) →
    ((w'.perform (empty.run (front ++ .write w :: between))).1 = .ok (w'.outcome .unchanged) ↔
        (empty.run (front ++ .write w :: between)).failReads = false) ∧
      (w'.perform (empty.run (front ++ .write w :: between))).2
        = empty.run (front ++ .write w :: between)

/-- Each write keeps to the policy. One without force, of what the last write to its place has left
there, changes nothing and finds nothing to do if the file can be read. -/
theorem orderly (steps : List Step) : Orderly steps where
  policy front w back _ := by
    rw [run_append]
    exact w.abides_perform (empty.run front)
  total := by
    rw [writes_run]
    exact Nat.zero_add _
  again front w between w' back _ hcheck hok hpath hcode hforce hbetween := by
    have hheld : (w.perform (empty.run front)).2.content? w.path = some w.bytes :=
      (w.performs_perform (empty.run front)).holds_of_ok hcheck hok
    have hkept : (empty.run (front ++ .write w :: between)).content? w'.path = some w'.bytes := by
      rw [← content?_congr hpath, run_append, Writing.bytes, hcode]
      exact (content?_run hbetween _).trans hheld
    obtain ⟨hsame, hanswer⟩ := Writing.perform_of_held (.inr hforce) hkept
    exact ⟨hanswer, hsame⟩

def mixedRun : List Step :=
  let write (path : String) (options : WriteOptions) : Step :=
    .write ⟨⟨path⟩, ⟨[], ["a"], ["b"], []⟩, ⟨[], [], "", "", []⟩, options⟩
  [.fail true false, write "d/o" ⟨true, false, false⟩, .put ⟨"c"⟩ .empty, .fail false true,
    write "d/o" ⟨true, false, true⟩, write "d//o" .standard, write "c" .standard]

example : (empty.results mixedRun).map (·.toOption.map (·.status))
    = [some .written, some .unchanged, some .unchanged, none] := by
  decide +kernel

end Memory

end ElementBridge
