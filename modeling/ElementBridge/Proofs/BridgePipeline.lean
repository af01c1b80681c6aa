import ElementBridge.Batch
import ElementBridge.Proofs.LoadingDepth
import ElementBridge.Proofs.Pipelines

namespace ElementBridge

open ElementBridge.Tree

namespace Pipeline

variable {α β γ : Type}

theorem run_bind (x : Pipeline α) (f : α → Pipeline β) (d : Disk) :
    (x >>= f).run d = (f (x.run d).1).run (x.run d).2 := by
  change (x.bind f).run d = _
  induction x generalizing d with
  | done a => rfl
  | look p next ih => exact ih _ _
  | replace p content next ih =>
      rw [bind, run, run]
      cases d.replace p content with
      | ok d' => exact ih _ _
      | error fault => exact ih _ _

theorem written_bind (x : Pipeline α) (f : α → Pipeline β) (d : Disk) :
    (x >>= f).written d = x.written d ++ (f (x.run d).1).written (x.run d).2 := by
  change (x.bind f).written d = _
  induction x generalizing d with
  | done a => rfl
  | look p next ih => exact ih _ _
  | replace p content next ih =>
      rw [bind, written, written, run]
      cases d.replace p content with
      | ok d' =>
          simp only [List.append_assoc]
          exact congrArg _ (ih _ _)
      | error fault => exact ih _ _

def Reads (d : Disk) (x : Pipeline α) (a : α) : Prop := x.run d = (a, d) ∧ x.written d = []

variable {d : Disk}

theorem Reads.pure (a : α) : Reads d (pure a) a := ⟨rfl, rfl⟩

theorem Reads.bind {x : Pipeline α} {f : α → Pipeline β} {a : α} {b : β} (hx : Reads d x a)
    (hf : Reads d (f a) b) : Reads d (x >>= f) b := by
  unfold Reads
  rw [run_bind, written_bind, hx.1, hx.2]
  exact hf

theorem Reads.foldlM {step : β → α → Pipeline β} {f : β → α → β}
    (h : ∀ b a, Reads d (step b a) (f b a)) (as : List α) (b : β) :
    Reads d (as.foldlM step b) (as.foldl f b) := by
  induction as generalizing b with
  | nil => exact .pure b
  | cons a as ih => exact (h b a).bind (ih _)

def isFile (p : Path) : Pipeline Bool :=
  .look p fun found => .done (match found with | .ok (.file _) => true | _ => false)

def contentOf (found : Except Fault Node) : Except Fault ByteArray := do
  match ← found with
  | .file content => return content
  | .directory => .error .isDirectory

def textOf (found : Except Fault Node) : Except Fault String := do
  match String.fromUTF8? (← contentOf found) with
  | some text => return text
  | none => .error .notText

def readSource (p : Path) : Pipeline (Except Fault SourceFile) :=
  .look p fun found => .done (do return ⟨p, ← textOf found⟩)

theorem reads_isFile (p : Path) : Reads d (isFile p) (d.isFile p) := ⟨rfl, rfl⟩

theorem reads_readSource (p : Path) : Reads d (readSource p) (SourceFile.read d p) := ⟨rfl, rfl⟩

def firstFile : List Path → Pipeline (Option Path)
  | [] => pure none
  | p :: rest => do if ← isFile p then return some p else firstFile rest

theorem reads_firstFile (ps : List Path) : Reads d (firstFile ps) (ps.find? d.isFile) := by
  induction ps with
  | nil => exact .pure none
  | cons p rest ih =>
      refine (reads_isFile p).bind ?_
      rw [List.find?_cons]
      cases d.isFile p with
      | true => exact .pure (some p)
      | false => exact ih

def resolve (directory : Path) (specifier : String) : Pipeline (Option Path) :=
  if isRelative specifier then firstFile (sourceCandidates directory specifier) else pure none

theorem reads_resolve (directory : Path) (specifier : String) :
    Reads d (resolve directory specifier) (resolveSpecifier d directory specifier) := by
  unfold resolve resolveSpecifier
  split
  · exact reads_firstFile _
  · exact .pure none

def passOn (t : ModuleTable) (directory : Path) (scan : ExportScan) : Pipeline (List String) :=
  scan.stars.foldlM (fun names specifier => do
    match (← resolve directory specifier).bind t.find with
    | some m => return ModuleTable.addNew names m.exported
    | none => return names) scan.exported

theorem reads_passOn (t : ModuleTable) (directory : Path) (scan : ExportScan) :
    Reads d (passOn t directory scan) (t.exportsThrough d directory scan) := by
  refine .foldlM (fun names specifier => (reads_resolve directory specifier).bind ?_) _ _
  cases (resolveSpecifier d directory specifier).bind t.find with
  | none => exact .pure _
  | some m => exact .pure _

def loadModule : Nat → ModuleTable → Path → Pipeline ModuleTable
  | 0, t, _ => pure t
  | depth + 1, t, p =>
      if (t.find p).isSome then pure t
      else do
        let t := t ++ [⟨p, []⟩]
        match ← readSource p with
        | .error _ => return t
        | .ok file =>
            match Module.ofText? file.text with
            | none => return t
            | some tree =>
                let scan := tree.exportScan
                let t ← (scan.followed ++ scan.stars).foldlM (fun t specifier => do
                  match ← resolve file.directory specifier with
                  | some next => loadModule depth t next
                  | none => return t) t
                return t.setExports p (← passOn t file.directory scan)

theorem reads_loadModule (depth : Nat) (t : ModuleTable) (p : Path) :
    Reads d (loadModule depth t p) (ModuleTable.load d depth t p) := by
  induction depth generalizing t p with
  | zero => exact .pure t
  | succ depth ih =>
      unfold loadModule ModuleTable.load
      split
      · exact .pure t
      · refine (reads_readSource p).bind ?_
        cases SourceFile.read d p with
        | error fault => exact .pure _
        | ok file =>
            dsimp only
            cases Module.ofText? file.text with
            | none => exact .pure _
            | some tree =>
                refine .bind (.foldlM (fun t specifier => ?_) _ _) ((reads_passOn _ _ _).bind (.pure _))
                refine (reads_resolve file.directory specifier).bind ?_
                cases resolveSpecifier d file.directory specifier with
                | none => exact .pure t
                | some next => exact ih t next

def loadGraph (depth : Nat) (file : SourceFile) (tree : Module) : Pipeline ModuleGraph :=
  tree.exportScan.followed.foldlM (fun g specifier => do
    match ← resolve file.directory specifier with
    | some p => return ⟨(specifier, p) :: g.entries, ← loadModule depth g.modules p⟩
    | none => return g) ⟨[], []⟩

theorem reads_loadGraph (depth : Nat) (file : SourceFile) (tree : Module) :
    Reads d (loadGraph depth file tree) (ModuleGraph.loadWithin d depth file tree) := by
  refine .foldlM (fun g specifier => (reads_resolve file.directory specifier).bind ?_) _ _
  cases resolveSpecifier d file.directory specifier with
  | none => exact .pure g
  | some p => exact (reads_loadModule depth g.modules p).bind (.pure _)

def surface (config : Config) (depth : Nat) (file : SourceFile) :
    Pipeline (Except Failure Surface) :=
  match file.parse with
  | .error failure => pure (.error failure)
  | .ok m => do return Surface.ofModule config file (← loadGraph depth file m) m

theorem reads_surface {depth : Nat} (h : ModuleGraph.chainBound d ≤ depth) (config : Config)
    (file : SourceFile) : Reads d (surface config depth file) (file.surface config d) := by
  unfold surface SourceFile.surface
  cases file.parse with
  | error failure => exact .pure _
  | ok m =>
      refine (reads_loadGraph depth file m).bind ?_
      rw [ModuleGraph.loadWithin_eq h]
      exact .pure _

def oldContentOf (found : Except Fault Node) : Except Fault (Option ByteArray) :=
  match contentOf found with
  | .ok content => .ok (some content)
  | .error .notFound => .ok none
  | .error fault => .error fault

def put (p : Path) (content : ByteArray) : Pipeline (Except Fault Status) :=
  .replace p content fun result => .done (result.map fun _ => .written)

def update (p : Path) (content : ByteArray) (options : WriteOptions) :
    Pipeline (Except Fault Status) :=
  if options.compares then
    .look p fun found =>
      match oldContentOf found with
      | .error fault => .done (.error fault)
      | .ok old =>
          if old.any (sameBytes content) then .done (.ok .unchanged)
          else if options.check then .done (.ok .stale)
          else put p content
  else put p content

def write (p : Path) (bridge : Bridge) (config : Config) (options : WriteOptions) :
    Pipeline (Except Failure Outcome) := do
  let code := bridge.render config.headerLines
  match ← update p code.toUTF8 options with
  | .ok status => return .ok ⟨status, p, code⟩
  | .error fault => return .error (.unwritable p.text fault.text)

def bridge (config : Config) (options : WriteOptions) (depth : Nat) (source : Path) :
    Pipeline (Except Failure Outcome) := do
  match ← readSource source with
  | .error fault => return .error (.unreadable source.text fault.text)
  | .ok file =>
      match ← surface config depth file with
      | .error failure => return .error failure
      | .ok s => write (config.outputPath source) (Bridge.ofSurface config s) config options

theorem run_put (p : Path) (content : ByteArray) :
    (put p content).run d = match d.replace p content with
      | .ok d' => (.ok .written, d')
      | .error fault => (.error fault, d) := by
  unfold put
  rw [run]
  cases d.replace p content <;> rfl

theorem run_update (p : Path) (content : ByteArray) (options : WriteOptions) :
    (update p content options).run d = match Disk.store.update d p content options with
      | .ok (status, d') => (.ok status, d')
      | .error fault => (.error fault, d) := by
  have hput : (put p content).run d
      = match (return (Status.written, ← d.replace p content) : Except Fault (Status × Disk)) with
        | .ok (status, d') => (.ok status, d')
        | .error fault => (.error fault, d) := by
    rw [run_put]
    cases d.replace p content <;> rfl
  unfold update Store.update
  cases hcompares : options.compares with
  | false => exact hput
  | true =>
      have hold : oldContentOf (d.lookup p) = Disk.store.read? d p := rfl
      simp only [if_true]
      rw [run, hold]
      cases Disk.store.read? d p with
      | error fault => rfl
      | ok old =>
          simp only [Bind.bind, Except.bind, Pure.pure, Except.pure]
          cases old.any (sameBytes content) with
          | true => rfl
          | false =>
              cases options.check with
              | true => rfl
              | false => exact hput

theorem run_write (p : Path) (bridge : Bridge) (config : Config) (options : WriteOptions) :
    (write p bridge config options).run d = Disk.store.write d p bridge config options := by
  unfold write Store.write
  dsimp only
  rw [run_bind, run_update]
  cases Disk.store.update d p (bridge.render config.headerLines).toUTF8 options with
  | error fault => rfl
  | ok found => rfl

theorem run_bridge {depth : Nat} (h : ModuleGraph.chainBound d ≤ depth) (config : Config)
    (options : WriteOptions) (source : Path) :
    (bridge config options depth source).run d = Batch.bridgeFile config options d source := by
  unfold bridge Batch.bridgeFile
  rw [run_bind, (reads_readSource source).1]
  cases SourceFile.read d source with
  | error fault => rfl
  | ok file =>
      dsimp only
      rw [run_bind, (reads_surface h config file).1]
      unfold SourceFile.bridge
      cases file.surface config d with
      | error failure => rfl
      | ok s => exact run_write _ _ _ _

theorem mem_written_put {p : Path} {content : ByteArray} {l : Location} :
    l ∈ (put p content).written d ↔
      ((put p content).run d).1 = .ok .written ∧ d.locate p = .ok l := by
  rw [run_put]
  unfold put
  rw [written]
  cases hput : d.replace p content with
  | error fault => simp [written]
  | ok d' =>
      obtain ⟨k, hk, -, -⟩ := Disk.replace_ok hput
      simp [written, hk, Except.toOption, eq_comm]

theorem mem_written_update {p : Path} {content : ByteArray} {options : WriteOptions}
    {l : Location} : l ∈ (update p content options).written d ↔
      ((update p content options).run d).1 = .ok .written ∧ d.locate p = .ok l := by
  unfold update
  split
  · rw [written, run]
    split
    · simp [written, run]
    · split
      · simp [written, run]
      · split
        · simp [written, run]
        · exact mem_written_put
  · exact mem_written_put

theorem mem_written_write {p : Path} {bridge : Bridge} {config : Config} {options : WriteOptions}
    {l : Location} : l ∈ (write p bridge config options).written d ↔
      ∃ outcome, ((write p bridge config options).run d).1 = .ok outcome ∧
        outcome.status = .written ∧ d.locate outcome.output = .ok l := by
  unfold write
  dsimp only
  rw [written_bind, run_bind, List.mem_append, mem_written_update]
  generalize (update p (bridge.render config.headerLines).toUTF8 options).run d = found
  obtain ⟨result, d'⟩ := found
  cases result with
  | error fault => simp [Pure.pure, written, run]
  | ok status => simp [Pure.pure, written, run]

/-- All that the way from a source to its bridge changes is the place of the bridge, and that only
where the outcome says so. -/
theorem mem_written_bridge {depth : Nat} (h : ModuleGraph.chainBound d ≤ depth) {config : Config}
    {options : WriteOptions} {source : Path} {l : Location} :
    l ∈ (bridge config options depth source).written d ↔
      ∃ outcome, (Batch.bridgeFile config options d source).1 = .ok outcome ∧
        outcome.status = .written ∧ d.locate outcome.output = .ok l := by
  rw [← run_bridge h config options source]
  obtain ⟨hread, hwritten⟩ := reads_readSource (d := d) source
  unfold bridge
  rw [written_bind, run_bind, hread, hwritten, List.nil_append]
  cases SourceFile.read d source with
  | error fault => simp [Pure.pure, written, run]
  | ok file =>
      obtain ⟨hread, hwritten⟩ := reads_surface h config file
      dsimp only
      rw [written_bind, run_bind, hread, hwritten, List.nil_append]
      cases file.surface config d with
      | error failure => simp [Pure.pure, written, run]
      | ok s => exact mem_written_write

end Pipeline

end ElementBridge
