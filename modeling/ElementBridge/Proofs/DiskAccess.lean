import ElementBridge.Output
import ElementBridge.Proofs.Results

namespace ElementBridge

instance : DecidableEq Node
  | .directory, .directory => isTrue rfl
  | .file a, .file b =>
      decidable_of_iff (sameBytes a b = true) (by rw [sameBytes_iff, Node.file.injEq])
  | .directory, .file _ | .file _, .directory => isFalse nofun

namespace Disk

variable {d d' : Disk} {here l : Location} {p : Path} {content : ByteArray}

def trail (d : Disk) (here : Location) : List (List Char) → List Location
  | [] => [here]
  | piece :: rest =>
      here :: match d.step here piece with
        | .ok next => trail d next rest
        | .error _ => []

def start (d : Disk) (p : Path) : Location := if p.isAbsolute then [] else d.workingDirectory

/-- The places that a path comes through, with the one that it names. -/
def footprint (d : Disk) (p : Path) : List Location :=
  if p.text == "" then []
  else if 4095 < p.text.utf8ByteSize then []
  else d.trail (d.start p) (Path.split p.text.toList)

theorem mem_trail (here : Location) (pieces : List (List Char)) : here ∈ d.trail here pieces := by
  cases pieces with
  | nil => exact List.mem_singleton.2 rfl
  | cons piece rest => exact List.mem_cons_self

theorem step_congr (h : d'.node? here = d.node? here) (piece : List Char) :
    d'.step here piece = d.step here piece := by
  unfold step
  rw [h]

theorem trail_congr {pieces : List (List Char)}
    (h : ∀ l ∈ d.trail here pieces, d'.step l = d.step l) :
    d'.trail here pieces = d.trail here pieces ∧
      pieces.foldlM d'.step here = pieces.foldlM d.step here := by
  induction pieces generalizing here with
  | nil => exact ⟨rfl, rfl⟩
  | cons piece rest ih =>
      have hstep := congrFun (h here (mem_trail here _)) piece
      rw [List.foldlM_cons, List.foldlM_cons, trail, trail, hstep]
      cases hnext : d.step here piece with
      | error f => exact ⟨rfl, rfl⟩
      | ok next =>
          have hrest : ∀ l ∈ d.trail next rest, d'.step l = d.step l := by
            intro l hl
            refine h l ?_
            rw [trail, hnext]
            exact List.mem_cons_of_mem _ hl
          obtain ⟨htrail, hfold⟩ := ih hrest
          exact ⟨congrArg (here :: ·) htrail, hfold⟩

theorem locate_eq_start (hempty : (p.text == "") = false) (hsize : ¬4095 < p.text.utf8ByteSize) :
    d.locate p = (Path.split p.text.toList).foldlM d.step (d.start p) := by
  unfold locate start
  rw [hempty, if_neg (by simp), if_neg hsize]
  split
  · rfl
  · rfl

theorem locate_congr (hdirectory : d'.workingDirectory = d.workingDirectory)
    (h : ∀ l ∈ d.footprint p, d'.step l = d.step l) : d'.locate p = d.locate p := by
  cases hempty : p.text == "" with
  | true => simp [locate, hempty]
  | false =>
      by_cases hsize : 4095 < p.text.utf8ByteSize
      · simp [locate, hempty, hsize]
      · have hstart : d'.start p = d.start p := by
          unfold start
          rw [hdirectory]
        rw [locate_eq_start hempty hsize, locate_eq_start hempty hsize, hstart]
        refine (trail_congr fun l hl => h l ?_).2
        rw [footprint, hempty, if_neg (by simp), if_neg hsize]
        exact hl

theorem lookup_eq_ok {n : Node} :
    d.lookup p = .ok n ↔ ∃ l, d.locate p = .ok l ∧ d.node? l = some n := by
  unfold lookup
  rw [bind_eq_ok]
  refine exists_congr fun l => and_congr_right fun _ => ?_
  cases d.node? l <;> simp [Pure.pure, Except.pure]

theorem isFile_iff : d.isFile p = true ↔ ∃ content, d.lookup p = .ok (.file content) := by
  unfold isFile
  split
  · next content hlookup => simp [hlookup]
  · next hother => simpa using hother

/-- Two disks on which a path leads to the same place, with the same there. -/
structure SameAt (p : Path) (d d' : Disk) : Prop where
  locate : d'.locate p = d.locate p
  node : ∀ l, d.locate p = .ok l → d'.node? l = d.node? l

theorem SameAt.lookup (h : SameAt p d d') : d'.lookup p = d.lookup p := by
  unfold Disk.lookup
  rw [h.locate]
  cases hl : d.locate p with
  | error f => rfl
  | ok l => simp only [bind, Except.bind, h.node l hl]

/-- A file that comes to the place changes no access to the path: the path does not lead there, and
not on from there where nothing was. -/
structure Spares (d : Disk) (l : Location) (p : Path) : Prop where
  other : d.locate p ≠ .ok l
  way : d.node? l = none → l ∉ d.footprint p

instance (l : Location) : Decidable (d.Spares l p) :=
  decidable_of_iff (((d.locate p).toOption != some l
      && !((d.node? l).isNone && (d.footprint p).contains l)) = true) (by
    rw [Bool.and_eq_true, bne_iff_ne, Ne, toOption_eq_some, Bool.not_eq_true', ← Bool.not_eq_true,
      Bool.and_eq_true, not_and, Option.isNone_iff_eq_none, List.contains_iff_mem]
    exact ⟨fun h => ⟨h.1, h.2⟩, fun h => ⟨h.other, h.way⟩⟩)

theorem SameAt.of_spares (hdirectory : d'.workingDirectory = d.workingDirectory)
    (h : ∀ l, d'.node? l = d.node? l ∨ d.Spares l p ∧ d.node? l ≠ some .directory ∧
      ∃ content, d'.node? l = some (.file content)) : SameAt p d d' where
  locate := by
    refine locate_congr hdirectory fun l hl => funext fun piece => ?_
    rcases h l with heq | ⟨hspares, hnode, content, hfile⟩
    · exact step_congr heq piece
    · unfold step
      rw [hfile]
      cases hkind : d.node? l with
      | none => exact absurd hl (hspares.way hkind)
      | some n =>
          cases n with
          | file content => rfl
          | directory => exact absurd hkind hnode
  node := by
    intro l hl
    rcases h l with heq | ⟨hspares, -⟩
    · exact heq
    · exact absurd hl hspares.other

def withFile (d : Disk) (l : Location) (content : ByteArray) : Disk :=
  { d with entries := setEntry d.entries l (.file content) }

theorem lookup_setEntry (entries : List (Location × Node)) (l : Location) (n : Node)
    (k : Location) :
    (setEntry entries l n).lookup k = if k = l then some n else entries.lookup k := by
  induction entries with
  | nil =>
      by_cases h : k = l
      · simp [setEntry, h]
      · simp [setEntry, h]
  | cons e rest ih =>
      obtain ⟨key, m⟩ := e
      by_cases hkey : key = l
      · subst hkey
        by_cases h : k = key
        · simp [setEntry, h]
        · simp [setEntry, List.lookup_cons, h, beq_eq_false_iff_ne.2 h]
      · by_cases h : k = key
        · subst h
          simp [setEntry, hkey]
        · simp [setEntry, List.lookup_cons, hkey, beq_eq_false_iff_ne.2 h, ih]

theorem node?_withFile (h : d.node? l ≠ some .directory) (k : Location) :
    (d.withFile l content).node? k = if k = l then some (.file content) else d.node? k := by
  unfold withFile node? at *
  split
  · next hworking =>
      have hne : k ≠ l := by
        rintro rfl
        simp [hworking] at h
      rw [if_neg hne]
  · exact lookup_setEntry _ _ _ _

theorem replace_eq (d : Disk) (p : Path) (content : ByteArray) :
    d.replace p content = d.locate p >>= fun l =>
      match d.node? l with
      | some .directory => .error .isDirectory
      | _ => .ok (d.withFile l content) := rfl

theorem replace_ok (h : d.replace p content = .ok d') :
    ∃ l, d.locate p = .ok l ∧ d.node? l ≠ some .directory ∧ d' = d.withFile l content := by
  rw [replace_eq, bind_eq_ok] at h
  obtain ⟨l, hl, h⟩ := h
  split at h
  · cases h
  · next hnode => exact ⟨l, hl, hnode, (Except.ok.inj h).symm⟩

theorem SameAt.replace (h : SameAt p d d') (content : ByteArray) :
    (∃ f, d.replace p content = .error f ∧ d'.replace p content = .error f) ∨
      ∃ l, d.locate p = .ok l ∧ d.node? l ≠ some .directory ∧
        d.replace p content = .ok (d.withFile l content) ∧
        d'.replace p content = .ok (d'.withFile l content) := by
  rw [replace_eq, replace_eq, h.locate]
  cases hl : d.locate p with
  | error f => exact .inl ⟨f, rfl, rfl⟩
  | ok l =>
      simp only [bind, Except.bind, h.node l hl]
      split
      · exact .inl ⟨_, rfl, rfl⟩
      · next hnode => exact .inr ⟨l, rfl, hnode, rfl, rfl⟩

end Disk

end ElementBridge
