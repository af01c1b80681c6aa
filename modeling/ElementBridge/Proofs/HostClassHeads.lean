import ElementBridge.Batch

/-!
What the scan of a directory takes for a component: a text in which the head of a class stands
that extends one of the bases, written with nothing but blanks between its words.
-/

namespace ElementBridge

namespace HostClass

open Text

def whiteSpaces : List Char :=
  [9, 10, 11, 12, 13, 32, 133, 160, 5760, 8192, 8193, 8194, 8195, 8196, 8197, 8198, 8199, 8200, 8201,
    8202, 8232, 8233, 8239, 8287, 12288].map Char.ofNat

theorem mem_whiteSpaces {c : Char} (h : isWhiteSpace c = true) : c ∈ whiteSpaces := by
  have hcode : c.toNat ∈ [9, 10, 11, 12, 13, 32, 133, 160, 5760, 8192, 8193, 8194, 8195, 8196, 8197,
      8198, 8199, 8200, 8201, 8202, 8232, 8233, 8239, 8287, 12288] := by
    simp only [isWhiteSpace, Bool.or_eq_true, Bool.and_eq_true, decide_eq_true_eq, beq_iff_eq] at h
    simp only [List.mem_cons, List.not_mem_nil, or_false]
    omega
  rw [← Char.ofNat_toNat c]
  exact List.mem_map_of_mem hcode

def continuesName (c : Char) : Bool := isWordLetter c || c == '$'

theorem not_blank_of {kind : Char → Bool} (hall : whiteSpaces.all (!kind ·) = true) {c : Char}
    (h : kind c = true) : isWhiteSpace c = false := by
  rw [← Bool.not_eq_true]
  exact fun hblank => absurd (List.all_eq_true.1 hall c (mem_whiteSpaces hblank)) (by simp [h])

theorem not_blank_of_continuesName {c : Char} : continuesName c = true → isWhiteSpace c = false :=
  not_blank_of (by decide +kernel)

theorem not_blank_of_isNameStart {c : Char} : isNameStart c = true → isWhiteSpace c = false :=
  not_blank_of (by decide)

def IsGap (gap : List Char) : Prop := gap ≠ [] ∧ ∀ c ∈ gap, isWhiteSpace c = true

def IsPlainName (name : List Char) : Prop :=
  ∃ c rest, name = c :: rest ∧ isNameStart c = true ∧ ∀ d ∈ rest, continuesName d = true

def IsEdge (before after : List Char) : Prop :=
  isWordAt before.getLast? ≠ isWordAt after.head?

/-- The head of a class that extends one of the bases, in front of the rest of a text. -/
inductive Head (bases : List String) : List Char → Prop where
  | mk {gap name gap' gap'' rest : List Char} {base : String} : IsGap gap → IsPlainName name →
      IsGap gap' → IsGap gap'' → base ∈ bases → IsEdge (gap'' ++ base.toList) rest →
      Head bases ("class".toList ++ (gap ++ (name ++ (gap' ++ ("extends".toList
        ++ (gap'' ++ (base.toList ++ rest)))))))

def HasHead (bases : List String) (text : List Char) : Prop :=
  ∃ before rest, text = before ++ rest ∧ Head bases rest

variable {bases : List String} {text rest : List Char}

theorem strip?_append (word text : List Char) : strip? word (word ++ text) = some text := by
  induction word with
  | nil => rfl
  | cons a word ih => simpa [strip?] using ih

theorem strip?_eq_some {word : List Char} : strip? word text = some rest ↔ text = word ++ rest :=
  ⟨eq_of_strip?, fun h => h ▸ strip?_append word rest⟩

theorem dropWhile_eq_iff {p : Char → Bool} : text.dropWhile p = rest ↔
    ∃ run, (∀ c ∈ run, p c = true) ∧ text = run ++ rest ∧ ∀ c ∈ rest.head?, p c = false := by
  constructor
  · rintro rfl
    refine ⟨text.takeWhile p, fun c hc => List.all_eq_true.1 List.all_takeWhile c hc,
      List.takeWhile_append_dropWhile.symm, fun c hc => ?_⟩
    have hnot := List.head?_dropWhile_not p text
    rw [show (text.dropWhile p).head? = some c from hc] at hnot
    exact hnot
  · rintro ⟨run, hrun, rfl, hrest⟩
    rw [List.dropWhile_append_of_pos hrun]
    cases rest with
    | nil => rfl
    | cons c rest => exact List.dropWhile_cons_of_neg (by simp [hrest c rfl])

theorem skipBlanks?_eq_some : skipBlanks? text = some rest ↔
    ∃ gap, IsGap gap ∧ text = gap ++ rest ∧ ∀ c ∈ rest.head?, isWhiteSpace c = false := by
  cases text with
  | nil =>
      refine ⟨fun h => absurd h (by simp [skipBlanks?]), fun ⟨gap, hgap, heq, _⟩ => ?_⟩
      exact absurd (List.append_eq_nil_iff.1 heq.symm).1 hgap.1
  | cons c text =>
      have hskip : skipBlanks? (c :: text)
          = if isWhiteSpace c then some (text.dropWhile isWhiteSpace) else none := rfl
      rw [hskip]
      constructor
      · intro h
        split at h
        · next hc =>
            obtain ⟨run, hrun, rfl, hrest⟩ := dropWhile_eq_iff.1 (Option.some.inj h)
            exact ⟨c :: run, ⟨List.cons_ne_nil _ _, List.forall_mem_cons.2 ⟨hc, hrun⟩⟩, rfl, hrest⟩
        · exact absurd h (by simp)
      · rintro ⟨gap, ⟨hne, hgap⟩, heq, hrest⟩
        obtain ⟨d, run, rfl⟩ := List.exists_cons_of_ne_nil hne
        rw [List.cons_append, List.cons.injEq] at heq
        obtain ⟨rfl, rfl⟩ := heq
        obtain ⟨hc, hrun⟩ := List.forall_mem_cons.1 hgap
        rw [if_pos hc, dropWhile_eq_iff.2 ⟨run, hrun, rfl, hrest⟩]

theorem skipName?_eq_some : skipName? text = some rest ↔
    ∃ name, IsPlainName name ∧ text = name ++ rest ∧ ∀ c ∈ rest.head?, continuesName c = false := by
  cases text with
  | nil =>
      refine ⟨fun h => absurd h (by simp [skipName?]), fun ⟨name, ⟨c, more, hname, _⟩, heq, _⟩ => ?_⟩
      exact absurd heq (by simp [hname])
  | cons c text =>
      have hskip : skipName? (c :: text)
          = if isNameStart c then some (text.dropWhile continuesName) else none := rfl
      rw [hskip]
      constructor
      · intro h
        split at h
        · next hc =>
            obtain ⟨run, hrun, rfl, hrest⟩ := dropWhile_eq_iff.1 (Option.some.inj h)
            exact ⟨c :: run, ⟨c, run, rfl, hc, hrun⟩, rfl, hrest⟩
        · exact absurd h (by simp)
      · rintro ⟨name, ⟨d, run, rfl, hc, hrun⟩, heq, hrest⟩
        rw [List.cons_append, List.cons.injEq] at heq
        obtain ⟨rfl, rfl⟩ := heq
        rw [if_pos hc, dropWhile_eq_iff.2 ⟨run, hrun, rfl, hrest⟩]

theorem IsPlainName.not_blank {name : List Char} (h : IsPlainName name) :
    ∀ c ∈ (name ++ text).head?, isWhiteSpace c = false := by
  obtain ⟨c, rest, rfl, hc, -⟩ := h
  exact fun d hd => Option.some.inj hd ▸ not_blank_of_isNameStart hc

theorem IsGap.not_continuesName {gap : List Char} (h : IsGap gap) :
    ∀ c ∈ (gap ++ text).head?, continuesName c = false := by
  obtain ⟨c, rest, rfl⟩ := List.exists_cons_of_ne_nil h.1
  intro d hd
  obtain rfl := Option.some.inj hd
  rw [← Bool.not_eq_true]
  exact fun hname => absurd (h.2 c List.mem_cons_self) (by simp [not_blank_of_continuesName hname])

theorem startsWithBase_iff {before : Char} : startsWithBase bases before text = true ↔
    ∃ base ∈ bases, ∃ rest, text = base.toList ++ rest ∧
      isWordAt ((base.toList.getLast?).getD before) ≠ isWordAt rest.head? := by
  unfold startsWithBase
  rw [List.any_eq_true]
  refine exists_congr fun base => and_congr_right fun _ => ?_
  constructor
  · intro h
    split at h
    · next rest hstrip => exact ⟨rest, strip?_eq_some.1 hstrip, bne_iff_ne.1 h⟩
    · exact absurd h (by simp)
  · rintro ⟨rest, rfl, hedge⟩
    rw [strip?_append]
    exact bne_iff_ne.2 hedge

theorem baseFollows_iff : baseFollows bases text = true ↔
    ∃ gap base rest, IsGap gap ∧ base ∈ bases ∧ text = gap ++ (base.toList ++ rest) ∧
      IsEdge (gap ++ base.toList) rest := by
  induction text with
  | nil =>
      refine ⟨fun h => absurd h (by simp [baseFollows]), fun ⟨gap, _, _, hgap, _, heq, _⟩ => ?_⟩
      exact absurd (List.append_eq_nil_iff.1 heq.symm).1 hgap.1
  | cons c text ih =>
      rw [baseFollows, Bool.and_eq_true, Bool.or_eq_true, startsWithBase_iff, ih]
      constructor
      · rintro ⟨hc, ⟨base, hbase, rest, rfl, hedge⟩ | ⟨gap, base, rest, hgap, hbase, rfl, hedge⟩⟩
        · refine ⟨[c], base, rest, ⟨by simp, by simpa using hc⟩, hbase, rfl, ?_⟩
          rwa [IsEdge, List.singleton_append, List.getLast?_cons]
        · refine ⟨c :: gap, base, rest, ⟨by simp, List.forall_mem_cons.2 ⟨hc, hgap.2⟩⟩, hbase, rfl, ?_⟩
          have hne : gap ++ base.toList ≠ [] := by simp [hgap.1]
          rwa [IsEdge, List.cons_append, List.getLast?_cons_of_ne_nil hne]
      · rintro ⟨gap, base, rest, ⟨hne, hgap⟩, hbase, heq, hedge⟩
        obtain ⟨d, run, rfl⟩ := List.exists_cons_of_ne_nil hne
        obtain ⟨hd, hrun⟩ := List.forall_mem_cons.1 hgap
        rw [List.cons_append, List.cons.injEq] at heq
        obtain ⟨rfl, rfl⟩ := heq
        refine ⟨hd, ?_⟩
        cases run with
        | nil =>
            rw [IsEdge, List.singleton_append, List.getLast?_cons] at hedge
            exact .inl ⟨base, hbase, rest, rfl, hedge⟩
        | cons e run =>
            refine .inr ⟨e :: run, base, rest, ⟨by simp, hrun⟩, hbase, rfl, ?_⟩
            rwa [IsEdge, List.cons_append, List.getLast?_cons_of_ne_nil (by simp)] at hedge

theorem not_blank_extends : ∀ c ∈ ("extends".toList ++ text).head?, isWhiteSpace c = false := by
  intro c hc
  obtain rfl : 'e' = c := Option.some.inj hc
  decide

theorem startsAt_iff : startsAt bases text = true ↔ Head bases text := by
  unfold startsAt
  constructor
  · intro h
    split at h
    · exact absurd h (by simp)
    · next afterClass hclass =>
        split at h
        · next afterExtends hbind =>
            simp only [Option.bind_eq_some_iff] at hbind
            obtain ⟨third, ⟨second, ⟨first, hfirst, hsecond⟩, hthird⟩, hextends⟩ := hbind
            obtain ⟨gap, hgap, rfl, -⟩ := skipBlanks?_eq_some.1 hfirst
            obtain ⟨name, hname, rfl, -⟩ := skipName?_eq_some.1 hsecond
            obtain ⟨gap', hgap', rfl, -⟩ := skipBlanks?_eq_some.1 hthird
            obtain ⟨gap'', base, rest, hgap'', hbase, rfl, hedge⟩ := baseFollows_iff.1 h
            obtain rfl := strip?_eq_some.1 hextends
            obtain rfl := strip?_eq_some.1 hclass
            exact .mk hgap hname hgap' hgap'' hbase hedge
        · exact absurd h (by simp)
  · rintro ⟨hgap, hname, hgap', hgap'', hbase, hedge⟩
    rw [strip?_append]
    dsimp only
    rw [skipBlanks?_eq_some.2 ⟨_, hgap, rfl, hname.not_blank⟩, Option.bind_some,
      skipName?_eq_some.2 ⟨_, hname, rfl, hgap'.not_continuesName⟩, Option.bind_some,
      skipBlanks?_eq_some.2 ⟨_, hgap', rfl, not_blank_extends⟩, Option.bind_some, strip?_append]
    exact baseFollows_iff.2 ⟨_, _, _, hgap'', hbase, rfl, hedge⟩

theorem occurs_iff : occurs bases text = true ↔ HasHead bases text := by
  induction text with
  | nil =>
      refine ⟨fun h => absurd h (by simp [occurs]), fun ⟨before, rest, heq, hhead⟩ => ?_⟩
      obtain ⟨-, rfl⟩ := List.append_eq_nil_iff.1 heq.symm
      exact absurd (startsAt_iff.2 hhead) (by simp [startsAt, strip?])
  | cons c text ih =>
      rw [occurs, Bool.or_eq_true, startsAt_iff, ih]
      constructor
      · rintro (h | ⟨before, rest, rfl, hhead⟩)
        · exact ⟨[], _, rfl, h⟩
        · exact ⟨c :: before, rest, rfl, hhead⟩
      · rintro ⟨before, rest, heq, hhead⟩
        cases before with
        | nil => exact .inl (heq ▸ hhead)
        | cons d before => exact .inr ⟨before, rest, (List.cons.inj heq).2, hhead⟩

end HostClass

theorem declaresComponent_iff {config : Config} {disk : Disk} {q : Path} :
    declaresComponent config disk q = true ↔
      ∀ text, disk.readText q = .ok text →
        HostClass.HasHead config.hostElementBases text.toList := by
  unfold declaresComponent
  cases hread : disk.readText q with
  | error fault => simp
  | ok text => simp [HostClass.occurs_iff]

/-- What a scan gives: files that are named, and of those below a directory the ones that cannot be
read or that have the head of a component class. -/
theorem mem_collectSources {config : Config} {disk : Disk} {paths : List Path} {q : Path} :
    q ∈ collectSources config disk paths ↔ ∃ p ∈ paths,
      disk.isDirectory p = false ∧ q = p ∨
      disk.isDirectory p = true ∧ q ∈ disk.walk p ∧ isCandidateName q = true ∧
        ∀ text, disk.readText q = .ok text →
          HostClass.HasHead config.hostElementBases text.toList := by
  unfold collectSources sourcesBelow
  rw [List.mem_flatMap]
  refine exists_congr fun p => and_congr_right fun _ => ?_
  cases disk.isDirectory p with
  | false => simp
  | true => simp [declaresComponent_iff]

def genericDisk : Disk := ⟨[], [(["d"], .directory),
  (["d", "a.ts"], .file "export class A<T> extends HTMLElement\x7b\x7d".toUTF8)]⟩

theorem not_mem_collectSources_generic : (⟨"d/a.ts"⟩ : Path) ∈ genericDisk.walk ⟨"d"⟩ ∧
    isCandidateName ⟨"d/a.ts"⟩ = true ∧
    ((SourceFile.read genericDisk ⟨"d/a.ts"⟩).toOption.any fun file =>
      (file.surface .standard genericDisk).toOption.isSome) = true ∧
    collectSources .standard genericDisk [⟨"d"⟩] = [] := by
  decide +kernel

end ElementBridge
