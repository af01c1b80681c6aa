import ElementBridge.Proofs.TracedMembers
import ElementBridge.Proofs.WrittenSources

/-!
The members of a class in the order of the elements that they come from. A field or a constructor
that follows a signature comes before it.
-/

namespace ElementBridge

open ElementBridge.Tree

namespace Tree

def declaredAt (elements : List ClassElement) (i : Nat) : Option Declared :=
  elements[i]?.bind ClassElement.declared?

def valuesAt (elements : List ClassElement) (i : Nat) : List (String × Capability) :=
  elements[i]?.elim [] ClassElement.values

def namesAt (elements : List ClassElement) (i : Nat) : List String :=
  (valuesAt elements i).map (·.1) ++ ((declaredAt elements i).map (·.name)).toList

/-- A signature with no method or accessor behind it up to a position, signatures of its name
aside. -/
def Waits (elements : List ClassElement) (i j : Nat) : Prop :=
  i < j ∧ ∃ d, declaredAt elements i = some d ∧ d.isSignature = true ∧
    ∀ k e, i < k → k < j → declaredAt elements k = some e → e.isSignature = true ∧ e.name = d.name

/-- The values of an element are members before the signature that waits for what follows it. -/
def Overtakes (elements : List ClassElement) (j i : Nat) : Prop :=
  Waits elements i j ∧ valuesAt elements j ≠ []

/-- The first position comes first, unless what stands at the second one overtakes it. -/
def InOrder (elements : List ClassElement) (x y : Nat) : Prop :=
  (y < x → Overtakes elements x y) ∧ ¬Overtakes elements y x

variable {elements : List ClassElement} {i j k n : Nat} {d : Declared}

theorem Waits.of_le (h : Waits elements i k) (hij : i < j) (hjk : j ≤ k) : Waits elements i j := by
  obtain ⟨-, d, hd, hsignature, hbetween⟩ := h
  refine ⟨hij, d, hd, hsignature, fun a e hia haj => ?_⟩
  exact hbetween a e hia (Nat.lt_of_lt_of_le haj hjk)

theorem Waits.succ (h : Waits elements i n) (hd : declaredAt elements i = some d)
    (hn : ∀ e, declaredAt elements n = some e → e.isSignature = true ∧ e.name = d.name) :
    Waits elements i (n + 1) := by
  obtain ⟨hlt, d', hd', hsignature, hbetween⟩ := h
  obtain rfl : d = d' := Option.some.inj (hd.symm.trans hd')
  refine ⟨Nat.lt_succ_of_lt hlt, d, hd, hsignature, fun k e hik hk => ?_⟩
  rcases Nat.lt_succ_iff_lt_or_eq.1 hk with hk | rfl
  · exact hbetween k e hik hk
  · exact hn e

theorem Waits.signature (h : Waits elements i j) (hik : i ≤ k) (hkj : k < j)
    (hi : declaredAt elements i = some d) {e : Declared} (hk : declaredAt elements k = some e) :
    e.isSignature = true ∧ e.name = d.name := by
  obtain ⟨-, d', hd', hsignature, hbetween⟩ := h
  obtain rfl : d = d' := Option.some.inj (hi.symm.trans hd')
  rcases Nat.lt_or_eq_of_le hik with hik | rfl
  · exact hbetween k e hik hkj hk
  · obtain rfl : d = e := Option.some.inj (hi.symm.trans hk)
    exact ⟨hsignature, rfl⟩

theorem waits_succ_self (hd : declaredAt elements n = some d) (h : d.isSignature = true) :
    Waits elements n (n + 1) := by
  refine ⟨Nat.lt_succ_self n, d, hd, h, fun k e hnk hk => ?_⟩
  exact absurd hnk (Nat.not_lt.2 (Nat.lt_succ_iff.1 hk))

theorem Waits.later (h : Waits elements i n) (hik : i ≤ k) (hkn : k < n) {e : Declared}
    (hk : declaredAt elements k = some e) : Waits elements k n := by
  have ⟨_, d, hd, _⟩ := h
  obtain ⟨hsignature, hname⟩ := h.signature hik hkn hd hk
  refine ⟨hkn, e, hk, hsignature, fun a e' hka han ha => ?_⟩
  obtain ⟨ha, hname'⟩ := h.signature (Nat.le_trans hik (Nat.le_of_lt hka)) han hd ha
  exact ⟨ha, hname'.trans hname.symm⟩

theorem valuesAt_of_declaredAt (h : declaredAt elements i = some d) : valuesAt elements i = [] := by
  obtain ⟨e, he, hd⟩ := Option.bind_eq_some_iff.1 h
  cases e with
  | method m =>
      have hkind : m.kind ≠ .construct := by
        intro hkind
        simp [ClassElement.declared?, hkind] at hd
      simp [valuesAt, he, ClassElement.values, hkind]
  | _ => cases hd

theorem Overtakes.lt (h : Overtakes elements j i) : i < j := h.1.1

end Tree

namespace Candidate

namespace Entry

/-- An entry comes from elements of its name, and from one alone if that has values. -/
structure Sound (elements : List ClassElement) (e : Entry) : Prop where
  first : ∀ i ∈ e.more, e.place ≤ i
  named : ∀ i ∈ e.places, e.member.name ∈ namesAt elements i
  single : ∀ i ∈ e.places, valuesAt elements i ≠ [] → e.more = [] ∧ e.member.isAccessor = false

end Entry

structure Arranged (elements : List ClassElement) (entries : List Entry) : Prop where
  sound : ∀ e ∈ entries, e.Sound elements
  ordered : (entries.map (·.place)).Pairwise (InOrder elements)

variable {elements : List ClassElement} {entries rest : List Entry} {n : Nat}

theorem Arranged.snoc (h : Arranged elements entries) {e : Entry} (he : e.Sound elements)
    (horder : ∀ x ∈ entries, InOrder elements x.place e.place) :
    Arranged elements (entries ++ [e]) where
  sound := List.forall_mem_append.2 ⟨h.sound, List.forall_mem_singleton.2 he⟩
  ordered := by
    rw [List.map_append, List.map_singleton, List.pairwise_append]
    refine ⟨h.ordered, List.pairwise_singleton _ _, ?_⟩
    rintro x hx y hy
    obtain ⟨e', he', rfl⟩ := List.mem_map.1 hx
    rw [List.mem_singleton.1 hy]
    exact horder e' he'

theorem Entry.Sound.join {e p : Entry} (he : e.Sound elements) (hp : p.Sound elements)
    (hpartner : e.member.isPartner p.member = true) (hplace : p.place ≤ e.place) :
    Entry.Sound elements ⟨p.member.asProperty, p.place, p.more ++ e.places⟩ := by
  have hname : p.member.name = e.member.name := beq_iff_eq.1 (Bool.and_eq_true_iff.1 hpartner).1
  obtain ⟨haccessor, hpaccessor⟩ := Member.isAccessor_of_isPartner hpartner
  have hplaces : ∀ i, i ∈ Entry.places ⟨p.member.asProperty, p.place, p.more ++ e.places⟩ →
      i ∈ p.places ∨ i ∈ e.places := fun i hi => List.mem_append.1 hi
  refine ⟨fun i hi => ?_, fun i hi => ?_, fun i hi hvalues => ?_⟩
  · rcases List.mem_append.1 hi with hi | hi
    · exact hp.first i hi
    · rcases List.mem_cons.1 hi with rfl | hi
      · exact hplace
      · exact Nat.le_trans hplace (he.first i hi)
  · rcases hplaces i hi with hi | hi
    · exact hp.named i hi
    · exact hname ▸ he.named i hi
  · rcases hplaces i hi with hi | hi
    · exact absurd (hp.single i hi hvalues).2 (by simp [hpaccessor])
    · exact absurd (he.single i hi hvalues).2 (by simp [haccessor])

theorem Arranged.addAccessor {e : Entry} (h : Arranged elements (entries ++ e :: rest)) :
    Arranged elements (Entry.addAccessor entries e ++ rest) := by
  rcases Entry.addAccessor_cases entries e with hadd | ⟨before, p, after, rfl, hpartner, hadd⟩
  · rw [hadd, List.append_assoc]
    exact h
  · have hp := h.sound p (by simp)
    have he := h.sound e (by simp)
    have hplace : p.place ≤ e.place := by
      have hordered := h.ordered
      simp only [List.map_append, List.map_cons, List.append_assoc, List.cons_append] at hordered
      have horder :=
        (List.pairwise_cons.1 (List.pairwise_append.1 hordered).2.1).1 e.place (by simp)
      refine Nat.le_of_not_lt fun hlt => ?_
      have hsingle := (hp.single p.place List.mem_cons_self (horder.1 hlt).2).2
      simp [(Member.isAccessor_of_isPartner hpartner).2] at hsingle
    rw [hadd]
    refine ⟨fun x hx => ?_, h.ordered.sublist ?_⟩
    · rw [List.append_assoc, List.mem_append, List.cons_append, List.mem_cons] at hx
      rcases hx with hx | rfl | hx
      · exact h.sound x (by simp [hx])
      · exact he.join hp hpartner hplace
      · refine h.sound x ?_
        rcases List.mem_append.1 hx with hx | hx <;> simp [hx]
    · simp only [List.map_append, List.map_cons, List.append_assoc, List.cons_append]
      exact ((((List.sublist_cons_self _ _).append_left _).cons_cons _).append_left _)

theorem Arranged.pairAccessors (h : Arranged elements entries) :
    Arranged elements (Entry.pairAccessors entries) := by
  have hfold (acc : List Entry) (hacc : Arranged elements (acc ++ entries)) :
      Arranged elements (entries.foldl Entry.addAccessor acc) := by
    clear h
    induction entries generalizing acc with
    | nil => simpa using hacc
    | cons e rest ih => exact ih _ hacc.addAccessor
  exact hfold [] h

theorem Entry.sound_of_declared {e : Entry} (hfirst : ∀ i ∈ e.more, e.place ≤ i)
    (h : ∀ i ∈ e.places, ∃ d, declaredAt elements i = some d ∧ d.name = e.member.name) :
    e.Sound elements := by
  refine ⟨hfirst, fun i hi => ?_, fun i hi hvalues => ?_⟩
  · obtain ⟨d, hd, hname⟩ := h i hi
    simp [namesAt, hd, hname]
  · obtain ⟨d, hd, -⟩ := h i hi
    exact absurd (valuesAt_of_declaredAt hd) hvalues

namespace Log

/-- The entries after the elements in front of a position, and the signatures that wait there. -/
structure Follows (elements : List ClassElement) (n : Nat) (l : Log) : Prop where
  arranged : Arranged elements l.entries
  settled : ∀ e ∈ l.entries, e.place < n ∧ ¬Waits elements e.place n
  waits : ∀ s ∈ l.signatures, Waits elements s.2 n ∧
    declaredAt elements s.2 = some ⟨s.1.name, .call, true⟩
  ascending : (l.signatures.map (·.2)).Pairwise (· ≤ ·)

variable {l : Log} {m : Member} {hasBody : Bool} {first : Member × Nat}
  {more : List (Member × Nat)}

theorem follows_empty : empty.Follows elements 0 where
  arranged := ⟨fun _ h => absurd h List.not_mem_nil, .nil⟩
  settled := fun _ h => absurd h List.not_mem_nil
  waits := fun _ h => absurd h List.not_mem_nil
  ascending := .nil

theorem Follows.name_eq (h : l.Follows elements n) (hs : l.signatures = first :: more)
    {s : Member × Nat} (hmem : s ∈ more) : first.2 ≤ s.2 ∧ s.1.name = first.1.name := by
  have hascending := h.ascending
  rw [hs, List.map_cons] at hascending
  have hle := (List.pairwise_cons.1 hascending).1 s.2 (List.mem_map_of_mem hmem)
  obtain ⟨hwaits, hfirst⟩ := h.waits first (by simp [hs])
  obtain ⟨hlater, hd⟩ := h.waits s (by simp [hs, hmem])
  exact ⟨hle, (hwaits.signature hle hlater.1 hfirst hd).2⟩

theorem Follows.inOrder (h : l.Follows elements n) (hs : first ∈ l.signatures) {x : Entry}
    (hx : x ∈ l.entries) : InOrder elements x.place first.2 := by
  obtain ⟨hwaits, hd⟩ := h.waits first hs
  obtain ⟨hlt, hsettled⟩ := h.settled x hx
  refine ⟨fun hbefore => ⟨hwaits.of_le hbefore (Nat.le_of_lt hlt), fun hnone => ?_⟩,
    fun hover => ?_⟩
  -- Without values there is a signature of the same method, and that would wait with the first.
  · have hname := (h.arranged.sound x hx).named x.place List.mem_cons_self
    rw [namesAt, hnone, List.map_nil, List.nil_append, Option.mem_toList] at hname
    obtain ⟨e, he, -⟩ := Option.map_eq_some_iff.1 hname
    exact hsettled (hwaits.later (Nat.le_of_lt hbefore) hlt he)
  · exact hover.2 (valuesAt_of_declaredAt hd)

theorem Follows.close (h : l.Follows elements n) {implementation : Option (Member × Nat)}
    (himplementation : ∀ s ∈ implementation, s.2 = n ∧ ∀ first ∈ l.signatures.head?,
      s.1.name = first.1.name ∧ ∃ d, declaredAt elements n = some d ∧ d.name = s.1.name) :
    Arranged elements (l.close implementation).entries := by
  cases hs : l.signatures with
  | nil =>
      rw [close_of_nil hs]
      exact h.arranged
  | cons first more =>
      have hfirst : first ∈ l.signatures := by simp [hs]
      obtain ⟨hwaits, hd⟩ := h.waits first hfirst
      rw [close_of_cons hs]
      refine h.arranged.snoc (Entry.sound_of_declared ?_ ?_) fun x hx => h.inOrder hfirst hx
      · intro i hi
        rcases List.mem_append.1 hi with hi | hi
        · obtain ⟨s, hmem, rfl⟩ := List.mem_map.1 hi
          exact (h.name_eq hs hmem).1
        · obtain ⟨s, hmem, rfl⟩ := List.mem_map.1 hi
          rw [(himplementation s (Option.mem_toList.1 hmem)).1]
          exact Nat.le_of_lt hwaits.1
      · have hname : (Member.foldOverloads first.1 (more.map (·.1))
            (implementation.map (·.1))).name = first.1.name := by
          cases implementation with
          | none => rfl
          | some s => exact ((himplementation s rfl).2 first (by simp [hs])).1
        intro i hi
        rw [hname]
        rcases List.mem_cons.1 hi with rfl | hi
        · exact ⟨_, hd, rfl⟩
        · rcases List.mem_append.1 hi with hi | hi
          · obtain ⟨s, hmem, rfl⟩ := List.mem_map.1 hi
            exact ⟨_, (h.waits s (by simp [hs, hmem])).2, (h.name_eq hs hmem).2⟩
          · obtain ⟨s, hmem, rfl⟩ := List.mem_map.1 hi
            obtain ⟨hplace, hnamed⟩ := himplementation s (Option.mem_toList.1 hmem)
            obtain ⟨hname, d, hd, hdname⟩ := hnamed first (by simp [hs])
            exact ⟨d, hplace ▸ hd, hdname.trans hname⟩

theorem mem_close {implementation : Option (Member × Nat)} (hs : l.signatures = first :: more)
    {x : Entry} (hx : x ∈ (l.close implementation).entries) :
    x ∈ l.entries ∨ x.place = first.2 := by
  rw [close_of_cons hs] at hx
  rcases List.mem_append.1 hx with hx | hx
  · exact .inl hx
  · exact .inr (by rw [List.mem_singleton.1 hx])

variable (hdeclared : declaredAt elements n
  = some ⟨m.name, Capability.ofKind m.kind, !hasBody && m.kind == .method⟩)

include hdeclared

theorem follows_addMethod_of_nil (harranged : Arranged elements l.entries)
    (hsettled : ∀ e ∈ l.entries, e.place < n ∧ ¬Waits elements e.place (n + 1))
    (hs : l.signatures = []) : (l.addMethod m n hasBody).Follows elements (n + 1) := by
  have hkept : ∀ e ∈ l.entries, e.place < n + 1 ∧ ¬Waits elements e.place (n + 1) :=
    fun e he => ⟨Nat.lt_succ_of_lt (hsettled e he).1, (hsettled e he).2⟩
  rw [addMethod_of_nil hs]
  cases hsignature : !hasBody && m.kind == .method with
  | true =>
      have hkind : m.kind = .method := beq_iff_eq.1 (Bool.and_eq_true_iff.1 hsignature).2
      rw [hsignature, hkind] at hdeclared
      exact ⟨harranged, hkept,
        List.forall_mem_singleton.2 ⟨waits_succ_self hdeclared rfl, hdeclared⟩,
        List.pairwise_singleton _ _⟩
  | false =>
      refine ⟨harranged.snoc (Entry.sound_of_declared ?_ ?_) ?_, ?_, ?_, ?_⟩
      · exact fun i hi => absurd hi List.not_mem_nil
      · intro i hi
        rw [List.mem_singleton.1 hi]
        exact ⟨_, hdeclared, rfl⟩
      · intro x hx
        refine ⟨fun hlt => ?_, fun hover => hover.2 (valuesAt_of_declaredAt hdeclared)⟩
        exact absurd (hsettled x hx).1 (Nat.not_lt.2 (Nat.le_of_lt hlt))
      · refine List.forall_mem_append.2 ⟨hkept, List.forall_mem_singleton.2
          ⟨Nat.lt_succ_self n, ?_⟩⟩
        rintro ⟨-, d, hd, htrue, -⟩
        rw [← Option.some.inj (hdeclared.symm.trans hd), hsignature] at htrue
        cases htrue
      · exact fun s hmem => absurd (hs ▸ hmem) List.not_mem_nil
      · simp [hs]

omit hdeclared in
theorem Follows.kept (h : l.Follows elements n) :
    ∀ e ∈ l.entries, e.place < n ∧ ¬Waits elements e.place (n + 1) := by
  intro e he
  obtain ⟨hlt, hsettled⟩ := h.settled e he
  exact ⟨hlt, fun hwaits => hsettled (hwaits.of_le hlt (Nat.le_succ n))⟩

theorem Follows.addSignature (h : l.Follows elements n) (hs : l.signatures = first :: more)
    (hname : first.1.name = m.name) (hsignature : (!hasBody && m.kind == .method) = true) :
    Follows elements (n + 1) { l with signatures := l.signatures ++ [(m, n)] } := by
  have hkind : m.kind = .method := beq_iff_eq.1 (Bool.and_eq_true_iff.1 hsignature).2
  rw [hsignature, hkind] at hdeclared
  have hsame : ∀ s ∈ l.signatures, m.name = s.1.name := by
    rw [hs]
    exact List.forall_mem_cons.2 ⟨hname.symm, fun s hmem =>
      hname.symm.trans (h.name_eq hs hmem).2.symm⟩
  refine ⟨h.arranged, fun e he => ⟨Nat.lt_succ_of_lt (h.kept e he).1, (h.kept e he).2⟩,
    List.forall_mem_append.2 ⟨fun s hmem => ?_, List.forall_mem_singleton.2
      ⟨waits_succ_self hdeclared rfl, hdeclared⟩⟩, ?_⟩
  · obtain ⟨hold, hd⟩ := h.waits s hmem
    refine ⟨hold.succ hd fun e he => ?_, hd⟩
    obtain rfl := Option.some.inj (hdeclared.symm.trans he)
    exact ⟨rfl, hsame s hmem⟩
  · rw [List.map_append, List.map_singleton, List.pairwise_append]
    refine ⟨h.ascending, List.pairwise_singleton _ _, ?_⟩
    rintro i hi j hj
    obtain ⟨s, hmem, rfl⟩ := List.mem_map.1 hi
    rw [List.mem_singleton.1 hj]
    exact Nat.le_of_lt (h.waits s hmem).1.1

theorem Follows.addImplementation (h : l.Follows elements n) (hs : l.signatures = first :: more)
    (hname : first.1.name = m.name) (hsignature : (!hasBody && m.kind == .method) = false) :
    (l.close (some (m, n))).Follows elements (n + 1) := by
  obtain ⟨hwaits, hfirst⟩ := h.waits first (by simp [hs])
  refine ⟨h.close ?_, fun e he => ?_, ?_, ?_⟩
  · rintro _ ⟨⟩
    refine ⟨rfl, fun f hf => ?_⟩
    rw [hs, List.head?_cons] at hf
    obtain rfl := Option.some.inj hf
    exact ⟨hname.symm, _, hdeclared, rfl⟩
  · rcases mem_close hs he with he | hplace
    · exact ⟨Nat.lt_succ_of_lt (h.kept e he).1, (h.kept e he).2⟩
    · rw [hplace]
      refine ⟨Nat.lt_succ_of_lt hwaits.1, fun hlater => ?_⟩
      have hopen := hlater.signature (Nat.le_of_lt hwaits.1) (Nat.lt_succ_self n) hfirst hdeclared
      rw [hsignature] at hopen
      exact absurd hopen.1 Bool.false_ne_true
  · rw [l.signatures_close]
    exact fun s hmem => absurd hmem List.not_mem_nil
  · rw [l.signatures_close]
    exact .nil

theorem Follows.addMethod (h : l.Follows elements n) :
    (l.addMethod m n hasBody).Follows elements (n + 1) := by
  cases hs : l.signatures with
  | nil => exact follows_addMethod_of_nil hdeclared h.arranged h.kept hs
  | cons first more =>
      by_cases hname : first.1.name = m.name
      · rw [addMethod_of_name_eq hs hname]
        split
        · next hsignature => exact h.addSignature hdeclared hs hname hsignature
        · next hsignature =>
            exact h.addImplementation hdeclared hs hname (Bool.eq_false_iff.2 hsignature)
      · obtain ⟨hwaits, hfirst⟩ := h.waits first (by simp [hs])
        rw [addMethod_of_name_ne hs hname]
        refine follows_addMethod_of_nil hdeclared (h.close (by simp)) ?_ (l.signatures_close none)
        intro e he
        rcases mem_close hs he with he | hplace
        · exact h.kept e he
        · rw [hplace]
          refine ⟨hwaits.1, fun hlater => ?_⟩
          exact hname (hlater.signature (Nat.le_of_lt hwaits.1) (Nat.lt_succ_self n) hfirst
            hdeclared).2.symm

omit hdeclared in
theorem Follows.addValues (h : l.Follows elements n) (hnone : declaredAt elements n = none)
    {members : List Member} (hkinds : ∀ m ∈ members, m.kind = .property)
    (hvalues : members.flatMap Member.offers = valuesAt elements n) :
    (l.addValues n members).Follows elements (n + 1) := by
  have hnew : ∀ e ∈ members.map fun m => (⟨m, n, []⟩ : Entry),
      e.place = n ∧ e.Sound elements := by
    refine List.forall_mem_map.2 fun m hm => ⟨rfl, fun i hi => absurd hi List.not_mem_nil, ?_, ?_⟩
    · intro i hi
      have hoffer : (m.name, Capability.get) ∈ valuesAt elements n := by
        rw [← hvalues, List.mem_flatMap]
        refine ⟨m, hm, ?_⟩
        rw [offers_of_property (hkinds m hm), valueOffers]
        split <;> simp
      rw [List.mem_singleton.1 hi, namesAt]
      exact List.mem_append_left _ (List.mem_map_of_mem hoffer)
    · exact fun i hi _ => ⟨rfl, by simp [Member.isAccessor, hkinds m hm]⟩
  have hself : InOrder elements n n :=
    ⟨fun hlt => absurd hlt (Nat.lt_irrefl n), fun hover => Nat.lt_irrefl n hover.1.1⟩
  refine ⟨⟨List.forall_mem_append.2 ⟨h.arranged.sound, fun e he => (hnew e he).2⟩, ?_⟩,
    List.forall_mem_append.2 ⟨fun e he => ⟨Nat.lt_succ_of_lt (h.kept e he).1, (h.kept e he).2⟩,
      fun e he => ?_⟩, fun s hmem => ?_, h.ascending⟩
  · rw [Log.addValues, List.map_append, List.pairwise_append]
    refine ⟨h.arranged.ordered, List.pairwise_of_forall_mem_list fun i hi j hj => ?_, ?_⟩
    · obtain ⟨x, hx, rfl⟩ := List.mem_map.1 hi
      obtain ⟨y, hy, rfl⟩ := List.mem_map.1 hj
      rw [(hnew x hx).1, (hnew y hy).1]
      exact hself
    · intro i hi j hj
      obtain ⟨x, hx, rfl⟩ := List.mem_map.1 hi
      obtain ⟨y, hy, rfl⟩ := List.mem_map.1 hj
      obtain ⟨hlt, hsettled⟩ := h.settled x hx
      rw [(hnew y hy).1]
      exact ⟨fun hback => absurd hlt (Nat.lt_asymm hback), fun hover => hsettled hover.1⟩
  · rw [(hnew e he).1]
    refine ⟨Nat.lt_succ_self n, ?_⟩
    rintro ⟨-, d, hd, -⟩
    rw [hnone] at hd
    cases hd
  · obtain ⟨hwaits, hd⟩ := h.waits s hmem
    refine ⟨hwaits.succ hd fun e he => ?_, hd⟩
    rw [hnone] at he
    cases he

omit hdeclared in
theorem Follows.skip (h : l.Follows elements n) (hnone : declaredAt elements n = none)
    (hvalues : valuesAt elements n = []) : l.Follows elements (n + 1) := by
  have hsame : l.addValues n [] = l := by simp [Log.addValues]
  have hnew : ∀ m ∈ ([] : List Member), m.kind = .property := fun m hm =>
    absurd hm List.not_mem_nil
  exact hsame ▸ h.addValues hnone hnew hvalues.symm

omit hdeclared in
theorem Follows.step (h : l.Follows elements n) {e : ClassElement} {part : Option Part}
    (he : elements[n]? = some e) (hpart : Part.Of e part) :
    (part.elim l (l.add n)).Follows elements (n + 1) := by
  have hdeclared : declaredAt elements n = part.bind Part.declared? := by
    rw [declaredAt, he, hpart.declared]
    rfl
  have hvalues : part.toList.flatMap (fun p => p.members.flatMap Member.offers)
      = valuesAt elements n := by
    rw [valuesAt, he, hpart.values]
    rfl
  cases part with
  | none => exact h.skip hdeclared hvalues.symm
  | some part =>
      have hwell := hpart.wellFormed part rfl
      rw [Option.toList_some, List.flatMap_singleton] at hvalues
      cases part with
      | construct params properties => exact h.addValues hdeclared hwell hvalues
      | field m =>
          exact h.addValues hdeclared (List.forall_mem_singleton.2 hwell) hvalues
      | method m hasBody => exact h.addMethod hdeclared

omit hdeclared in
theorem Follows.run (h : l.Follows elements n) {found : List (Option Part)}
    (hfound : (elements.drop n).map Part.ofElement? = found.map .ok) :
    (l.run n found).Follows elements (n + found.length) := by
  induction found generalizing l n with
  | nil => exact h
  | cons part found ih =>
      cases hrest : elements.drop n with
      | nil => simp [hrest] at hfound
      | cons e rest =>
          rw [hrest] at hfound
          obtain ⟨hpart, hfound⟩ := List.cons.inj hfound
          have he : elements[n]? = some e := by
            rw [← Nat.add_zero n, ← List.getElem?_drop, hrest]
            rfl
          have hdrop : elements.drop (n + 1) = rest := by
            rw [← List.drop_drop, hrest]
            rfl
          rw [Log.run, List.length_cons, Nat.add_comm found.length, ← Nat.add_assoc]
          exact ih (h.step he (ofElement?_of hpart)) (hdrop ▸ hfound)

end Log

/-- No element gets lost, and a method or accessor has a part in one entry only. -/
structure Accounts (elements : List ClassElement) (entries : List Entry) : Prop
    extends Arranged elements entries where
  once : ∀ i, (declaredAt elements i).isSome = true → (entries.flatMap Entry.places).count i = 1
  covers : ∀ i, valuesAt elements i ≠ [] → i ∈ entries.flatMap Entry.places

theorem part_at {found : List (Option Part)}
    (hfound : elements.map Part.ofElement? = found.map .ok) {i : Nat} {e : ClassElement}
    (he : elements[i]? = some e) : ∃ part, found[i]? = some part ∧ Part.Of e part := by
  have hi := congrArg (·[i]?) hfound
  simp only [List.getElem?_map, he, Option.map_some] at hi
  obtain ⟨part, hpart, hok⟩ := Option.map_eq_some_iff.1 hi.symm
  exact ⟨part, hpart, ofElement?_of hok.symm⟩

theorem weight_of_declared {part : Part} {d : Declared} (h : part.declared? = some d) :
    part.weight = 1 := by
  cases part with
  | method m hasBody => rfl
  | _ => cases h

theorem weight_pos_of_members {part : Part} (h : part.members ≠ []) : 0 < part.weight := by
  cases part with
  | construct params properties => exact List.length_pos_iff.2 h
  | _ => exact Nat.one_pos

theorem accounts_entriesOf {found : List (Option Part)}
    (h : elements.mapM Part.ofElement? = .ok found) : Accounts elements (entriesOf elements) := by
  have hfound := mapM_eq_ok.1 h
  have hrun : (Log.empty.run 0 found).Follows elements (0 + found.length) :=
    Log.follows_empty.run hfound
  have hcount (i : Nat) : ((entriesOf elements).flatMap Entry.places).count i
      = (found[i]?.join).elim 0 Part.weight := by
    have hheld := @Log.count_held_run .empty 0 found i
    rw [if_pos (Nat.zero_le i), Nat.sub_zero, ← Log.held_close_none, Log.held,
      Log.signatures_close, List.map_nil, List.append_nil] at hheld
    rw [entriesOf, h, (Entry.places_pairAccessors _).count_eq, hheld]
    exact Nat.zero_add _
  have harranged : Arranged elements (entriesOf elements) := by
    rw [entriesOf, h]
    exact (hrun.close (by simp)).pairAccessors
  refine ⟨harranged, fun i hi => ?_, fun i hi => ?_⟩
  · obtain ⟨d, hd⟩ := Option.isSome_iff_exists.1 hi
    obtain ⟨e, he, hd⟩ := Option.bind_eq_some_iff.1 hd
    obtain ⟨part, hpart, hof⟩ := part_at hfound he
    rw [← hof.declared] at hd
    obtain ⟨part, rfl, hd⟩ := Option.bind_eq_some_iff.1 hd
    rw [hcount, hpart, Option.join_some, Option.elim_some, weight_of_declared hd]
  · cases he : elements[i]? with
    | none => simp [valuesAt, he] at hi
    | some e =>
        obtain ⟨part, hpart, hof⟩ := part_at hfound he
        rw [valuesAt, he, Option.elim_some, ← hof.values] at hi
        cases part with
        | none => exact absurd rfl hi
        | some part =>
            have hmembers : part.members ≠ [] := by
              rintro hnil
              simp [hnil] at hi
            rw [← List.count_pos_iff, hcount, hpart, Option.join_some, Option.elim_some]
            exact weight_pos_of_members hmembers

theorem Accounts.sorted_iff (h : Accounts elements entries) :
    (entries.map (·.place)).Pairwise (· ≤ ·) ↔
      ∀ e ∈ entries, ∀ j, ¬Overtakes elements j e.place := by
  have hordered := List.pairwise_map.1 h.ordered
  rw [List.pairwise_map]
  constructor
  · intro hsorted e he j hover
    obtain ⟨x, hx, hj⟩ := List.mem_flatMap.1 (h.covers j hover.2)
    obtain rfl : j = x.place := by
      have hmore := ((h.sound x hx).single j hj hover.2).1
      rw [Entry.places, hmore] at hj
      exact List.mem_singleton.1 hj
    -- The overtaking entry stands in front, but then its position is not the later one.
    have hboth := hordered.and hsorted
    obtain ⟨before, after, rfl⟩ := List.append_of_mem hx
    rw [List.pairwise_append, List.pairwise_cons] at hboth
    rw [List.mem_append, List.mem_cons] at he
    rcases he with he | rfl | he
    · exact (hboth.2.2 e he x List.mem_cons_self).1.2 hover
    · exact Nat.lt_irrefl _ hover.lt
    · exact Nat.not_lt.2 (hboth.2.1.1 e he).2 hover.lt
  · intro hnone
    refine List.Pairwise.imp_of_mem (fun {x y} _ hy hxy => ?_) hordered
    exact Nat.le_of_not_lt fun hlt => hnone y hy x.place (hxy.1 hlt)

end Candidate

namespace Surface

variable {config : Config} {disk : Disk} {file : SourceFile} {m : Module} {s : Surface}

/-- The members of a surface, and the stubs, are in the order of their elements if and only if no
value overtakes a signature. -/
theorem sorted_members_iff (hm : file.parse = .ok m) (hs : file.surface config disk = .ok s) :
    ∃ kind node, m.hosts config = [(kind, node)] ∧
      (Candidate.entriesOf node.elements).map (·.member) = s.members ∧
      Bridge.stubsOf (Bridge.ofSurface config s).facade
        = (Candidate.entriesOf node.elements).flatMap (·.member.offers) ∧
      Candidate.Accounts node.elements (Candidate.entriesOf node.elements) ∧
      (((Candidate.entriesOf node.elements).map (·.place)).Pairwise (· ≤ ·) ↔
        ∀ e ∈ Candidate.entriesOf node.elements, ∀ j, ¬Overtakes node.elements j e.place) := by
  obtain ⟨o⟩ := origin_of_parse hm hs
  obtain ⟨kind, node, hhost, hlowered, hmembers⟩ := o.host
  obtain ⟨found, hfound, hentries⟩ := Candidate.entries_of_node hlowered
  have haccounts := Candidate.accounts_entriesOf hfound
  refine ⟨kind, node, hhost, hentries.trans hmembers.symm, ?_, haccounts, haccounts.sorted_iff⟩
  refine (Bridge.stubsOf_facadeClass s config.globalTypes).trans ?_
  rw [hmembers, ← hentries, List.flatMap_map]

def pairedSource : SourceFile where
  path := ⟨"a.ts"⟩
  text := "export class A extends HTMLElement\x7bm(a:string):void;m(a:number):void;m(a)\x7b\x7d"
    ++ "get g():string\x7breturn ''\x7dx=1;set g(v:string)\x7b\x7d"
    ++ "constructor(public p:string)\x7bsuper()\x7d\x7d"

theorem sorted_pairedSource : ∃ m s kind node, pairedSource.parse = .ok m ∧
    pairedSource.surface .standard ⟨[], []⟩ = .ok s ∧ m.hosts .standard = [(kind, node)] ∧
    s.members.map (·.name) = ["m", "g", "x", "p"] ∧
    (Candidate.entriesOf node.elements).map Candidate.Entry.places
      = [[0, 1, 2], [3, 5], [4], [6]] ∧
    ∀ e ∈ Candidate.entriesOf node.elements, ∀ j, ¬Overtakes node.elements j e.place := by
  have hsurface : (pairedSource.surface .standard ⟨[], []⟩).toOption.map
      (fun s => s.members.map (·.name)) = some ["m", "g", "x", "p"] := by
    rw [SourceFile.surface,
      pairedSource.parse_eq_elim (ofList_append (ofList_append rfl rfl) rfl)]
    decide +kernel
  have hplaces : pairedSource.parse.toOption.map (fun m => (m.hosts .standard).map fun c =>
      (Candidate.entriesOf c.2.elements).map Candidate.Entry.places)
      = some [[[0, 1, 2], [3, 5], [4], [6]]] := by
    rw [pairedSource.parse_eq_elim (ofList_append (ofList_append rfl rfl) rfl)]
    decide +kernel
  obtain ⟨s, hs, hnames⟩ := map_toOption_eq_some.1 hsurface
  obtain ⟨m, hm, hplaces⟩ := map_toOption_eq_some.1 hplaces
  obtain ⟨kind, node, hhost, -, -, -, hiff⟩ := sorted_members_iff hm hs
  simp only [hhost, List.map_singleton, List.cons.injEq, and_true] at hplaces
  refine ⟨m, s, kind, node, hm, hs, hhost, hnames, hplaces, hiff.1 ?_⟩
  have hfirst : (Candidate.entriesOf node.elements).map (·.place)
      = ((Candidate.entriesOf node.elements).map Candidate.Entry.places).map (·.headD 0) := by
    rw [List.map_map]
    rfl
  rw [hfirst, hplaces]
  decide

def waitingSource : SourceFile where
  path := ⟨"a.ts"⟩
  text := "export class A extends HTMLElement\x7bm?():void;x=1\x7d"

/-- The method stands first in the source and last among the members and the stubs. -/
theorem not_sorted_waitingSource : ∃ m s kind node, waitingSource.parse = .ok m ∧
    waitingSource.surface .standard ⟨[], []⟩ = .ok s ∧ m.hosts .standard = [(kind, node)] ∧
    node.elements.map Tree.ClassElement.declares = [[("m", .call)], [("x", .set), ("x", .get)]] ∧
    s.members.map (·.name) = ["x", "m"] ∧
    Bridge.stubsOf (Bridge.ofSurface .standard s).facade
      = [("x", .set), ("x", .get), ("m", .call)] := by
  have hsurface : (waitingSource.surface .standard ⟨[], []⟩).toOption.map
      (fun s => (s.members.map (·.name), s.members.flatMap Member.offers))
      = some (["x", "m"], [("x", .set), ("x", .get), ("m", .call)]) := by
    rw [SourceFile.surface, waitingSource.parse_eq_elim rfl]
    decide +kernel
  have hparts : waitingSource.parse.toOption.map (fun m => (m.hosts .standard).map fun c =>
      c.2.elements.map Tree.ClassElement.declares)
      = some [[[("m", .call)], [("x", .set), ("x", .get)]]] := by
    rw [waitingSource.parse_eq_elim rfl]
    decide +kernel
  obtain ⟨s, hs, hmembers⟩ := map_toOption_eq_some.1 hsurface
  obtain ⟨hnames, hoffers⟩ := Prod.mk.inj hmembers
  obtain ⟨m, hm, hparts⟩ := map_toOption_eq_some.1 hparts
  obtain ⟨o⟩ := origin_of_parse hm hs
  obtain ⟨kind, node, hhost, -, -⟩ := o.host
  simp only [hhost, List.map_singleton, List.cons.injEq, and_true] at hparts
  refine ⟨m, s, kind, node, hm, hs, hhost, hparts, hnames, ?_⟩
  exact (Bridge.stubsOf_facadeClass s _).trans hoffers

end Surface

end ElementBridge
