import ElementBridge.Proofs.AccessorPairs

namespace ElementBridge

/-- A member stays as it is, takes in a partner behind it, or goes into one before it. -/
inductive Fate where
  | stays | joins | goes
deriving DecidableEq, Repr

def Fate.left? : Fate → Member → Option Member
  | .stays, m => some m
  | .joins, m => some m.asProperty
  | .goes, _ => none

abbrev Account := List (Member × Fate)

namespace Account

def members (a : Account) : List Member := a.map (·.1)

/-- What is left in the end, every member in its place. -/
def left (a : Account) : List Member := a.filterMap fun e => e.2.left? e.1

def join? (m : Member) : Account → Option Account
  | [] => none
  | (n, fate) :: rest =>
      if fate = .stays ∧ m.isPartner n = true then
        if n.valueType = m.valueType then some ((n, .joins) :: rest) else none
      else (join? m rest).map ((n, fate) :: ·)

def add (a : Account) (m : Member) : Account :=
  match join? m a with
  | some joined => joined ++ [(m, .goes)]
  | none => a ++ [(m, .stays)]

def ofMembers (members : List Member) : Account := members.foldl add []

variable {a b : Account} {m : Member} {ms : List Member} {name : String}

theorem left_append (a b : Account) : left (a ++ b) = left a ++ left b := List.filterMap_append

theorem not_isPartner_asProperty (m n : Member) : m.isPartner n.asProperty = false := by
  cases hm : m.kind <;> simp [Member.isPartner, Member.isOpposite, Member.asProperty, hm]

theorem left_join? (m : Member) (a : Account) :
    (join? m a).map left = Member.joinPartner? m (left a) := by
  induction a with
  | nil => rfl
  | cons e rest ih =>
      obtain ⟨n, fate⟩ := e
      have hbehind (f : Fate) : (Option.map ((n, f) :: ·) (join? m rest)).map left
          = ((join? m rest).map left).map ((f.left? n).toList ++ ·) := by
        cases join? m rest <;> cases f <;> rfl
      cases fate with
      | stays =>
          change _ = Member.joinPartner? m (n :: left rest)
          rw [join?, Member.joinPartner?, ← ih]
          by_cases hpartner : m.isPartner n = true
          · by_cases htype : n.valueType = m.valueType <;> simp [hpartner, htype, left, Fate.left?]
          · simpa [hpartner, Fate.left?] using hbehind .stays
      | joins =>
          change _ = Member.joinPartner? m (n.asProperty :: left rest)
          rw [join?, Member.joinPartner?, ← ih, if_neg (by simp)]
          simpa [not_isPartner_asProperty, Fate.left?] using hbehind .joins
      | goes =>
          change _ = Member.joinPartner? m (left rest)
          rw [join?, ← ih, if_neg (by simp)]
          rw [hbehind .goes]
          exact Option.map_id' 

theorem left_add (a : Account) (m : Member) : left (add a m) = Member.addAccessor (left a) m := by
  rw [add, Member.addAccessor, ← left_join?]
  cases join? m a with
  | none => exact left_append a _
  | some joined => exact (left_append joined _).trans (List.append_nil _)

theorem left_ofMembers (ms : List Member) : left (ofMembers ms) = Member.pairAccessors ms :=
  (List.foldl_hom left fun a m => (left_add a m).symm).symm

theorem exists_of_join? (h : join? m a = some b) : ∃ before n after,
    a = before ++ (n, .stays) :: after ∧ b = before ++ (n, .joins) :: after
      ∧ m.isPartner n = true ∧ n.valueType = m.valueType := by
  induction a generalizing b with
  | nil => cases h
  | cons e rest ih =>
      obtain ⟨n, fate⟩ := e
      rw [join?] at h
      split at h
      · next hfound =>
          obtain ⟨rfl, hpartner⟩ := hfound
          split at h
          · next htype =>
              obtain rfl := Option.some.inj h
              exact ⟨[], n, rest, rfl, rfl, hpartner, htype⟩
          · cases h
      · obtain ⟨joined, hjoined, rfl⟩ := Option.map_eq_some_iff.1 h
        obtain ⟨before, p, after, rfl, rfl, hpartner, htype⟩ := ih hjoined
        exact ⟨(n, fate) :: before, p, after, rfl, rfl, hpartner, htype⟩

theorem members_add (a : Account) (m : Member) : members (add a m) = members a ++ [m] := by
  unfold add
  cases hjoined : join? m a with
  | none => simp [members]
  | some joined =>
      obtain ⟨before, n, after, rfl, rfl, -, -⟩ := exists_of_join? hjoined
      simp [members]

theorem members_ofMembers (ms : List Member) : members (ofMembers ms) = ms := by
  have hfold (a : Account) : members (ms.foldl add a) = members a ++ ms := by
    induction ms generalizing a with
    | nil => exact (List.append_nil _).symm
    | cons m rest ih => rw [List.foldl_cons, ih, members_add, List.append_assoc]; rfl
  exact hfold []

def SparesOthers (a : Account) : Prop := ∀ e ∈ a, e.1.isAccessor = false → e.2 = .stays

theorem SparesOthers.add (h : SparesOthers a) (m : Member) : SparesOthers (a.add m) := by
  unfold Account.add
  cases hjoined : join? m a with
  | none => exact List.forall_mem_append.2 ⟨h, List.forall_mem_singleton.2 fun _ => rfl⟩
  | some joined =>
      obtain ⟨before, n, after, rfl, rfl, hpartner, -⟩ := exists_of_join? hjoined
      obtain ⟨hm, hn⟩ := Member.isAccessor_of_isPartner hpartner
      obtain ⟨hbefore, hrest⟩ := List.forall_mem_append.1 h
      refine List.forall_mem_append.2 ⟨?_, List.forall_mem_singleton.2 fun hnone => ?_⟩
      · refine List.forall_mem_append.2 ⟨hbefore, List.forall_mem_cons.2 ⟨fun hnone => ?_, ?_⟩⟩
        · cases hn.symm.trans hnone
        · exact (List.forall_mem_cons.1 hrest).2
      · cases hm.symm.trans hnone

theorem sparesOthers_ofMembers (ms : List Member) : SparesOthers (ofMembers ms) :=
  List.foldlRecOn ms add (motive := SparesOthers) (fun _ he => absurd he List.not_mem_nil)
    fun _ h m _ => h.add m

end Account

namespace Member

def isAccessorOf (name : String) (m : Member) : Bool := m.isAccessor && m.name == name

variable {m n : Member} {name : String}

theorem isAccessorOf_of_isPartner (h : m.isPartner n = true) :
    n.isAccessorOf name = m.isAccessorOf name := by
  obtain ⟨hm, hn⟩ := isAccessor_of_isPartner h
  have hname : n.name = m.name := by
    simp only [isPartner, Bool.and_eq_true, beq_iff_eq] at h
    exact h.1
  rw [isAccessorOf, isAccessorOf, hm, hn, hname]

end Member

namespace Account

variable {a b : Account} {m : Member} {ms : List Member} {name : String}

def about (name : String) (a : Account) : Account := a.filter fun e => e.1.isAccessorOf name

theorem about_append (name : String) (a b : Account) :
    about name (a ++ b) = about name a ++ about name b := List.filter_append ..

theorem about_join? (hm : m.isAccessorOf name = true) (a : Account) :
    (join? m a).map (about name) = join? m (about name a) := by
  induction a with
  | nil => rfl
  | cons e rest ih =>
      obtain ⟨n, fate⟩ := e
      cases hn : n.isAccessorOf name with
      | true =>
          have hcons (f : Fate) (more : Account) :
              about name ((n, f) :: more) = (n, f) :: about name more := List.filter_cons_of_pos hn
          rw [hcons, join?, join?, ← ih]
          split
          · split
            · exact congrArg some (hcons _ _)
            · rfl
          · cases join? m rest with
            | none => rfl
            | some joined => exact congrArg some (hcons _ _)
      | false =>
          have hcons (f : Fate) (more : Account) :
              about name ((n, f) :: more) = about name more :=
            List.filter_cons_of_neg (by simp [hn])
          have hnone : ¬ (fate = .stays ∧ m.isPartner n = true) := by
            rintro ⟨-, hpartner⟩
            have hsame : n.isAccessorOf name = m.isAccessorOf name :=
              Member.isAccessorOf_of_isPartner hpartner
            rw [hn, hm] at hsame
            cases hsame
          rw [hcons, join?, if_neg hnone, ← ih]
          cases join? m rest with
          | none => rfl
          | some joined => exact congrArg some (hcons _ _)

theorem about_of_join? (hm : m.isAccessorOf name = false) (h : join? m a = some b) :
    about name b = about name a := by
  obtain ⟨before, n, after, rfl, rfl, hpartner, -⟩ := exists_of_join? h
  have hn : n.isAccessorOf name = false := (Member.isAccessorOf_of_isPartner hpartner).trans hm
  simp [about, hn]

theorem about_add (a : Account) (m : Member) : about name (add a m)
    = if m.isAccessorOf name then add (about name a) m else about name a := by
  have hlast (fate : Fate) : about name [(m, fate)]
      = if m.isAccessorOf name then [(m, fate)] else [] := by
    cases hm : m.isAccessorOf name <;> simp [about, hm]
  cases hm : m.isAccessorOf name with
  | true =>
      rw [if_pos rfl, add, add, ← about_join? hm]
      cases join? m a <;> simp [about_append, hlast, hm]
  | false =>
      rw [add]
      cases hjoined : join? m a with
      | none => simp [about_append, hlast, hm]
      | some joined => simp [about_append, hlast, hm, about_of_join? hm hjoined]

/-- The accessors of a name are paired as if there were no other members. -/
theorem about_ofMembers (name : String) (ms : List Member) :
    about name (ofMembers ms) = ofMembers (ms.filter (·.isAccessorOf name)) := by
  rw [ofMembers, ofMembers, List.foldl_filter]
  exact (List.foldl_hom (about name) fun a m => (about_add a m).symm).symm

theorem ofMembers_pair {first second : Member} (h : second.isPartner first = true) :
    ofMembers [first, second] = if first.valueType = second.valueType
      then [(first, .joins), (second, .goes)] else [(first, .stays), (second, .stays)] := by
  change add [(first, .stays)] second = _
  rw [add, join?, if_pos ⟨rfl, h⟩]
  by_cases htype : first.valueType = second.valueType
  · rw [if_pos htype, if_pos htype]
    rfl
  · rw [if_neg htype, if_neg htype]
    rfl

end Account

namespace Member

theorem isPartner_of_kind_ne {name : String} {m n : Member} (hm : m.isAccessorOf name = true)
    (hn : n.isAccessorOf name = true) (h : m.kind ≠ n.kind) : n.isPartner m = true := by
  simp only [isAccessorOf, isAccessor, Bool.and_eq_true, beq_iff_eq] at hm hn
  simp only [isPartner, Bool.and_eq_true, beq_iff_eq]
  refine ⟨hm.2.trans hn.2.symm, ?_⟩
  cases hkm : m.kind <;> cases hkn : n.kind <;> simp_all [isOpposite]

structure Pairs (account : Account) (members paired : List Member) : Prop where
  uses : (paired.flatMap Member.uses).Perm (members.flatMap Member.uses)
  ofMembers : account.members = members
  left : account.left = paired
  others : ∀ e ∈ account, e.1.isAccessor = false → e.2 = .stays
  couple : ∀ (name : String) (first second : Member),
    members.filter (·.isAccessorOf name) = [first, second] → first.kind ≠ second.kind →
    account.about name = if first.valueType = second.valueType
      then [(first, .joins), (second, .goes)] else [(first, .stays), (second, .stays)]

/-- Members can be used for what they could be used for before, nothing changes its place, and a
getter and a setter that have a name to themselves become one property, where the first of them
stood, if and only if they have one type. -/
theorem exists_pairs {members : List Member} (hplain : PlainAccessors members) :
    ∃ account, Pairs account members (pairAccessors members) := by
  refine ⟨Account.ofMembers members, ?_⟩
  constructor
  case uses => exact pairAccessors_uses hplain
  case ofMembers => exact Account.members_ofMembers members
  case left => exact Account.left_ofMembers members
  case others => exact Account.sparesOthers_ofMembers members
  case couple =>
    intro name first second honly hkind
    have hmem : ∀ m ∈ [first, second], m.isAccessorOf name = true := by
      intro m hm
      rw [← honly] at hm
      exact (List.mem_filter.1 hm).2
    obtain ⟨hfirst, hsecond⟩ :
        first.isAccessorOf name = true ∧ second.isAccessorOf name = true := by
      simpa using hmem
    rw [Account.about_ofMembers, honly]
    exact Account.ofMembers_pair (isPartner_of_kind_ne hfirst hsecond hkind)

def mixedMembers : List Member :=
  [⟨"x", .setter, [⟨"v", .primitive .string, false⟩], none, .implied, false, false⟩,
    ⟨"x", .property, [], some (.primitive .number), .implied, false, true⟩,
    ⟨"y", .getter, [], some (.primitive .string), .implied, false, false⟩,
    ⟨"m", .method, [], some (.primitive .void), .implied, false, false⟩,
    ⟨"x", .getter, [], some (.primitive .string), .implied, false, false⟩,
    ⟨"y", .setter, [⟨"v", .primitive .number, false⟩], none, .implied, false, false⟩]

theorem exists_pairs_mixedMembers : PlainAccessors mixedMembers ∧
    ∃ account, Pairs account mixedMembers (pairAccessors mixedMembers) := by
  have hplain : PlainAccessors mixedMembers := by
    unfold PlainAccessors
    decide
  exact ⟨hplain, exists_pairs hplain⟩

example : (pairAccessors mixedMembers).map (fun m => (m.name, m.kind))
    = [("x", .property), ("x", .property), ("y", .getter), ("m", .method), ("y", .setter)] := by
  decide

end Member

end ElementBridge
