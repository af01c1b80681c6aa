import ElementBridge.Proofs.InheritedFields
import ElementBridge.Proofs.PrintedTypes
import ElementBridge.Proofs.WrittenSources

/-!
The fields of a record type and the signatures they come from: one for each signature but a setter
behind a field of its name, so overloads and a getter behind its setter repeat a name.
-/

namespace ElementBridge

open ElementBridge.Tree
open ElementBridge.Surface (fieldNames lastField?)

def Tree.Signature.isSetter {τ : Type} : Signature τ → Bool
  | .method .setter _ _ _ _ => true
  | _ => false

namespace TypeExpr

def Gives (sig : Signature TypeNode) (f : Field) : Prop := ofSignatures [] [sig] = .ok [f]

def fieldsBehind (names : List String) : List (Signature TypeNode × Field) → List Field
  | [] => []
  | (sig, f) :: rest =>
      if sig.isSetter = true ∧ f.name ∈ names then fieldsBehind names rest
      else f :: fieldsBehind (names ++ [f.name]) rest

/-- Of the signatures of one name, the fields of those that are kept: the first one, and all others
but the setters. -/
def keptOf : List (Signature TypeNode × Field) → List Field
  | [] => []
  | x :: rest => x.2 :: (rest.filter fun y => !y.1.isSetter).map Prod.snd

variable {sig : Signature TypeNode} {sigs rest : List (Signature TypeNode)} {f : Field}
  {fields found : List Field} {names : List String} {name : String}
  {declared : List (Signature TypeNode × Field)}

theorem hasField_iff : hasField fields name = true ↔ name ∈ fieldNames fields := by
  simp [hasField, fieldNames, beq_iff_eq]

theorem ofSignatures_cons : ofSignatures fields (sig :: rest) = .ok found ↔ ∃ f, Gives sig f ∧
    ofSignatures (if sig.isSetter = true ∧ f.name ∈ fieldNames fields then fields
      else fields ++ [f]) rest = .ok found := by
  cases sig with
  | property key optional type =>
      simp only [Gives, ofSignatures, Signature.isSetter, bind_eq_ok, Bool.false_eq_true, false_and,
        if_false, List.nil_append, Except.ok.injEq, List.cons.injEq, and_true]
      constructor
      · rintro ⟨name, hname, t, ht, hrest⟩
        exact ⟨_, ⟨name, hname, t, ht, rfl⟩, hrest⟩
      · rintro ⟨_, ⟨name, hname, t, ht, rfl⟩, hrest⟩
        exact ⟨name, hname, t, ht, hrest⟩
  | method kind key optional params result =>
      simp only [Gives, ofSignatures, bind_eq_ok, Except.ok.injEq]
      constructor
      · rintro ⟨name, hname, ps, hps, t, ht, hrest⟩
        cases kind with
        | method | getter => exact ⟨_, ⟨name, hname, ps, hps, t, ht, rfl⟩, hrest⟩
        | setter =>
            refine ⟨_, ⟨name, hname, ps, hps, t, ht, rfl⟩, ?_⟩
            simpa [addMethod, hasField_iff, Signature.isSetter] using hrest
      · rintro ⟨f, ⟨name, hname, ps, hps, t, ht, hf⟩, hrest⟩
        refine ⟨name, hname, ps, hps, t, ht, ?_⟩
        cases kind with
        | method | getter =>
            obtain rfl := List.head_eq_of_cons_eq hf
            simpa [addMethod, Signature.isSetter] using hrest
        | setter =>
            obtain rfl := List.head_eq_of_cons_eq hf
            simpa [addMethod, hasField_iff, Signature.isSetter] using hrest
  | other source => simp [Gives, ofSignatures]

theorem fieldNames_snoc (fields : List Field) (f : Field) :
    fieldNames (fields ++ [f]) = fieldNames fields ++ [f.name] := by
  simp [fieldNames]

theorem ofSignatures_eq_ok : ofSignatures fields sigs = .ok found ↔
    ∃ declared : List (Signature TypeNode × Field), declared.map Prod.fst = sigs ∧
      (∀ x ∈ declared, Gives x.1 x.2) ∧
      found = fields ++ fieldsBehind (fieldNames fields) declared := by
  induction sigs generalizing fields with
  | nil =>
      rw [ofSignatures, Except.ok.injEq]
      constructor
      · rintro rfl
        exact ⟨[], rfl, fun x hx => absurd hx List.not_mem_nil, (List.append_nil _).symm⟩
      · rintro ⟨declared, hmap, -, rfl⟩
        obtain rfl := List.map_eq_nil_iff.1 hmap
        exact (List.append_nil _).symm
  | cons sig rest ih =>
      rw [ofSignatures_cons]
      constructor
      · rintro ⟨f, hf, hrest⟩
        obtain ⟨declared, rfl, hgives, rfl⟩ := ih.1 hrest
        refine ⟨(sig, f) :: declared, rfl, List.forall_mem_cons.2 ⟨hf, hgives⟩, ?_⟩
        rw [fieldsBehind]
        split
        · rfl
        · rw [fieldNames_snoc, List.append_assoc, List.singleton_append]
      · rintro ⟨_ | ⟨⟨sig, f⟩, declared⟩, hmap, hgives, rfl⟩
        · cases hmap
        · obtain ⟨rfl, rfl⟩ := List.cons.inj hmap
          obtain ⟨hf, hgives⟩ := List.forall_mem_cons.1 hgives
          refine ⟨f, hf, ih.2 ⟨declared, rfl, hgives, ?_⟩⟩
          rw [fieldsBehind]
          split
          · rfl
          · rw [fieldNames_snoc, List.append_assoc, List.singleton_append]

/-! ### Fields of one name -/

theorem filter_fieldsBehind (declared : List (Signature TypeNode × Field)) (names : List String) :
    (fieldsBehind names declared).filter (·.name == name)
      = if name ∈ names
        then ((declared.filter (·.2.name == name)).filter fun y => !y.1.isSetter).map Prod.snd
        else keptOf (declared.filter (·.2.name == name)) := by
  induction declared generalizing names with
  | nil => simp [fieldsBehind, keptOf]
  | cons x rest ih =>
      obtain ⟨sig, f⟩ := x
      rw [fieldsBehind]
      by_cases hname : f.name = name
      · subst hname
        by_cases hmem : f.name ∈ names <;> cases hset : sig.isSetter <;>
          simp [hmem, hset, ih, keptOf]
      · have hne : name ≠ f.name := Ne.symm hname
        split <;> simp [hname, hne, ih]

theorem sublist_fieldsBehind (names : List String) (declared : List (Signature TypeNode × Field)) :
    (fieldsBehind names declared).Sublist (declared.map Prod.snd) := by
  induction declared generalizing names with
  | nil => exact .refl _
  | cons x rest ih =>
      obtain ⟨sig, f⟩ := x
      rw [fieldsBehind]
      split
      · exact (ih _).cons _
      · exact (ih _).cons_cons _

theorem nodup_fieldsBehind (declared : List (Signature TypeNode × Field)) (names : List String) :
    (∀ name ∈ fieldNames (fieldsBehind names declared), name ∉ names)
        ∧ (fieldNames (fieldsBehind names declared)).Nodup
      ↔ (∀ x ∈ declared, x.2.name ∈ names → x.1.isSetter = true)
        ∧ declared.Pairwise fun x y => x.2.name = y.2.name → y.1.isSetter = true := by
  induction declared generalizing names with
  | nil => simp [fieldsBehind, fieldNames]
  | cons x rest ih =>
      obtain ⟨sig, f⟩ := x
      rw [fieldsBehind, List.forall_mem_cons, List.pairwise_cons]
      split
      · next hleft =>
          rw [ih]
          constructor
          · rintro ⟨hnames, hpair⟩
            exact ⟨⟨fun _ => hleft.1, hnames⟩,
              fun y hy hname => hnames y hy (hname ▸ hleft.2), hpair⟩
          · rintro ⟨⟨-, hnames⟩, -, hpair⟩
            exact ⟨hnames, hpair⟩
      · next hkept =>
          have hih := ih (names ++ [f.name])
          simp only [List.mem_append, List.mem_singleton, not_or] at hih
          rw [show fieldNames (f :: fieldsBehind (names ++ [f.name]) rest)
            = f.name :: fieldNames (fieldsBehind (names ++ [f.name]) rest) from rfl,
            List.forall_mem_cons, List.nodup_cons]
          constructor
          · rintro ⟨⟨hf, hnames⟩, hnew, hnodup⟩
            obtain ⟨hbehind, hpair⟩ := hih.1
              ⟨fun name hname => ⟨hnames name hname, fun heq => hnew (heq ▸ hname)⟩, hnodup⟩
            exact ⟨⟨fun h => absurd h hf, fun x hx h => hbehind x hx (.inl h)⟩,
              fun y hy h => hbehind y hy (.inr h.symm), hpair⟩
          · rintro ⟨⟨hf, hnames⟩, hsame, hpair⟩
            have hnot : f.name ∉ names := fun h => hkept ⟨hf h, h⟩
            obtain ⟨hbehind, hnodup⟩ := hih.2
              ⟨fun x hx h => h.elim (hnames x hx) fun h => hsame x hx h.symm, hpair⟩
            exact ⟨⟨hnot, fun name hname => (hbehind name hname).1⟩,
              fun hname => (hbehind _ hname).2 rfl, hnodup⟩

theorem nodup_iff_pairwise (declared : List (Signature TypeNode × Field)) :
    (fieldNames (fieldsBehind [] declared)).Nodup
      ↔ declared.Pairwise fun x y => x.2.name = y.2.name → y.1.isSetter = true := by
  simpa using nodup_fieldsBehind declared []

/-! ### Record types inside others -/

/-- Every record type inside a type has the fields of a body in `B`. -/
def Embodied (B : List (Signature TypeNode) → Prop) (t : TypeExpr) : Prop :=
  ∀ fields, IsPart (.record fields) t → ∃ body, B body ∧ ofSignatures [] body = .ok fields

variable {B : List (Signature TypeNode) → Prop}

theorem Embodied.alternatives {t : TypeExpr} (h : Embodied B t) :
    ∀ u ∈ t.alternatives, Embodied B u := by
  intro u hu fields hpart
  cases t with
  | union ts => exact h fields (.member hu hpart)
  | _ =>
      rw [List.mem_singleton.1 hu] at hpart
      exact h fields hpart

theorem embodied_kept :
    KeptWithin (fun node => ∀ body, node = .object body → B body) (Embodied B) where
  primitive p := fun fields hpart => nomatch hpart
  named {n args} hargs := by
    unfold named
    split
    · next element _ =>
        intro fields hpart
        cases hpart with
        | element hpart => exact hargs element List.mem_cons_self fields hpart
    · intro fields hpart
      cases hpart with
      | argument ht hpart => exact hargs _ ht fields hpart
  array ht := by
    intro fields hpart
    cases hpart with
    | element hpart => exact ht fields hpart
  union _ _ hts := by
    intro fields hpart
    cases hpart with
    | member hu hpart =>
        obtain ⟨t, ht, hu⟩ := List.mem_flatMap.1 hu
        exact (hts t ht).alternatives _ hu fields hpart
  function hparams hresult := by
    intro fields hpart
    cases hpart with
    | parameter ht hpart => exact hparams _ ht fields hpart
    | result hpart => exact hresult fields hpart
  record hbody hread hfields := by
    intro fields hpart
    cases hpart with
    | self => exact ⟨_, hbody _ rfl, hread⟩
    | field hf hpart => exact (hfields _ hf).2 fields hpart

theorem exists_body_of_isPart (h : ofSignatures [] sigs = .ok fields) {nested : List Field}
    (hpart : IsPart (.record nested) (.record fields)) :
    ∃ body, (TypeNode.object sigs).HasBody body ∧ ofSignatures [] body = .ok nested := by
  have hobject : ofNode (.object sigs) = .ok (.record fields) := by
    rw [ofNode, h]
    rfl
  exact embodied_kept.ofNode (.object sigs) (fun _ hu body heq => (heq ▸ hu).hasBody) hobject
    nested hpart

end TypeExpr

/-! ### Typedefs -/

namespace Surface

variable {s : Surface} {d : Interface} {fields : List Field} {name : String}

theorem lastField?_eq_getLast? (fields : List Field) (name : String) :
    lastField? fields name = (fields.filter (·.name == name)).getLast? := by
  rw [lastField?, List.getLast?_eq_head?_reverse, ← List.filter_reverse, List.head?_filter]

theorem find?_flatten_own (hd : d ∈ s.interfaces) (hname : name ∈ fieldNames (ownFields d)) :
    (s.flatten d).find? (·.name == name) = lastField? (ownFields d) name := by
  obtain ⟨f, hf⟩ := Option.ne_none_iff_exists'.1 (mt lastField?_eq_none.1 (not_not_intro hname))
  rw [flatten_eq hd, find?_mergeFields, List.find?_nil, Option.or_none, givers, List.flatMap_append,
    lastField?_append, List.flatMap_cons, List.flatMap_nil, List.append_nil, hf, Option.some_or]

theorem nodup_flatten (hd : d ∈ s.interfaces) : (fieldNames (s.flatten d)).Nodup := by
  have hnil : (fieldNames []).Nodup := List.nodup_nil
  exact flatten_eq hd ▸ nodup_mergeFields hnil _

end Surface

namespace TypeExpr

open ClosureType

variable {sigs : List (Signature TypeNode)} {fields : List Field}
  {declared : List (Signature TypeNode × Field)}

structure GivenBy (declared : List (Signature TypeNode × Field)) (fields : List Field) : Prop where
  gives : ∀ x ∈ declared, Gives x.1 x.2
  order : fields.Sublist (declared.map Prod.snd)
  named : ∀ name, fields.filter (·.name == name) = keptOf (declared.filter (·.2.name == name))
  nodup_iff : (fieldNames fields).Nodup
    ↔ declared.Pairwise fun x y => x.2.name = y.2.name → y.1.isSetter = true
  printed : ∀ (s : Surface) (globals : List String), Surface.closureType s globals (.record fields)
    = braces (commas (fields.map fun f => f.name ++ ": " ++ s.fieldType globals f))
  typedef : ∀ (s : Surface) (d : Interface), d ∈ s.interfaces → Surface.ownFields d = fields →
    (fieldNames (s.flatten d)).Nodup ∧ ∀ name ∈ declared.map (·.2.name),
      (s.flatten d).find? (·.name == name)
        = (keptOf (declared.filter (·.2.name == name))).getLast?

theorem keptOf_ne_nil (h : declared ≠ []) : keptOf declared ≠ [] := by
  cases declared with
  | nil => exact absurd rfl h
  | cons x rest => exact List.cons_ne_nil _ _

theorem givenBy_fieldsBehind (h : ∀ x ∈ declared, Gives x.1 x.2) :
    GivenBy declared (fieldsBehind [] declared) := by
  have named (name : String) : (fieldsBehind [] declared).filter (·.name == name)
      = keptOf (declared.filter (·.2.name == name)) := by
    rw [filter_fieldsBehind, if_neg List.not_mem_nil]
  refine ⟨h, sublist_fieldsBehind [] declared, named, nodup_iff_pairwise declared, ?_, ?_⟩
  · intro s globals
    rw [Surface.closureType, Surface.fieldTypes_eq_map]
  · intro s d hd hown
    refine ⟨Surface.nodup_flatten hd, fun name hname => ?_⟩
    rw [← named, ← Surface.lastField?_eq_getLast?, ← hown]
    refine Surface.find?_flatten_own hd ?_
    obtain ⟨x, hx, rfl⟩ := List.mem_map.1 hname
    have hsome : declared.filter (·.2.name == x.2.name) ≠ [] :=
      List.ne_nil_of_mem (List.mem_filter.2 ⟨hx, by simp⟩)
    obtain ⟨f, hf⟩ := List.exists_mem_of_ne_nil _ (keptOf_ne_nil hsome)
    rw [← named, List.mem_filter] at hf
    exact hown ▸ List.mem_map.2 ⟨f, hf.1, by simpa using hf.2⟩

/-- However deep a body stands in a type, its fields are those of its signatures but the setters
behind a field of their name. So a name comes once only if nothing but setters stands behind the
first signature of it. -/
theorem givenBy_of_ofSignatures (h : ofSignatures [] sigs = .ok fields) :
    (∃ declared, declared.map Prod.fst = sigs ∧ GivenBy declared fields) ∧
      ∀ nested, IsPart (.record nested) (.record fields) →
        ∃ body, (TypeNode.object sigs).HasBody body ∧
          ∃ declared, declared.map Prod.fst = body ∧ GivenBy declared nested := by
  have read {body : List (Signature TypeNode)} {fields : List Field}
      (h : ofSignatures [] body = .ok fields) :
      ∃ declared, declared.map Prod.fst = body ∧ GivenBy declared fields := by
    obtain ⟨declared, hmap, hgives, rfl⟩ := ofSignatures_eq_ok.1 h
    exact ⟨declared, hmap, givenBy_fieldsBehind hgives⟩
  refine ⟨read h, fun nested hpart => ?_⟩
  obtain ⟨body, hbody, hread⟩ := exists_body_of_isPart h hpart
  exact ⟨body, hbody, read hread⟩

def repeatedMembers : SourceFile where
  path := ⟨"a.ts"⟩
  text := "interface I\x7bset x(v:string);get x():string;f(a:string):void;f(b:number):void\x7d"
    ++ "export class A extends HTMLElement\x7bm(i:I,"
    ++ "r:\x7bset x(v:string);get x():string;f(a:string):void;f(b:number):void\x7d)\x7b\x7d\x7d"

def firstBody? : Module → Option (List (Signature TypeNode))
  | .declare (.interface node) :: _ => some node.members
  | _ => none

def accessed : Field := ⟨"x", .primitive .string, false⟩

def called (p : Primitive) : Field := ⟨"f", .function [.primitive p] (.primitive .void), false⟩

def repeated : List Field := [accessed, accessed, called .string, called .number]

def outcome (s : Surface) : List Field × List String × List (List Field) :=
  (s.interfaces.flatMap Surface.ownFields,
    s.members.flatMap fun m => m.params.map fun p =>
      Surface.closureType s Config.standard.globalTypes p.type,
    s.interfaces.map s.flatten)

def repeatedOutcome : List Field × List String × List (List Field) :=
  (repeated, ["!I",
    "\x7bx: string, x: string, f: function(string): void, f: function(number): void\x7d"],
    [[accessed, called .number]])

theorem read_repeatedMembers : ∃ m sigs s, repeatedMembers.parse = .ok m ∧
    firstBody? m = some sigs ∧ ofSignatures [] sigs = .ok repeated ∧
    repeatedMembers.surface .standard ⟨[], []⟩ = .ok s ∧
    outcome s = repeatedOutcome := by
  have held : (repeatedMembers.parse.toOption.bind fun m => (firstBody? m).bind fun sigs =>
      (ofSignatures [] sigs).toOption.bind fun fields =>
        (Surface.ofModule .standard repeatedMembers
          (ModuleGraph.load ⟨[], []⟩ repeatedMembers m) m).toOption.map fun s =>
            (fields, outcome s))
      = some (repeated, repeatedOutcome) := by
    rw [repeatedMembers.parse_eq_elim (ofList_append (ofList_append rfl rfl) rfl)]
    decide +kernel
  simp only [Option.bind_eq_some_iff, Option.map_eq_some_iff, toOption_eq_some] at held
  obtain ⟨m, hm, sigs, hsigs, fields, hfields, s, hs, hparts⟩ := held
  obtain ⟨rfl, houtcome⟩ := Prod.mk.inj hparts
  refine ⟨m, sigs, s, hm, hsigs, hfields, ?_, houtcome⟩
  rw [SourceFile.surface, hm]
  exact hs

theorem givenBy_repeatedMembers : ∃ m sigs declared, repeatedMembers.parse = .ok m ∧
    firstBody? m = some sigs ∧ ofSignatures [] sigs = .ok repeated ∧
    declared.map Prod.fst = sigs ∧ GivenBy declared repeated := by
  obtain ⟨m, sigs, -, hm, hsigs, hfields, -, -⟩ := read_repeatedMembers
  obtain ⟨declared, hmap, hgiven⟩ := (givenBy_of_ofSignatures hfields).1
  exact ⟨m, sigs, declared, hm, hsigs, hfields, hmap, hgiven⟩

/-- A setter before its getter gives two fields of one name, and so do two signatures of a method:
a record type lists the name twice, and a typedef leaves out the signature that came first. -/
theorem not_nodup_repeatedMembers : ∃ m sigs s, repeatedMembers.parse = .ok m ∧
    firstBody? m = some sigs ∧ ofSignatures [] sigs = .ok repeated ∧
    ¬ (fieldNames repeated).Nodup ∧
    repeatedMembers.surface .standard ⟨[], []⟩ = .ok s ∧
    outcome s = repeatedOutcome := by
  obtain ⟨m, sigs, s, hm, hsigs, hfields, hs, houtcome⟩ := read_repeatedMembers
  exact ⟨m, sigs, s, hm, hsigs, hfields, by decide, hs, houtcome⟩

end TypeExpr

end ElementBridge
