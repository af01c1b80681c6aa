import ElementBridge.Proofs.InheritedFields
import ElementBridge.Proofs.SurfaceFailures
import ElementBridge.Proofs.WrittenSources

/-!
What a typedef takes from the bases of its interface: every field of those that have fields, and
nothing from an alias of another type, though the alias is accepted as a base.
-/

namespace ElementBridge

open ElementBridge.Tree

def Shape.isRecord : Shape → Bool
  | .record _ => true
  | .alias _ => false

def Interface.IsPlain (d : Interface) : Prop := d.shape.isRecord = false → d.bases = []

theorem Interface.isPlain_ofNode {node : InterfaceNode} {d : Interface}
    (h : Interface.ofNode node = .ok d) : d.IsPlain := by
  unfold Interface.ofNode at h
  split at h
  · cases h
  · simp only [bind_eq_ok, pure_eq_ok] at h
    obtain ⟨bases, -, fields, -, rfl⟩ := h
    intro hshape
    cases hshape

theorem Interface.isPlain_ofAlias {node : AliasNode} {d : Interface}
    (h : Interface.ofAlias node = .ok d) : d.IsPlain := by
  unfold Interface.ofAlias at h
  split at h
  · cases h
  · simp only [bind_eq_ok, pure_eq_ok] at h
    obtain ⟨shape, -, rfl⟩ := h
    exact fun _ => rfl

theorem Collected.isPlain_of_mem {config : Config} {m : Module} {c : Collected}
    (h : Collected.ofModule config m = .ok c) : ∀ d ∈ c.interfaces, d.IsPlain := by
  have snoc {c : Collected} {d : Interface} (hc : ∀ e ∈ c.interfaces, e.IsPlain) (hd : d.IsPlain) :
      ∀ e ∈ c.interfaces ++ [d], e.IsPlain :=
    List.forall_mem_append.2 ⟨hc, List.forall_mem_singleton.2 hd⟩
  refine foldlM_keeps (P := fun c : Collected => ∀ d ∈ c.interfaces, d.IsPlain) ?_ ?_ h
  · intro st _ c c' hc hst
    cases addStatement_ok hst with
    | interface _ _ hd => exact snoc hc (Interface.isPlain_ofNode hd)
    | «alias» _ _ hd => exact snoc hc (Interface.isPlain_ofAlias hd)
    | importFrom _ | enum _ _ | obstacle _ => exact hc
    | classDef _ _ _ | registrations _ | nothing _ => exact hc
  · exact fun d hd => absurd hd List.not_mem_nil

namespace Surface

variable {s : Surface} {d b e k : Interface} {name : String}

/-- The declaration whose fields a local type has: its own, or that of the type which an alias
names, be it through other aliases. -/
inductive StandsFor (s : Surface) : Interface → Interface → Prop where
  | self {d : Interface} : d.shape.isRecord = true → StandsFor s d d
  | alias {d c k : Interface} {name : String} : d.shape = .alias (.reference name []) →
      s.interface? name = some c → StandsFor s c k → StandsFor s d k

theorem StandsFor.unique {l : Interface} (h : s.StandsFor d k) (h' : s.StandsFor d l) : k = l := by
  induction h with
  | self hd =>
      cases h' with
      | self _ => rfl
      | «alias» hshape _ _ => rw [hshape] at hd; cases hd
  | «alias» hshape hc _ ih =>
      cases h' with
      | self hd => rw [hshape] at hd; cases hd
      | «alias» hshape' hc' h' =>
          obtain ⟨rfl, -⟩ := TypeExpr.reference.inj (Shape.alias.inj (hshape.symm.trans hshape'))
          obtain rfl := Option.some.inj (hc.symm.trans hc')
          exact ih h'

def Supplies (s : Surface) (d b : Interface) : Prop :=
  ∃ k, s.StandsFor b k ∧ fieldNames (s.flatten k) ⊆ fieldNames (s.flatten d)

theorem Inherits.eq_or_extends (h : s.Inherits d e) :
    e = d ∨ ∃ b, s.Extends d b ∧ s.Inherits b e := by
  cases h with
  | self => exact .inl rfl
  | base hbase hb hrest => exact .inr ⟨_, ⟨_, hbase, hb⟩, hrest⟩

theorem Extends.inherits (h : s.Extends d b) (he : s.Inherits b e) : s.Inherits d e := by
  obtain ⟨base, hbase, hb⟩ := h
  exact .base hbase hb he

theorem Extends.first (h : s.Extends d b) : s.interface? b.name = some b := by
  obtain ⟨base, -, hb⟩ := h
  exact interface?_self hb

theorem mem_flatten_names (hd : d ∈ s.interfaces) : name ∈ fieldNames (s.flatten d)
    ↔ ∃ e ∈ s.givers d, name ∈ fieldNames (ownFields e) := by
  have hnil : (fieldNames []).Nodup := List.nodup_nil
  rw [flatten_eq hd, fieldNames_mergeFields hnil, List.mem_eraseDups, fieldNames_flatMap]
  simp [fieldNames]

theorem mem_flatten_names_of_first (hb : s.interface? b.name = some b) :
    name ∈ fieldNames (s.flatten b)
      ↔ ∃ e, s.Inherits b e ∧ name ∈ fieldNames (ownFields e) := by
  rw [mem_flatten_names (List.mem_of_find?_eq_some hb)]
  simp only [mem_givers_iff hb]

theorem flatten_of_alias (hb : s.interface? b.name = some b) (hplain : b.IsPlain)
    (hshape : b.shape.isRecord = false) : s.flatten b = [] := by
  have hown : ownFields b = [] := by
    unfold ownFields
    cases hs : b.shape with
    | record fields => rw [hs] at hshape; cases hshape
    | «alias» t => rfl
  have hnone : fieldNames (s.flatten b) = [] := by
    refine List.eq_nil_iff_forall_not_mem.2 fun name hname => ?_
    obtain ⟨e, he, hdeclared⟩ := (mem_flatten_names_of_first hb).1 hname
    rcases he.eq_or_extends with rfl | ⟨c, ⟨base, hbase, -⟩, -⟩
    · rw [hown] at hdeclared
      exact List.not_mem_nil hdeclared
    · simp [hplain hshape] at hbase
  exact List.map_eq_nil_iff.1 hnone

/-- The names of an interface and its bases without regard to the aliases among them. -/
def Declares (s : Surface) (d : Interface) (name : String) : Prop :=
  name ∈ fieldNames (ownFields d)
    ∨ ∃ b, s.Extends d b ∧ b.shape.isRecord = true ∧ name ∈ fieldNames (s.flatten b)

/-- The names that an interface has from another declaration of its name, to which its bases come
back. -/
def TakesBack (s : Surface) (d : Interface) (name : String) : Prop :=
  ∃ k, s.Inherits d k ∧ k.name = d.name ∧ k ≠ d ∧ name ∈ fieldNames (s.flatten k)

theorem declares_of_mem_flatten (hplain : ∀ b, s.Extends d b → b.IsPlain)
    (hname : name ∈ fieldNames (s.flatten d)) : s.Declares d name := by
  obtain ⟨f, hf, rfl⟩ := List.mem_map.1 hname
  obtain ⟨e, he, hown⟩ := mem_flatten hf
  rcases he.eq_or_extends with rfl | ⟨b, hb, he⟩
  · exact .inl (List.mem_map_of_mem hown)
  · have hmem := (mem_flatten_names_of_first hb.first).2 ⟨e, he, List.mem_map_of_mem hown⟩
    refine .inr ⟨b, hb, ?_, hmem⟩
    by_contra hshape
    rw [flatten_of_alias hb.first (hplain b hb) (by simpa using hshape)] at hmem
    exact List.not_mem_nil hmem

theorem mem_flatten_or_takesBack (hd : d ∈ s.interfaces) (h : s.Declares d name) :
    name ∈ fieldNames (s.flatten d) ∨ s.TakesBack d name := by
  rcases h with hname | ⟨b, hb, -, hname⟩
  · exact .inl ((mem_flatten_names hd).2 ⟨d, self_mem_givers s d, hname⟩)
  · obtain ⟨e, he, hname⟩ := (mem_flatten_names_of_first hb.first).1 hname
    rcases mem_givers_or_back (hb.inherits he) with hgiver | ⟨k, hk, hsame, hne, he⟩
    · exact .inl ((mem_flatten_names hd).2 ⟨e, hgiver, hname⟩)
    · obtain ⟨c, hc, hck⟩ := hk.eq_or_extends.resolve_left hne
      have hfirst := hck.first hc.first
      exact .inr ⟨k, hk, hsame, hne, (mem_flatten_names_of_first hfirst).2 ⟨e, he, hname⟩⟩

/-- What a typedef has from the bases of its interface: nothing else than they declare, and all of
it, unless they come back to the name of the interface by another declaration. -/
structure TakesFields (s : Surface) (globals : List String) (d : Interface) : Prop where
  declared : ∀ name ∈ fieldNames (s.flatten d), s.Declares d name
  complete : ∀ name, s.Declares d name → name ∈ fieldNames (s.flatten d) ∨ s.TakesBack d name
  origins : ∀ f ∈ s.flatten d, ∃ e, s.Inherits d e ∧ f ∈ ownFields e
  aliases : ∀ b, s.Extends d b → b.shape.isRecord = false → s.flatten b = []
  supplies_iff : ¬ s.ComesBack d → ∀ b, s.Extends d b → (s.Supplies d b ↔
    b.shape.isRecord = true ∨
      ∃ k, s.StandsFor b k ∧ ∀ name ∈ fieldNames (s.flatten k), s.Declares d name)
  printed : d.bases ≠ [] → ∀ f ∈ s.flatten d,
    "* " ++ f.name ++ ":" ++ s.fieldType globals f ∈ Bridge.typedef s globals d

theorem TakesBack.comesBack (h : s.TakesBack d name) : s.ComesBack d := by
  obtain ⟨k, hk, hname, hne, -⟩ := h
  exact ⟨k, hk, hname, hne⟩

theorem mem_typedef_of_isRecord (globals : List String) (hshape : d.shape.isRecord = true)
    {f : Field} (hf : f ∈ s.flatten d) :
    "* " ++ f.name ++ ":" ++ s.fieldType globals f ∈ Bridge.typedef s globals d := by
  unfold Bridge.typedef Bridge.typedefBody
  cases hs : d.shape with
  | «alias» t => rw [hs] at hshape; cases hshape
  | record fields =>
      have hline := List.mem_map_of_mem
        (f := fun f : Field => "* " ++ f.name ++ ":" ++ s.fieldType globals f) hf
      exact List.mem_cons_of_mem _ (List.mem_append_left _
        (List.mem_append_left _ (List.mem_cons_of_mem _ hline)))

theorem takesFields_of_plain (globals : List String) (hplain : ∀ e ∈ s.interfaces, e.IsPlain)
    (hd : d ∈ s.interfaces) : s.TakesFields globals d := by
  have hbase {b : Interface} (hb : s.Extends d b) : b.IsPlain :=
    hplain b (List.mem_of_find?_eq_some hb.first)
  have hdeclared (name : String) : name ∈ fieldNames (s.flatten d) → s.Declares d name :=
    declares_of_mem_flatten fun b hb => hbase hb
  refine ⟨hdeclared, fun name => mem_flatten_or_takesBack hd, fun f => mem_flatten,
    fun b hb hshape => flatten_of_alias hb.first (hbase hb) hshape, ?_, ?_⟩
  · intro hback b hb
    have hnames (name : String) : name ∈ fieldNames (s.flatten d) ↔ s.Declares d name :=
      ⟨hdeclared name, fun h => (mem_flatten_or_takesBack hd h).resolve_right
        fun hback' => hback hback'.comesBack⟩
    have hall {k : Interface} : fieldNames (s.flatten k) ⊆ fieldNames (s.flatten d)
        ↔ ∀ name ∈ fieldNames (s.flatten k), s.Declares d name :=
      forall₂_congr fun name _ => hnames name
    constructor
    · rintro ⟨k, hk, hsub⟩
      exact .inr ⟨k, hk, hall.1 hsub⟩
    · rintro (hshape | ⟨k, hk, hdeclares⟩)
      · exact ⟨b, .self hshape, fun name hname => (hnames name).2 (.inr ⟨b, hb, hshape, hname⟩)⟩
      · exact ⟨k, hk, hall.2 hdeclares⟩
  · intro hbases f hf
    refine mem_typedef_of_isRecord globals ?_ hf
    by_contra hshape
    exact hbases (hplain d hd (by simpa using hshape))

variable {config : Config} {disk : Disk} {file : SourceFile}

theorem Origin.isPlain {m : Module} (o : Origin config disk file m s) :
    ∀ d ∈ s.interfaces, d.IsPlain := by
  rw [o.progress.same.interfaces]
  exact Collected.isPlain_of_mem o.collects

theorem takesFields_of_surface (hs : file.surface config disk = .ok s) (hd : d ∈ s.interfaces) :
    s.TakesFields config.globalTypes d ∧
      (s.interface? d.name = some d → ¬ s.ComesBack d ∧ (s.isReferenced d.name = true →
        ∀ base ∈ d.bases, ∃ b, s.interface? base = some b ∧ s.Extends d b)) := by
  obtain ⟨m, ⟨o⟩⟩ := origin_of_ok hs
  refine ⟨takesFields_of_plain _ o.isPlain hd, fun hfirst =>
    ⟨not_comesBack_of_first hfirst, fun hheld base hbase => ?_⟩⟩
  have hheld : d.name ∈ s.referenced := List.contains_iff_mem.1 hheld
  obtain ⟨b, hb⟩ := Option.isSome_iff_exists.1 (o.checked.bases d hfirst hheld base hbase)
  exact ⟨b, hb, base, hbase, hb⟩

def aliasedBase : SourceFile where
  path := ⟨"a.ts"⟩
  text := "interface C\x7ba:string\x7dinterface D\x7bc:string\x7dtype B=C;"
    ++ "interface I extends D,B\x7bb:string\x7d"
    ++ "export class A extends HTMLElement\x7bm(i:I)\x7b\x7d\x7d"

def aliasedBaseTypes : List Interface :=
  [⟨"C", [], .record [⟨"a", .primitive .string, false⟩]⟩,
    ⟨"D", [], .record [⟨"c", .primitive .string, false⟩]⟩,
    ⟨"B", [], .alias (.reference "C" [])⟩,
    ⟨"I", ["D", "B"], .record [⟨"b", .primitive .string, false⟩]⟩]

theorem surface_aliasedBase : ∃ s, aliasedBase.surface .standard ⟨[], []⟩ = .ok s ∧
    s.interfaces = aliasedBaseTypes ∧ s.isReferenced "I" = true ∧
    aliasedBaseTypes.map (fun d => fieldNames (s.flatten d)) = [["a"], ["c"], [], ["c", "b"]] := by
  have held : (aliasedBase.surface .standard ⟨[], []⟩).toOption.map (fun s =>
      (s.interfaces, s.isReferenced "I", aliasedBaseTypes.map fun d => fieldNames (s.flatten d)))
      = some (aliasedBaseTypes, true, [["a"], ["c"], [], ["c", "b"]]) := by
    rw [SourceFile.surface,
      aliasedBase.parse_eq_elim (ofList_append (ofList_append rfl rfl) rfl)]
    decide +kernel
  obtain ⟨s, hs, hparts⟩ := map_toOption_eq_some.1 held
  simp only [Prod.mk.injEq] at hparts
  exact ⟨s, hs, hparts⟩

theorem takesFields_aliasedBase : ∃ s d, aliasedBase.surface .standard ⟨[], []⟩ = .ok s ∧
    d ∈ s.interfaces ∧ d.bases = ["D", "B"] ∧
    s.TakesFields Config.standard.globalTypes d := by
  obtain ⟨s, hs, htypes, -, -⟩ := surface_aliasedBase
  have hfirst : s.interface? "I" = aliasedBaseTypes[3] := by
    rw [interface?, htypes]
    decide
  have hd : aliasedBaseTypes[3] ∈ s.interfaces := List.mem_of_find?_eq_some hfirst
  exact ⟨s, _, hs, hd, rfl, (takesFields_of_surface hs hd).1⟩

/-- An alias of an interface is accepted as a base and leaves out the fields of the interface. -/
theorem not_supplies_aliasedBase : ∃ s d b k, aliasedBase.surface .standard ⟨[], []⟩ = .ok s ∧
    s.interface? d.name = some d ∧ s.isReferenced d.name = true ∧ s.Extends d b ∧
    s.StandsFor b k ∧ "a" ∈ fieldNames (s.flatten k) ∧ "a" ∉ fieldNames (s.flatten d) ∧
    ¬ s.Supplies d b := by
  obtain ⟨s, hs, htypes, hheld, hfields⟩ := surface_aliasedBase
  have first (name : String) : s.interface? name = aliasedBaseTypes.find? (·.name == name) := by
    rw [interface?, htypes]
  have hb : s.interface? "B" = aliasedBaseTypes[2] := by rw [first]; decide
  have hc : s.interface? "C" = aliasedBaseTypes[0] := by rw [first]; decide
  have hi : s.interface? "I" = aliasedBaseTypes[3] := by rw [first]; decide
  have hstands : s.StandsFor aliasedBaseTypes[2] aliasedBaseTypes[0] := .alias rfl hc (.self rfl)
  obtain ⟨hk, -, -, hd⟩ : fieldNames (s.flatten aliasedBaseTypes[0]) = ["a"] ∧ _ ∧ _ ∧
      fieldNames (s.flatten aliasedBaseTypes[3]) = ["c", "b"] := by
    simpa [aliasedBaseTypes] using hfields
  have hmem : "a" ∈ fieldNames (s.flatten aliasedBaseTypes[0]) := by simp [hk]
  have hnot : "a" ∉ fieldNames (s.flatten aliasedBaseTypes[3]) := by simp [hd]
  refine ⟨s, _, _, _, hs, hi, hheld, ⟨"B", by decide, hb⟩, hstands, hmem, hnot, ?_⟩
  rintro ⟨k, hk, hsub⟩
  exact hnot (hsub (hstands.unique hk ▸ hmem))

end Surface

end ElementBridge
