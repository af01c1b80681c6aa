import Mathlib.Data.List.Induction
import Mathlib.Data.List.Lex
import Mathlib.Data.String.Basic
import ElementBridge.Proofs.BoundImports
import ElementBridge.TypeExpr.OfNode

namespace ElementBridge

namespace Sorted

variable {α : Type} {before : α → α → Bool} {items more : List α}

theorem isOrder_of_key {β : Type} [LinearOrder β] {key : α → β}
    (hkey : ∀ a b, key a = key b → a = b) (hbefore : ∀ a b, before a b = true ↔ key a < key b) :
    IsOrder before where
  asymm {a b} h := by
    rw [← Bool.not_eq_true, hbefore]
    exact lt_asymm ((hbefore a b).1 h)
  trans h h' := (hbefore _ _).2 (lt_trans ((hbefore _ _).1 h) ((hbefore _ _).1 h'))
  total a b h h' := by
    rw [← Bool.not_eq_true, hbefore, not_lt] at h h'
    exact hkey a b (le_antisymm h' h)

theorem mem_ofList (ho : IsOrder before) {a : α} : a ∈ ofList before items ↔ a ∈ items := by
  unfold ofList
  induction items using List.reverseRecOn with
  | nil => simp
  | append_singleton items b ih =>
      rw [List.foldl_append, List.foldl_cons, List.foldl_nil, mem_insert ho.total, ih,
        List.mem_append, List.mem_singleton, or_comm]

theorem ascends_ofList (ho : IsOrder before) (items : List α) :
    Ascends before (ofList before items) := by
  unfold ofList
  induction items using List.reverseRecOn with
  | nil => exact .nil
  | append_singleton items b ih =>
      rw [List.foldl_append, List.foldl_cons, List.foldl_nil]
      exact ih.insert ho b

theorem Ascends.eq_of_mem_iff (ho : IsOrder before) (h : Ascends before items)
    (h' : Ascends before more) (hmem : ∀ a, a ∈ items ↔ a ∈ more) : items = more := by
  have hnodup {l : List α} (hl : Ascends before l) : l.Nodup := by
    refine hl.imp fun {a b} hab heq => ?_
    rw [heq, ho.irrefl] at hab
    cases hab
  have hperm : items.Perm more := (List.perm_ext_iff_of_nodup (hnodup h) (hnodup h')).2 hmem
  refine hperm.eq_of_pairwise (fun a b _ _ hab hba => ?_) h h'
  rw [ho.asymm hab] at hba
  cases hba

theorem ofList_congr (ho : IsOrder before) (h : ∀ a, a ∈ items ↔ a ∈ more) :
    ofList before items = ofList before more := by
  refine (ascends_ofList ho items).eq_of_mem_iff ho (ascends_ofList ho more) fun a => ?_
  rw [mem_ofList ho, mem_ofList ho, h a]

end Sorted

namespace TypeExpr

mutual

/-- A type as a list of words that no other type begins with. -/
def code : TypeExpr → List String
  | .primitive p => ["primitive", p.keyword]
  | .reference name args => "reference" :: name :: codes args
  | .array element => "array" :: code element
  | .union members => "union" :: codes members
  | .function params result => "function" :: (codes params ++ code result)
  | .record fields => "record" :: fieldCodes fields

def codes : List TypeExpr → List String
  | [] => ["end"]
  | t :: ts => "next" :: (code t ++ codes ts)

def fieldCodes : List (Slot TypeExpr) → List String
  | [] => ["end"]
  | ⟨name, t, optional⟩ :: fs =>
      "next" :: name :: (if optional then "optional" else "required") :: (code t ++ fieldCodes fs)

end

mutual

theorem code_append : ∀ (t u : TypeExpr) (more rest : List String),
    code t ++ more = code u ++ rest → t = u ∧ more = rest
  | .primitive p, u, more, rest, h => by
      cases u with
      | primitive q =>
          simp only [code, List.cons_append, List.nil_append, List.cons.injEq, true_and] at h
          exact ⟨congrArg _ (Primitive.keyword_injective h.1), h.2⟩
      | _ => simp [code] at h
  | .reference name args, u, more, rest, h => by
      cases u with
      | reference other args' =>
          simp only [code, List.cons_append, List.cons.injEq, true_and] at h
          obtain ⟨hargs, hrest⟩ := codes_append args args' more rest h.2
          exact ⟨by rw [h.1, hargs], hrest⟩
      | _ => simp [code] at h
  | .array t, u, more, rest, h => by
      cases u with
      | array t' =>
          simp only [code, List.cons_append, List.cons.injEq, true_and] at h
          obtain ⟨ht, hrest⟩ := code_append t t' more rest h
          exact ⟨by rw [ht], hrest⟩
      | _ => simp [code] at h
  | .union ts, u, more, rest, h => by
      cases u with
      | union ts' =>
          simp only [code, List.cons_append, List.cons.injEq, true_and] at h
          obtain ⟨hts, hrest⟩ := codes_append ts ts' more rest h
          exact ⟨by rw [hts], hrest⟩
      | _ => simp [code] at h
  | .function params result, u, more, rest, h => by
      cases u with
      | function params' result' =>
          simp only [code, List.cons_append, List.append_assoc, List.cons.injEq, true_and] at h
          obtain ⟨hparams, h⟩ := codes_append params params' _ _ h
          obtain ⟨hresult, hrest⟩ := code_append result result' more rest h
          exact ⟨by rw [hparams, hresult], hrest⟩
      | _ => simp [code] at h
  | .record fields, u, more, rest, h => by
      cases u with
      | record fields' =>
          simp only [code, List.cons_append, List.cons.injEq, true_and] at h
          obtain ⟨hfields, hrest⟩ := fieldCodes_append fields fields' more rest h
          exact ⟨by rw [hfields], hrest⟩
      | _ => simp [code] at h

theorem codes_append : ∀ (ts us : List TypeExpr) (more rest : List String),
    codes ts ++ more = codes us ++ rest → ts = us ∧ more = rest
  | [], us, more, rest, h => by
      cases us with
      | nil => simpa [codes] using h
      | cons u us => simp [codes] at h
  | t :: ts, us, more, rest, h => by
      cases us with
      | nil => simp [codes] at h
      | cons u us =>
          simp only [codes, List.cons_append, List.append_assoc, List.cons.injEq, true_and] at h
          obtain ⟨ht, h⟩ := code_append t u _ _ h
          obtain ⟨hts, hrest⟩ := codes_append ts us more rest h
          exact ⟨by rw [ht, hts], hrest⟩

theorem fieldCodes_append : ∀ (fs gs : List (Slot TypeExpr)) (more rest : List String),
    fieldCodes fs ++ more = fieldCodes gs ++ rest → fs = gs ∧ more = rest
  | [], gs, more, rest, h => by
      cases gs with
      | nil => simpa [fieldCodes] using h
      | cons g gs => simp [fieldCodes] at h
  | ⟨name, t, optional⟩ :: fs, gs, more, rest, h => by
      cases gs with
      | nil => simp [fieldCodes] at h
      | cons g gs =>
          obtain ⟨name', t', optional'⟩ := g
          simp only [fieldCodes, List.cons_append, List.append_assoc, List.cons.injEq,
            true_and] at h
          obtain ⟨hname, hoptional, h⟩ := h
          obtain ⟨ht, h⟩ := code_append t t' _ _ h
          obtain ⟨hfs, hrest⟩ := fieldCodes_append fs gs more rest h
          have hsame : optional = optional' := by
            cases optional <;> cases optional' <;> simp_all
          exact ⟨by rw [hname, ht, hsame, hfs], hrest⟩

end

theorem code_injective (t u : TypeExpr) (h : code t = code u) : t = u :=
  (code_append t u [] [] (by rw [h])).1

def before (t u : TypeExpr) : Bool := decide (code t < code u)

theorem isOrder_before : Sorted.IsOrder before :=
  Sorted.isOrder_of_key code_injective fun _ _ => decide_eq_true_iff

/-- One of several types: everything if one of them is everything, a type by itself if there is no
other, and else their set. -/
def choice (ts : List TypeExpr) : TypeExpr :=
  if ts.contains any then any
  else match Sorted.ofList before ts with
    | [t] => t
    | us => .union us

variable {ts us : List TypeExpr}

theorem choice_congr (h : ∀ t, t ∈ ts ↔ t ∈ us) : choice ts = choice us := by
  have hany : ts.contains any = us.contains any := by
    rw [Bool.eq_iff_iff, List.contains_iff_mem, List.contains_iff_mem, h]
  rw [choice, choice, hany, Sorted.ofList_congr isOrder_before h]

theorem choice_of_any (h : any ∈ ts) : choice ts = any :=
  if_pos (List.contains_iff_mem.2 h)

theorem choice_singleton (t : TypeExpr) : choice [t] = t := by
  unfold choice
  split
  · next h => exact (List.mem_singleton.1 (List.contains_iff_mem.1 h))
  · rfl

/-- The names of the types that admit everything are one name, and so are those of any object. -/
def canonicalName (name : String) : String :=
  if name = "unknown" ∨ name = "never" then "any" else if name = "object" then "Object" else name

def canonicalReference (name : String) (args : List TypeExpr) : TypeExpr :=
  if canonicalName name = "any" ∧ args = [] then any else named (canonicalName name) args

theorem canonicalReference_array (t : TypeExpr) : canonicalReference "Array" [t] = .array t := by
  simp [canonicalReference, canonicalName, named, isArrayName]

theorem canonicalReference_object : canonicalReference "object" [] = .reference "Object" [] := by
  simp [canonicalReference, canonicalName, named, isArrayName]

mutual

/-- The one form of all types that print alike. -/
def canonical : TypeExpr → TypeExpr
  | .primitive p =>
      match p with
      | .any | .unknown | .never => any
      | .object => .reference "Object" []
      | p => .primitive p
  | .reference name args => canonicalReference name (canonicals args)
  | .array element => .array (canonical element)
  | .union members => choice (canonicals members)
  | .function params result => .function (canonicals params) (canonical result)
  | .record fields => .record (canonicalFields fields)

def canonicals : List TypeExpr → List TypeExpr
  | [] => []
  | t :: ts => canonical t :: canonicals ts

def canonicalFields : List (Slot TypeExpr) → List (Slot TypeExpr)
  | [] => []
  | ⟨name, t, optional⟩ :: fs =>
      ⟨name, if optional then choice [canonical t, .primitive .undefined] else canonical t, false⟩
        :: canonicalFields fs

end

theorem canonicals_eq_map (ts : List TypeExpr) : canonicals ts = ts.map canonical := by
  induction ts with
  | nil => rfl
  | cons t ts ih => rw [canonicals, ih, List.map_cons]

def canonicalField (f : Field) : Field :=
  ⟨f.name, if f.optional then choice [canonical f.type, .primitive .undefined]
    else canonical f.type, false⟩

theorem canonicalFields_eq_map (fs : List Field) : canonicalFields fs = fs.map canonicalField := by
  induction fs with
  | nil => rfl
  | cons f fs ih =>
      cases f
      rw [canonicalFields, ih, List.map_cons]
      rfl

end TypeExpr

end ElementBridge
