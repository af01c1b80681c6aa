import Mathlib.Data.List.Forall2
import ElementBridge.Proofs.OfSource
import ElementBridge.Proofs.WrittenSources
import ElementBridge.Tree.Equality

/-!
Elements of a class body that are no part of the public surface. Two modules that differ in such
elements alone have one surface, or fail alike.
-/

namespace ElementBridge

open ElementBridge.Tree

namespace Tree

def Accessibility.isOpen : Option Accessibility → Bool
  | some .privately | some .protectedly => false
  | _ => true

def isWithheld (isStatic : Bool) (key : Key) (access : Option Accessibility) : Bool :=
  isStatic || !Accessibility.isOpen access || key.isHidden || key.form == .computed

/-- Constructors count for the public whatever their modifiers, as long as they have a body. -/
def ClassElement.isWithheld : ClassElement → Bool
  | .method m =>
      if m.kind = .construct then !m.hasBody else Tree.isWithheld m.isStatic m.key m.accessibility
  | .property p | .accessor p => Tree.isWithheld p.isStatic p.key p.accessibility
  | .indexSignature | .staticBlock => true

/-- The second body is the first one with withheld elements put in, anywhere and any number. -/
inductive Inserts : List ClassElement → List ClassElement → Prop where
  | nil : Inserts [] []
  | keep (e : ClassElement) {es fs : List ClassElement} : Inserts es fs → Inserts (e :: es) (e :: fs)
  | insert {e : ClassElement} {es fs : List ClassElement} : e.isWithheld = true → Inserts es fs →
      Inserts es (e :: fs)

structure ClassNode.Widens (node wide : ClassNode) : Prop where
  name : wide.name = node.name
  base : wide.base = node.base
  elements : Inserts node.elements wide.elements

inductive Statement.Widens : Statement → Statement → Prop where
  | same (st : Statement) : Widens st st
  | declare {node wide : ClassNode} : node.Widens wide →
      Widens (.declare (.classDef node)) (.declare (.classDef wide))
  | exportDeclaration {node wide : ClassNode} : node.Widens wide →
      Widens (.exportDeclaration (.classDef node)) (.exportDeclaration (.classDef wide))
  | exportDefault {node wide : ClassNode} : node.Widens wide →
      Widens (.exportDefault (some node)) (.exportDefault (some wide))

def Module.Widens (m wide : Module) : Prop := List.Forall₂ Statement.Widens m wide

def ClassNode.exposed (node : ClassNode) : ClassNode :=
  { node with elements := node.elements.filter (!·.isWithheld) }

def Declaration.exposed : Declaration → Declaration
  | .classDef node => .classDef node.exposed
  | d => d

def Statement.exposed : Statement → Statement
  | .declare d => .declare d.exposed
  | .exportDeclaration d => .exportDeclaration d.exposed
  | .exportDefault node => .exportDefault (node.map ClassNode.exposed)
  | st => st

def Module.exposed (m : Module) : Module := m.map Statement.exposed

theorem inserts_filter (es : List ClassElement) : Inserts (es.filter (!·.isWithheld)) es := by
  induction es with
  | nil => exact .nil
  | cons e es ih =>
      cases he : e.isWithheld with
      | true =>
          rw [List.filter_cons_of_neg (by simp [he])]
          exact .insert he ih
      | false =>
          rw [List.filter_cons_of_pos (by simp [he])]
          exact .keep e ih

theorem ClassNode.widens_exposed (node : ClassNode) : node.exposed.Widens node :=
  ⟨rfl, rfl, inserts_filter node.elements⟩

theorem Statement.widens_exposed (st : Statement) : st.exposed.Widens st := by
  cases st with
  | declare d =>
      cases d with
      | classDef node => exact .declare node.widens_exposed
      | _ => exact .same _
  | exportDeclaration d =>
      cases d with
      | classDef node => exact .exportDeclaration node.widens_exposed
      | _ => exact .same _
  | exportDefault node =>
      cases node with
      | none => exact .same _
      | some node => exact .exportDefault node.widens_exposed
  | _ => exact .same _

theorem Module.widens_exposed (m : Module) : m.exposed.Widens m := by
  induction m with
  | nil => exact .nil
  | cons st m ih => exact .cons st.widens_exposed ih

end Tree

namespace Candidate

theorem publicName_of_isWithheld {isStatic : Bool} {key : Key} {access : Option Accessibility}
    (h : Tree.isWithheld isStatic key access = true) : publicName isStatic key access = none := by
  unfold publicName
  split
  · rfl
  · next hopen =>
      simp only [Bool.or_eq_true, beq_iff_eq, not_or] at hopen
      obtain ⟨hstatic, hcomputed⟩ := hopen
      simp only [Tree.isWithheld, hstatic, Bool.false_or, Bool.or_eq_true, beq_iff_eq, hcomputed,
        or_false, Bool.not_eq_true'] at h
      rcases h with haccess | hhidden
      · obtain rfl | rfl : access = some .privately ∨ access = some .protectedly := by
          rcases access with - | - | - | - <;> simp_all [Accessibility.isOpen]
        · rfl
        · rfl
      · have hname : key.name? = none := by
          unfold Key.isHidden at hhidden
          unfold Key.name?
          split at hhidden
          · next hhash => rw [hhash]
          · cases hhidden
        rw [hname]
        cases visibilityOf access <;> rfl

namespace Draft

theorem addElement_of_isWithheld {e : ClassElement} (h : e.isWithheld = true) (d : Draft) :
    d.addElement e = .ok d := by
  cases e with
  | method m =>
      rw [ClassElement.isWithheld] at h
      rw [addElement]
      by_cases hkind : m.kind = .construct
      · rw [if_pos hkind] at h
        rw [if_pos hkind, addConstructor, if_pos h]
      · rw [if_neg hkind] at h
        rw [if_neg hkind, lowerMethod, publicName_of_isWithheld h]
        rfl
  | property p =>
      rw [addElement, lowerProperty, publicName_of_isWithheld h]
      rfl
  | accessor p => rfl
  | indexSignature => rfl
  | staticBlock => rfl

/-- What is being overloaded stays open over an inserted element, so its place does not matter. -/
theorem foldlM_addElement_of_inserts {es fs : List ClassElement} (h : Inserts es fs) (d : Draft) :
    fs.foldlM addElement d = es.foldlM addElement d := by
  induction h generalizing d with
  | nil => rfl
  | keep e _ ih =>
      rw [List.foldlM_cons, List.foldlM_cons]
      exact congrArg (d.addElement e >>= ·) (funext ih)
  | insert he _ ih =>
      rw [List.foldlM_cons, addElement_of_isWithheld he]
      exact ih d

end Draft

theorem ofNode?_of_widens {node wide : ClassNode} (h : node.Widens wide) (config : Config)
    (kind : Export) : ofNode? config kind wide = ofNode? config kind node := by
  unfold ofNode?
  rw [h.name, h.base, Draft.foldlM_addElement_of_inserts h.elements]

end Candidate

namespace Tree.Statement

variable {st wide : Statement}

theorem Widens.addStatement (h : st.Widens wide) (config : Config) (c : Collected) :
    Collected.addStatement config c wide = Collected.addStatement config c st := by
  cases h with
  | same => rfl
  | declare h =>
      simp only [Collected.addStatement, Collected.addDeclaration, Collected.addClass,
        Candidate.ofNode?_of_widens h]
  | exportDeclaration h =>
      simp only [Collected.addStatement, Collected.addDeclaration, Collected.addClass,
        Candidate.ofNode?_of_widens h]
  | exportDefault h =>
      simp only [Collected.addStatement, Collected.addClass, Candidate.ofNode?_of_widens h]

theorem Widens.exportScan (h : st.Widens wide) : wide.exportScan = st.exportScan := by
  cases h with
  | same => rfl
  | declare h => rfl
  | exportDeclaration h => simp only [Statement.exportScan, Declaration.name?, h.name]
  | exportDefault h => rfl

end Tree.Statement

namespace Tree.Module

variable {m wide : Module}

theorem Widens.ofModule (h : m.Widens wide) (config : Config) :
    Collected.ofModule config wide = Collected.ofModule config m := by
  have hfold : ∀ c : Collected, wide.foldlM (Collected.addStatement config) c
      = m.foldlM (Collected.addStatement config) c := by
    induction h with
    | nil => exact fun c => rfl
    | cons hst _ ih =>
        intro c
        rw [List.foldlM_cons, List.foldlM_cons, hst.addStatement]
        exact congrArg (_ >>= ·) (funext ih)
  exact hfold _

theorem Widens.exportScan (h : m.Widens wide) : wide.exportScan = m.exportScan := by
  unfold Module.exportScan
  induction h with
  | nil => rfl
  | cons hst _ ih => rw [List.foldr_cons, List.foldr_cons, hst.exportScan, ih]

end Tree.Module

namespace Surface

variable {config : Config} {disk : Disk} {file wideFile : SourceFile} {m wide : Module}

/-- Elements that are withheld from the public have no effect, be they well-formed or not: on
success the surface is the same, and on failure the failure is. -/
theorem surface_of_widens (config : Config) (disk : Disk) (hpath : wideFile.path = file.path)
    (hm : file.parse = .ok m) (hwide : wideFile.parse = .ok wide) (h : m.Widens wide) :
    wideFile.surface config disk = file.surface config disk := by
  have hgraph : ModuleGraph.load disk wideFile wide = ModuleGraph.load disk file m := by
    unfold ModuleGraph.load SourceFile.directory
    rw [h.exportScan, hpath]
  have hname : wideFile.name = file.name := congrArg Path.text hpath
  have hcollected (g : ModuleGraph) (c : Collected) :
      ofCollected config wideFile g c = ofCollected config file g c := by
    unfold ofCollected start setting checkReachable
    rw [hname, hpath]
  unfold SourceFile.surface
  rw [hm, hwide]
  change ofModule config wideFile _ wide = ofModule config file _ m
  unfold ofModule
  rw [h.ofModule, hgraph, hname]
  exact congrArg (_ >>= ·) (funext fun c => hcollected _ c)

def overloadedSource : SourceFile where
  path := ⟨"a.ts"⟩
  text := "export class A extends HTMLElement\x7bm():void;m()\x7b\x7d\x7d"

def withheldSource : SourceFile where
  path := ⟨"a.ts"⟩
  text := "export class A extends HTMLElement\x7bstatic\x7bcustomElements.define('a-b',A)\x7d"
    ++ "m():void;#h(...a:M[])\x7b\x7dprivate p:1n;constructor(\x7b\x7d);[k:string]:M;"
    ++ "get[c]():M\x7b\x7dm()\x7b\x7d\x7d"

theorem surface_withheldSource : ∃ m wide, overloadedSource.parse = .ok m ∧
    withheldSource.parse = .ok wide ∧ m.Widens wide ∧ wide ≠ m ∧
    (overloadedSource.surface .standard ⟨[], []⟩).toOption.isSome = true ∧
    withheldSource.surface .standard ⟨[], []⟩ = overloadedSource.surface .standard ⟨[], []⟩ := by
  have hparse : withheldSource.parse.toOption.map Module.exposed
      = overloadedSource.parse.toOption ∧
      withheldSource.parse.toOption ≠ overloadedSource.parse.toOption ∧
      (overloadedSource.surface .standard ⟨[], []⟩).toOption.isSome = true := by
    rw [SourceFile.surface, overloadedSource.parse_eq_elim rfl,
      withheldSource.parse_eq_elim (ofList_append (ofList_append rfl rfl) rfl)]
    decide +kernel
  obtain ⟨hexposed, hdiffers, hsome⟩ := hparse
  obtain ⟨s, hs⟩ := Option.isSome_iff_exists.1 hsome
  obtain ⟨m, ⟨o⟩⟩ := origin_of_ok (eq_ok_of_toOption hs)
  rw [o.parsed] at hexposed hdiffers
  obtain ⟨wide, hwide, hm⟩ := Option.map_eq_some_iff.1 hexposed
  have hparsed := eq_ok_of_toOption hwide
  have hwidens : m.Widens wide := hm ▸ wide.widens_exposed
  refine ⟨m, wide, o.parsed, hparsed, hwidens, fun heq => ?_, hsome, ?_⟩
  · exact hdiffers (heq ▸ hwide)
  · exact surface_of_widens .standard ⟨[], []⟩ rfl o.parsed hparsed hwidens

end Surface

end ElementBridge
