import Mathlib.Data.List.ReduceOption
import ElementBridge.Proofs.CollectedDeclarations

namespace ElementBridge

open ElementBridge.Tree

def Tree.Statement.declared : Statement → List (Export × Tree.Declaration)
  | .declare d => [(.unexported, d)]
  | .exportDeclaration d => [(.named, d)]
  | .exportDefault (some node) => [(.default, .classDef node)]
  | _ => []

def Tree.Statement.registered : Statement → List Registration
  | .other parts => Registration.allOf parts
  | _ => []

@[simp]
def Obstacle.under {α : Type} (name : String) : Except Obstacle α → List (String × Obstacle)
  | .ok _ => []
  | .error o => [(name, o)]

namespace Tree.Declaration

@[simp]
def interfaces : Tree.Declaration → List Interface
  | .interface node => (Interface.ofNode node).toOption.toList
  | .alias node => (Interface.ofAlias node).toOption.toList
  | _ => []

@[simp]
def enums : Tree.Declaration → List Enumeration
  | .enum node => (Enumeration.ofNode node).toOption.toList
  | _ => []

@[simp]
def obstacles : Tree.Declaration → List (String × Obstacle)
  | .interface node => Obstacle.under node.name.text (Interface.ofNode node)
  | .alias node => Obstacle.under node.name.text (Interface.ofAlias node)
  | .enum node => Obstacle.under node.name.text (Enumeration.ofNode node)
  | _ => []

@[simp]
def classes (kind : Export) : Tree.Declaration → List (Export × ClassNode)
  | .classDef node => [(kind, node)]
  | _ => []

end Tree.Declaration

namespace Tree.Module

def declared (m : Module) : List (Export × Tree.Declaration) := m.flatMap Statement.declared

def interfaces (m : Module) : List Interface := m.declared.flatMap fun d => d.2.interfaces

def enums (m : Module) : List Enumeration := m.declared.flatMap fun d => d.2.enums

def obstacles (m : Module) : List (String × Obstacle) := m.declared.flatMap fun d => d.2.obstacles

def classes (m : Module) : List (Export × ClassNode) := m.declared.flatMap fun d => d.2.classes d.1

def registrations (m : Module) : List Registration := m.flatMap Statement.registered

def collected (m : Module) (candidates : List Candidate) : Collected where
  interfaces := m.interfaces
  enums := m.enums
  obstacles := m.obstacles.reverse
  candidates
  imports := m.symbols.reverse
  registrations := m.registrations

end Tree.Module

def Candidate.ofClass? (config : Config) (c : Export × ClassNode) :
    Except Refusal (Option Candidate) :=
  ofNode? config c.1 c.2

namespace Collected

variable {config : Config} {st : Statement} {kind : Export} {d : Tree.Declaration}

def join (c d : Collected) : Collected where
  interfaces := c.interfaces ++ d.interfaces
  enums := c.enums ++ d.enums
  obstacles := d.obstacles ++ c.obstacles
  candidates := c.candidates ++ d.candidates
  imports := d.imports ++ c.imports
  registrations := c.registrations ++ d.registrations

theorem join_assoc (a b c : Collected) : (a.join b).join c = a.join (b.join c) := by
  simp [join]

theorem empty_join (c : Collected) : empty.join c = c := by
  simp [join, empty]

theorem join_nil (c : Collected) : c.join (Tree.Module.collected [] []) = c := by
  simp [join, Tree.Module.collected, Tree.Module.interfaces, Tree.Module.enums,
    Tree.Module.obstacles, Tree.Module.declared, Tree.Module.symbols, Tree.Module.registrations]

theorem collected_append (m n : Module) (a b : List Candidate) :
    Tree.Module.collected (m ++ n) (a ++ b)
      = (Tree.Module.collected m a).join (Tree.Module.collected n b) := by
  simp [join, Tree.Module.collected, Tree.Module.interfaces, Tree.Module.enums,
    Tree.Module.obstacles, Tree.Module.declared, Tree.Module.symbols, Tree.Module.registrations]

theorem collected_singleton (st : Statement) (candidates : List Candidate) :
    Tree.Module.collected [st] candidates =
      { interfaces := st.declared.flatMap fun d => d.2.interfaces
        enums := st.declared.flatMap fun d => d.2.enums
        obstacles := (st.declared.flatMap fun d => d.2.obstacles).reverse
        candidates
        imports := st.symbols.reverse
        registrations := st.registered } := by
  simp [Tree.Module.collected, Tree.Module.interfaces, Tree.Module.enums, Tree.Module.obstacles,
    Tree.Module.declared, Tree.Module.symbols, Tree.Module.registrations]

theorem classes_singleton (st : Statement) :
    Tree.Module.classes [st] = st.declared.flatMap fun d => d.2.classes d.1 := by
  simp [Tree.Module.classes, Tree.Module.declared]

theorem addDeclaration_eq (c : Collected) (hst : st.declared = [(kind, d)])
    (hsymbols : st.symbols = []) (hregistered : st.registered = []) :
    c.addDeclaration config kind d
      = (Tree.Module.classes [st]).mapM (Candidate.ofClass? config) >>= fun found =>
          .ok (c.join (Tree.Module.collected [st] found.reduceOption)) := by
  simp only [collected_singleton, classes_singleton, hst, hsymbols, hregistered,
    List.flatMap_singleton]
  cases d with
  | interface node =>
      cases hd : Interface.ofNode node <;>
        simp [addDeclaration, addInterface, hd, join, Except.toOption, pure_bind]
  | «alias» node =>
      cases hd : Interface.ofAlias node <;>
        simp [addDeclaration, addInterface, hd, join, Except.toOption, pure_bind]
  | enum node =>
      cases hd : Enumeration.ofNode node <;>
        simp [addDeclaration, addEnum, hd, join, Except.toOption, pure_bind]
  | classDef node =>
      simp only [addDeclaration, addClass, Tree.Declaration.classes, List.mapM_cons, List.mapM_nil,
        Candidate.ofClass?, bind_assoc, pure_bind]
      refine congrArg (Candidate.ofNode? config kind node >>= ·) (funext fun found => ?_)
      cases found <;> simp [join, pure, Except.pure]
  | other => simp [addDeclaration, join, pure_bind]

theorem addStatement_eq (c : Collected) (st : Statement) :
    addStatement config c st
      = (Tree.Module.classes [st]).mapM (Candidate.ofClass? config) >>= fun found =>
          .ok (c.join (Tree.Module.collected [st] found.reduceOption)) := by
  have plain (hst : st.declared = []) :
      (Tree.Module.classes [st]).mapM (Candidate.ofClass? config) >>= (fun found =>
          Except.ok (c.join (Tree.Module.collected [st] found.reduceOption)))
        = .ok { c with
            imports := st.symbols.reverse ++ c.imports
            registrations := c.registrations ++ st.registered } := by
    simp [collected_singleton, classes_singleton, hst, join, pure_bind]
  cases st with
  | declare d => exact addDeclaration_eq c rfl rfl rfl
  | exportDeclaration d => exact addDeclaration_eq c rfl rfl rfl
  | exportDefault node =>
      cases node with
      | none => simpa [addStatement, Tree.Statement.symbols, Tree.Statement.registered]
          using (plain rfl).symm
      | some node => exact addDeclaration_eq (d := .classDef node) c rfl rfl rfl
  | importFrom i =>
      rw [plain rfl, show (Statement.importFrom i).symbols = i.symbols from rfl,
        ← addImport_imports]
      simp [addStatement, addImport, Tree.Statement.registered]
  | _ =>
      simpa [addStatement, Tree.Statement.symbols, Tree.Statement.registered]
        using (plain rfl).symm

theorem foldlM_addStatement (m : Module) (c : Collected) :
    m.foldlM (addStatement config) c
      = m.classes.mapM (Candidate.ofClass? config) >>= fun found =>
          .ok (c.join (m.collected found.reduceOption)) := by
  induction m generalizing c with
  | nil =>
      rw [List.foldlM_nil, show Tree.Module.classes [] = [] from rfl, List.mapM_nil, pure_bind,
        List.reduceOption_nil, join_nil]
      rfl
  | cons st rest ih =>
      have hclasses : Tree.Module.classes (st :: rest)
          = Tree.Module.classes [st] ++ Tree.Module.classes rest := by
        simp [Tree.Module.classes, Tree.Module.declared]
      rw [List.foldlM_cons, addStatement_eq, hclasses, List.mapM_append, bind_assoc, bind_assoc]
      refine congrArg (_ >>= ·) (funext fun found => ?_)
      change rest.foldlM (addStatement config) _ = _
      rw [ih, bind_assoc]
      refine congrArg (_ >>= ·) (funext fun more => ?_)
      rw [pure_bind, join_assoc, ← collected_append, List.reduceOption_append]
      rfl

/-- The pass over a module fails only for a class; otherwise it finds all that is declared. -/
theorem ofModule_eq (config : Config) (m : Module) :
    ofModule config m
      = m.classes.mapM (Candidate.ofClass? config) >>= fun found =>
          .ok (m.collected found.reduceOption) := by
  simp only [ofModule, foldlM_addStatement, empty_join]

end Collected

end ElementBridge
