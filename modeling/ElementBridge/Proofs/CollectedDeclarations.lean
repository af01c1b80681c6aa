import ElementBridge.Proofs.Results
import ElementBridge.Surface.Collected

namespace ElementBridge

open ElementBridge.Tree

def Tree.Import.symbols (i : Import) : List (String × Imported) :=
  (i.specifiers.getD []).map fun (name, binding) =>
    (name, Collected.importedSymbol i.module name binding)

def Tree.Statement.symbols : Statement → List (String × Imported)
  | .importFrom i => i.symbols
  | _ => []

def Tree.Module.symbols (m : Module) : List (String × Imported) := m.flatMap Statement.symbols

inductive Tree.Statement.Declares : Statement → Tree.Declaration → Prop where
  | unexported (node : Tree.Declaration) : Declares (.declare node) node
  | exported (node : Tree.Declaration) : Declares (.exportDeclaration node) node

inductive Tree.Statement.DeclaresClass : Statement → Export → ClassNode → Prop where
  | unexported (node : ClassNode) : DeclaresClass (.declare (.classDef node)) .unexported node
  | named (node : ClassNode) : DeclaresClass (.exportDeclaration (.classDef node)) .named node
  | default (node : ClassNode) : DeclaresClass (.exportDefault (some node)) .default node

namespace Collected

variable {config : Config} {c d : Collected} {st : Statement} {m : Module}

inductive Adds (config : Config) (c : Collected) (st : Statement) : Collected → Prop where
  | importFrom {i : Import} : st = .importFrom i → Adds config c st (c.addImport i)
  | interface {node : InterfaceNode} {d : Interface} : st.symbols = [] →
      st.Declares (.interface node) → Interface.ofNode node = .ok d →
      Adds config c st { c with interfaces := c.interfaces ++ [d] }
  | alias {node : AliasNode} {d : Interface} : st.symbols = [] →
      st.Declares (.alias node) → Interface.ofAlias node = .ok d →
      Adds config c st { c with interfaces := c.interfaces ++ [d] }
  | enum {node : EnumNode} {d : Enumeration} : st.symbols = [] →
      Enumeration.ofNode node = .ok d → Adds config c st { c with enums := c.enums ++ [d] }
  | obstacle {entry : String × Obstacle} : st.symbols = [] →
      Adds config c st { c with obstacles := entry :: c.obstacles }
  | classDef {kind : Export} {node : ClassNode} {found : Option Candidate} : st.symbols = [] →
      st.DeclaresClass kind node → Candidate.ofNode? config kind node = .ok found →
      Adds config c st { c with candidates := c.candidates ++ found.toList }
  | registrations {found : List Registration} : st.symbols = [] →
      Adds config c st { c with registrations := c.registrations ++ found }
  | nothing : st.symbols = [] → Adds config c st c

theorem addClass_ok {kind : Export} {node : ClassNode} (hst : st.symbols = [])
    (hclass : st.DeclaresClass kind node) (h : c.addClass config kind node = .ok d) :
    Adds config c st d := by
  unfold addClass at h
  simp only [bind_eq_ok, pure_eq_ok] at h
  obtain ⟨found, hfound, rfl⟩ := h
  exact .classDef hst hclass hfound

theorem addDeclaration_ok {kind : Export} {node : Tree.Declaration} (hst : st.symbols = [])
    (hnode : st.Declares node)
    (hclass : ∀ n, node = .classDef n → st.DeclaresClass kind n)
    (h : c.addDeclaration config kind node = .ok d) : Adds config c st d := by
  cases node with
  | interface node =>
      obtain rfl := Except.ok.inj h
      unfold addInterface
      cases hd : Interface.ofNode node with
      | ok d => exact .interface hst hnode hd
      | error o => exact .obstacle hst
  | «alias» node =>
      obtain rfl := Except.ok.inj h
      unfold addInterface
      cases hd : Interface.ofAlias node with
      | ok d => exact .alias hst hnode hd
      | error o => exact .obstacle hst
  | enum node =>
      obtain rfl := Except.ok.inj h
      unfold addEnum
      cases hd : Enumeration.ofNode node with
      | ok d => exact .enum hst hd
      | error o => exact .obstacle hst
  | classDef node => exact addClass_ok hst (hclass node rfl) h
  | other =>
      obtain rfl := Except.ok.inj h
      exact .nothing hst

theorem addStatement_ok (h : addStatement config c st = .ok d) : Adds config c st d := by
  cases st with
  | importFrom i =>
      obtain rfl := Except.ok.inj h
      exact .importFrom rfl
  | declare node =>
      exact addDeclaration_ok rfl (.unexported node) (fun n hn => hn ▸ .unexported n) h
  | exportDeclaration node =>
      exact addDeclaration_ok rfl (.exported node) (fun n hn => hn ▸ .named n) h
  | exportDefault node =>
      cases node with
      | none =>
          obtain rfl := Except.ok.inj h
          exact .nothing rfl
      | some node => exact addClass_ok rfl (.default node) h
  | exportNames _ _ =>
      obtain rfl := Except.ok.inj h
      exact .nothing rfl
  | exportAll _ _ =>
      obtain rfl := Except.ok.inj h
      exact .nothing rfl
  | other _ =>
      obtain rfl := Except.ok.inj h
      exact .registrations rfl

theorem addImport_imports (c : Collected) (i : Import) :
    (c.addImport i).imports = i.symbols.reverse ++ c.imports := by
  have hfold : ∀ (specifiers : List (String × ImportBinding)) (found : List (String × Imported)),
      specifiers.foldl (fun found (name, binding) =>
          (name, importedSymbol i.module name binding) :: found) found
        = (specifiers.map fun (name, binding) =>
            (name, importedSymbol i.module name binding)).reverse ++ found := by
    intro specifiers
    induction specifiers with
    | nil => simp
    | cons specifier rest ih => simp [ih]
  exact hfold _ _

theorem Adds.imports (h : Adds config c st d) : d.imports = st.symbols.reverse ++ c.imports := by
  cases h with
  | importFrom hst => exact hst ▸ addImport_imports c _
  | interface hst _ _ => rw [hst]; rfl
  | «alias» hst _ _ => rw [hst]; rfl
  | enum hst _ => rw [hst]; rfl
  | obstacle hst => rw [hst]; rfl
  | classDef hst _ _ => rw [hst]; rfl
  | registrations hst => rw [hst]; rfl
  | nothing hst => rw [hst]; rfl

theorem ofModule_imports (h : Collected.ofModule config m = .ok c) :
    c.imports = m.symbols.reverse := by
  have hfold : ∀ (m : Module) (c d : Collected), m.foldlM (addStatement config) c = .ok d →
      d.imports = m.symbols.reverse ++ c.imports := by
    intro m
    induction m with
    | nil =>
        intro c d h
        cases h
        rfl
    | cons st rest ih =>
        intro c d h
        rw [List.foldlM_cons, bind_eq_ok] at h
        obtain ⟨mid, hst, hrest⟩ := h
        rw [ih _ _ hrest, (addStatement_ok hst).imports]
        simp [Tree.Module.symbols]
  simpa [Collected.empty] using hfold m _ _ h

end Collected

end ElementBridge
