import NamingLint.Proofs.Convention.Prescription
import NamingLint.Proofs.Syntax.Connected

/-! The names that the check of a tree reads, and that the first one missing is its error.

A type, a module or a member is asked for its own name. The declarations of a statement are asked when
the walk comes to the statement, in the order of its children. -/

namespace NamingLint.Convention

open Syntax
open SyntaxTree (Legible Linked)

/-- The nodes that are asked for a name where the walk comes to a node. -/
def namesRead (tree : SyntaxTree) (n : Node) : List Node :=
  match n.kind with
  | .classDeclaration | .interfaceDeclaration | .enumDeclaration | .moduleDeclaration
  | .methodDeclaration | .propertyDeclaration => [n]
  | .variableStatement =>
    (n.children.filterMap tree.node?).filter fun child => child.kind == .variableDeclaration
  | .sourceFile | .moduleBlock | .variableDeclaration | .other => []

def readNodes (tree : SyntaxTree) : List Node :=
  (tree.preorder.filterMap tree.node?).flatMap (namesRead tree)

def isNameless (tree : SyntaxTree) (n : Node) : Bool := (tree.nameOf? n).isNone

def missing (n : Node) : TreeError := .missingName n.kind n.span.offset

namespace Declaration

variable {tree : SyntaxTree} {n : Node} {error : TreeError}

theorem requireName_eq_error_iff :
    requireName tree n = .error error ↔ isNameless tree n = true ∧ error = missing n := by
  rw [requireName, isNameless]
  cases tree.nameOf? n with
  | none => simp [missing, eq_comm]
  | some name => simp

theorem bindings_eq_error_iff {ids : List NodeId}
    (known : ∀ id ∈ ids, ∃ child, tree.node? id = some child) :
    bindings tree ids = .error error ↔
      ∃ m, ((ids.filterMap tree.node?).filter fun child =>
          child.kind == .variableDeclaration).find? (isNameless tree) = some m ∧
        error = missing m := by
  induction ids with
  | nil => simp [bindings]
  | cons id ids ih =>
      obtain ⟨child, row⟩ := known id List.mem_cons_self
      have rest := ih fun other member => known other (List.mem_cons_of_mem id member)
      have step : bindings tree (id :: ids) =
          if child.kind = .variableDeclaration then do
            let name ← requireName tree child
            return ⟨name, child.span⟩ :: (← bindings tree ids)
          else bindings tree ids := by
        rw [bindings, SyntaxTree.node_eq_ok_iff.mpr row]
        rfl
      rw [step, List.filterMap_cons_some row]
      by_cases isBinding : child.kind = .variableDeclaration
      · rw [if_pos isBinding, List.filter_cons_of_pos (by simp [isBinding]), List.find?_cons]
        cases nameless : isNameless tree child with
        | true =>
            rw [requireName_eq_error_iff.mpr ⟨nameless, rfl⟩]
            simp [bind, Except.bind, eq_comm]
        | false =>
            have named : (tree.nameOf? child).isSome = true := by
              simpa [isNameless, Option.isSome_iff_ne_none] using nameless
            obtain ⟨name, read⟩ := requireName_ok named
            rw [read, ← rest]
            exact bind_eq_error_iff_left fun bound _ => ⟨_, rfl⟩
      · rw [if_neg isBinding, List.filter_cons_of_neg (by simpa using isBinding), rest]

theorem ofNode_eq_error_iff (legible : Legible tree n) :
    ofNode tree n = .error error ↔
      ∃ m, (namesRead tree n).find? (isNameless tree) = some m ∧ error = missing m := by
  have own : ∀ next : String → Except TreeError (Option Declaration),
      (∀ name, requireName tree n = .ok name → ∃ declaration, next name = .ok declaration) →
      (requireName tree n >>= next = .error error ↔
        ∃ m, [n].find? (isNameless tree) = some m ∧ error = missing m) := by
    intro next reads
    rw [bind_eq_error_iff_left reads, requireName_eq_error_iff]
    cases nameless : isNameless tree n <;> simp [nameless]
  have spanned : ∀ name, requireName tree n = .ok name → ∃ span, requireNameSpan n = .ok span := by
    intro name read
    have named : (tree.nameOf? n).isSome = true := by
      rw [requireName_eq_ok_iff.mp read]
      rfl
    exact requireNameSpan_ok named
  cases kind : n.kind with
  | sourceFile | moduleBlock | variableDeclaration | other => simp [ofNode, namesRead, kind]
  | classDeclaration | interfaceDeclaration | enumDeclaration | moduleDeclaration =>
      simp only [ofNode, namesRead, kind]
      exact own _ fun name _ => ⟨_, rfl⟩
  | methodDeclaration | propertyDeclaration =>
      simp only [ofNode, namesRead, kind]
      apply own
      intro name read
      obtain ⟨span, isSpan⟩ := spanned name read
      exact ⟨_, by rw [isSpan]; rfl⟩
  | variableStatement =>
      simp only [ofNode, namesRead, kind]
      have around : ∀ up, n.parent = some up → (tree.node? up).isSome = true := by
        intro up above
        exact Option.isSome_iff_exists.mpr (legible.parent up above)
      obtain ⟨parent, isParent⟩ := parentKind_ok around
      rw [isParent, ← bindings_eq_error_iff legible.children]
      exact bind_eq_error_iff_left fun bound _ => ⟨_, rfl⟩

end Declaration

variable {tree : SyntaxTree} (tips : Tips)

theorem findingsAt_eq_error_iff {error : TreeError} {id : NodeId} {n : Node}
    (row : tree.node? id = some n) (legible : Legible tree n) :
    findingsAt tips tree id = .error error ↔
      ∃ m, (namesRead tree n).find? (isNameless tree) = some m ∧ error = missing m := by
  rw [findingsAt_of_node row, map_eq_error_iff, Declaration.ofNode_eq_error_iff legible]

theorem mapM_findingsAt_eq_error_iff {error : TreeError} {ids : List NodeId}
    (legible : ∀ id ∈ ids, ∃ n, tree.node? id = some n ∧ Legible tree n) :
    ids.mapM (findingsAt tips tree) = .error error ↔
      ∃ m, ((ids.filterMap tree.node?).flatMap (namesRead tree)).find? (isNameless tree) = some m ∧
        error = missing m := by
  induction ids with
  | nil => simp [pure, Except.pure]
  | cons id ids ih =>
      obtain ⟨n, row, here⟩ := legible id List.mem_cons_self
      have rest := ih fun other member => legible other (List.mem_cons_of_mem id member)
      rw [List.mapM_cons, List.filterMap_cons_some row, List.flatMap_cons, List.find?_append]
      cases found : (namesRead tree n).find? (isNameless tree) with
      | some m =>
          rw [(findingsAt_eq_error_iff tips row here).mpr ⟨m, found, rfl⟩]
          simp [bind, Except.bind, eq_comm]
      | none =>
          cases read : findingsAt tips tree id with
          | error error =>
              obtain ⟨m, impossible, _⟩ := (findingsAt_eq_error_iff tips row here).mp read
              rw [found] at impossible
              cases impossible
          | ok findings =>
              rw [Option.none_or, ← rest]
              exact bind_eq_error_iff_left fun rows _ => ⟨_, rfl⟩

/-- The check of a tree fails exactly if a name that it reads is missing, and its error is about the
first of them. -/
theorem check_eq_error_iff (linked : Linked tree) {error : TreeError} :
    check tips tree = .error error ↔
      ∃ m, (readNodes tree).find? (isNameless tree) = some m ∧ error = missing m := by
  have legible : ∀ id ∈ tree.preorder, ∃ n, tree.node? id = some n ∧ Legible tree n := by
    intro id member
    have connected := (linked.mem_preorder_iff id).mp member
    obtain ⟨n, row⟩ := connected.known linked
    exact ⟨n, row, linked.legible connected row⟩
  rw [check_eq_mapM, map_eq_error_iff, mapM_findingsAt_eq_error_iff tips legible, readNodes]

theorem mem_readNodes (linked : Linked tree) {m : Node} (member : m ∈ readNodes tree) :
    ∃ id, tree.Connected id ∧ tree.node? id = some m ∧ m.kind.requiresName = true := by
  simp only [readNodes, List.mem_flatMap, List.mem_filterMap] at member
  obtain ⟨n, ⟨id, visited, row⟩, asked⟩ := member
  have connected := (linked.mem_preorder_iff id).mp visited
  cases kind : n.kind with
  | sourceFile | moduleBlock | variableDeclaration | other => simp [namesRead, kind] at asked
  | classDeclaration | interfaceDeclaration | enumDeclaration | moduleDeclaration
  | methodDeclaration | propertyDeclaration =>
      simp only [namesRead, kind, List.mem_singleton] at asked
      subst asked
      exact ⟨id, connected, row, by rw [kind]; rfl⟩
  | variableStatement =>
      simp only [namesRead, kind, List.mem_filter, List.mem_filterMap, beq_iff_eq] at asked
      obtain ⟨⟨child, inside, childRow⟩, isBinding⟩ := asked
      exact ⟨child, connected.of_child linked row inside, childRow, by rw [isBinding]; rfl⟩

end NamingLint.Convention
