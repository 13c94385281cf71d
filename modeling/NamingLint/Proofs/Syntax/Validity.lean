import NamingLint.Proofs.Except
import NamingLint.Proofs.Text.Boundary
import NamingLint.Syntax.Validity

/-! What a valid tree is, node by node. -/

namespace NamingLint

theorem Span.contains_iff {outer inner : Span} :
    outer.contains inner = true ↔ outer.offset ≤ inner.offset ∧ inner.stop ≤ outer.stop := by
  simp [Span.contains]

namespace SyntaxTree

open Syntax
open Text (IsBoundary)

theorem slice?_isSome_iff {tree : SyntaxTree} {span : Span} :
    (tree.slice? span).isSome = true ↔
      IsBoundary tree.source.toList span.offset ∧ IsBoundary tree.source.toList span.stop := by
  rw [slice?, Option.isSome_map]
  exact Text.slice?_isSome_iff

theorem node_eq_ok_iff {tree : SyntaxTree} {id : NodeId} {n : Node} :
    tree.node id = .ok n ↔ tree.node? id = some n := by
  rw [node]
  split <;> simp_all

/-- A node that passes the check: its span cuts the source, lies inside that of its parent and holds
the name span, and there is a name span if its kind asks for one. -/
structure Sound (tree : SyntaxTree) (n : Node) : Prop where
  cuts : (tree.slice? n.span).isSome = true
  inside : ∀ up, n.parent = some up →
    ∃ outer, tree.node? up = some outer ∧ outer.span.contains n.span = true
  holds : ∀ span, n.nameSpan = some span → n.span.contains span = true
  named : n.kind.requiresName = true → n.nameSpan.isSome = true

theorem holdsName_iff {n : Node} :
    holdsName n = true ↔ ∀ span, n.nameSpan = some span → n.span.contains span = true := by
  rw [holdsName]
  split <;> simp_all

theorem insideParent_eq_ok_iff {tree : SyntaxTree} {n : Node} :
    tree.insideParent n = .ok true ↔ ∀ up, n.parent = some up →
      ∃ outer, tree.node? up = some outer ∧ outer.span.contains n.span = true := by
  rw [insideParent]
  split
  · simp_all
  · rename_i up isParent
    simp [isParent, bind_eq_ok_iff, node_eq_ok_iff, pure, Except.pure]

theorem validateNode_eq {tree : SyntaxTree} {id : NodeId} {n : Node} {inside : Bool}
    (row : tree.node? id = some n) (known : tree.insideParent n = .ok inside) :
    tree.validateNode id =
      if (tree.slice? n.span).isSome && inside && holdsName n then
        if n.kind.requiresName && n.nameSpan.isNone then .error (.missingName n.kind n.span.offset)
        else .ok ()
      else .error (if overflows n then .overflow else .spanOutOfBounds n.kind n.span.offset) := by
  rw [validateNode, node_eq_ok_iff.mpr row]
  simp only [bind, Except.bind, known]
  cases (tree.slice? n.span).isSome && inside && holdsName n <;> rfl

theorem validateNode_eq_ok_iff {tree : SyntaxTree} {id : NodeId} :
    tree.validateNode id = .ok () ↔ ∃ n, tree.node? id = some n ∧ tree.Sound n := by
  constructor
  · intro passed
    have steps := passed
    rw [validateNode, bind_eq_ok_iff] at steps
    obtain ⟨n, row, steps⟩ := steps
    obtain ⟨inside, known, _⟩ := bind_eq_ok_iff.mp steps
    rw [validateNode_eq (node_eq_ok_iff.mp row) known] at passed
    split at passed
    · rename_i spans
      simp only [Bool.and_eq_true] at spans
      obtain ⟨⟨cuts, rfl⟩, holds⟩ := spans
      split at passed
      · cases passed
      · rename_i names
        refine ⟨n, node_eq_ok_iff.mp row, cuts, insideParent_eq_ok_iff.mp known,
          holdsName_iff.mp holds, ?_⟩
        intro required
        simpa [required, Option.isSome_iff_ne_none] using names
    · cases passed
  · rintro ⟨n, row, sound⟩
    have named : ¬ (n.kind.requiresName && n.nameSpan.isNone) = true := by
      intro unnamed
      rw [Bool.and_eq_true] at unnamed
      have isNamed := sound.named unnamed.1
      rw [Option.isNone_iff_eq_none.mp unnamed.2] at isNamed
      cases isNamed
    rw [validateNode_eq row (insideParent_eq_ok_iff.mpr sound.inside), sound.cuts,
      holdsName_iff.mpr sound.holds, if_pos (by rfl), if_neg named]

theorem validate_eq_ok_iff {tree : SyntaxTree} :
    tree.validate = .ok () ↔
      ∀ id ∈ tree.preorder, ∃ n, tree.node? id = some n ∧ tree.Sound n := by
  rw [validate, List.forM_eq_forM, forM_eq_ok_iff]
  simp only [validateNode_eq_ok_iff]

end SyntaxTree

end NamingLint
