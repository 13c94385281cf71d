import Mathlib.Logic.Relation
import NamingLint.Proofs.Syntax.Connected

/-! Spans of a valid tree from a node up to the root.

The check of a tree compares a node with its recorded parent only. Each node on the way up is connected
like the first, so it is checked as well, and the comparisons chain. -/

namespace NamingLint

theorem Span.contains_refl (span : Span) : span.contains span = true :=
  Span.contains_iff.mpr ⟨Nat.le_refl _, Nat.le_refl _⟩

theorem Span.contains_trans {outer middle inner : Span} (first : outer.contains middle = true)
    (second : middle.contains inner = true) : outer.contains inner = true := by
  rw [Span.contains_iff] at first second ⊢
  omega

namespace SyntaxTree

open Syntax

/-- The second node is the first or one that the recorded parents lead to from it. -/
def Reaches (tree : SyntaxTree) : NodeId → NodeId → Prop :=
  Relation.ReflTransGen fun id up => tree.parentOf? id = some up

variable {tree : SyntaxTree}

theorem Connected.reaches (linked : Linked tree) {id up : NodeId} (connected : tree.Connected id)
    (reaches : tree.Reaches id up) : tree.Connected up := by
  induction reaches with
  | refl => exact connected
  | tail _ isParent ih => exact (ih.parent linked isParent).2

theorem Linked.parent_contains (linked : Linked tree) (valid : tree.validate = .ok ())
    {id up : NodeId} {n outer : Node} (connected : tree.Connected id) (row : tree.node? id = some n)
    (isParent : n.parent = some up) (outerRow : tree.node? up = some outer) {span : Span}
    (inside : n.span.contains span = true) : outer.span.contains span = true := by
  obtain ⟨found, foundRow, holds⟩ := (linked.sound valid connected row).inside up isParent
  rw [outerRow, Option.some.injEq] at foundRow
  subst foundRow
  exact Span.contains_trans holds inside

theorem Linked.child_contained (linked : Linked tree) (valid : tree.validate = .ok ())
    {id c : NodeId} {n child : Node} (connected : tree.Connected id) (row : tree.node? id = some n)
    (member : c ∈ n.children) (childRow : tree.node? c = some child) :
    n.span.contains child.span = true := by
  have isParent := (connected.child linked row member).2
  rw [parentOf?_of_node childRow] at isParent
  exact linked.parent_contains valid (connected.of_child linked row member) childRow isParent row
    (Span.contains_refl child.span)

theorem Linked.ancestor_contains (linked : Linked tree) (valid : tree.validate = .ok ())
    {id up : NodeId} {n outer : Node} (connected : tree.Connected id) (row : tree.node? id = some n)
    (reaches : tree.Reaches id up) (outerRow : tree.node? up = some outer) {span : Span}
    (inside : n.span.contains span = true) : outer.span.contains span = true := by
  induction reaches using Relation.ReflTransGen.head_induction_on generalizing n with
  | refl =>
      rw [row, Option.some.injEq] at outerRow
      exact outerRow ▸ inside
  | head isParent _ ih =>
      have upConnected := (connected.parent linked isParent).2
      obtain ⟨next, nextRow⟩ := upConnected.known linked
      rw [parentOf?_of_node row] at isParent
      exact ih upConnected nextRow (linked.parent_contains valid connected row isParent nextRow inside)

end SyntaxTree

end NamingLint
