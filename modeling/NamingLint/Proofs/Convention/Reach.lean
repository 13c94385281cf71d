import NamingLint.Proofs.Convention.Names
import NamingLint.Proofs.Convention.Resemblance
import NamingLint.Proofs.Syntax.Offenders

/-! What the walk over a tree, its validity and its check see of it: the connected nodes and nothing else.

So no look at a tree leaves it, and what is pushed below a node that is not connected stays unseen. -/

namespace NamingLint

open Syntax
open Convention (Tips)

namespace SyntaxTree

variable {tree other : SyntaxTree}

/-- The second tree has the connected nodes of the first, whatever else it has. -/
structure Extends (tree other : SyntaxTree) : Prop where
  source : other.source = tree.source
  rows : ∀ id, tree.Connected id → other.node? id = tree.node? id

theorem extends_push (linked : Linked tree) (parent : NodeId) (kind : Kind) (span : Span)
    (outside : ¬ tree.Connected parent) : Extends tree (tree.push parent kind span) := by
  constructor
  · exact push_source tree parent kind span
  · intro id connected
    have notParent : id ≠ parent := fun same => outside (same ▸ connected)
    exact node?_push_of_ne tree parent id kind span notParent (connected.lt_size linked)

namespace Extends

theorem visits (wider : Extends tree other) (linked : Linked tree) {pending ids : List NodeId}
    (walk : tree.Visits pending ids) (connected : ∀ p ∈ pending, tree.Connected p) :
    other.Visits pending ids := by
  induction walk with
  | done => exact .done
  | next row rest ih =>
      have here := connected _ List.mem_cons_self
      have otherRow := (wider.rows _ here).trans row
      exact .next otherRow (ih (Visits.pending_connected linked row connected))

theorem preorder_eq (wider : Extends tree other) (linked : Linked tree) (otherLinked : Linked other) :
    other.preorder = tree.preorder := by
  have walk := wider.visits linked linked.visits_preorder connected_root
  exact otherLinked.visits_preorder.unique walk

theorem resembles (wider : Extends tree other) (linked : Linked tree) {id : NodeId}
    (connected : tree.Connected id) : Resembles tree other id id := by
  have contents : ∀ seen, tree.Connected seen → other.contentOf? seen = tree.contentOf? seen := by
    intro seen isSeen
    rw [contentOf?, wider.rows seen isSeen, contentOf?]
  refine ⟨contents id connected, ?_, ?_⟩
  · apply around?_congr
    · rw [parentOf?, wider.rows id connected, parentOf?]
    · intro up isParent
      rw [frameOf?_eq_content, contents up (connected.parent linked isParent).2, frameOf?_eq_content]
  · intro _
    obtain ⟨n, row⟩ := connected.known linked
    rw [childrenOf, wider.rows id connected, ← childrenOf, childrenOf_of_node row]
    apply declarations_congr
    intro c member
    exact contents c (connected.of_child linked row member)

theorem verdicts_eq (wider : Extends tree other) (linked : Linked tree) (otherLinked : Linked other) :
    other.validate = tree.validate ∧
      ∀ tips, Convention.check tips other = Convention.check tips tree := by
  have walk : other.preorder = tree.preorder.map fun id => id := by
    rw [List.map_id', wider.preorder_eq linked otherLinked]
  apply linked.verdicts_eq otherLinked wider.source walk
  intro id member
  exact wider.resembles linked ((linked.mem_preorder_iff id).mp member)

theorem validate_eq (wider : Extends tree other) (linked : Linked tree) (otherLinked : Linked other) :
    other.validate = tree.validate :=
  (wider.verdicts_eq linked otherLinked).1

theorem check_eq (wider : Extends tree other) (linked : Linked tree) (otherLinked : Linked other)
    (tips : Tips) : Convention.check tips other = Convention.check tips tree :=
  (wider.verdicts_eq linked otherLinked).2 tips

end Extends

theorem Linked.validate_ne_noSuchNode (linked : Linked tree) (size id : Nat) :
    tree.validate ≠ .error (.noSuchNode size id) := by
  intro failed
  obtain ⟨_, _, _, _, _, n, _, fault⟩ := linked.validate_eq_error_iff.mp failed
  cases fault

theorem Linked.check_ne_noSuchNode (linked : Linked tree) (tips : Tips) (size id : Nat) :
    Convention.check tips tree ≠ .error (.noSuchNode size id) := by
  intro failed
  obtain ⟨m, _, impossible⟩ := (Convention.check_eq_error_iff tips linked).mp failed
  cases impossible

/-- However a tree is built, the walk from its root ends, lists each connected node once and nothing
else, and meets no link that leads out of the tree; nor does validation or the check. What is pushed
below a node that is not connected changes none of them. -/
theorem built_walk_lists_connected {source : String} {tree : SyntaxTree} (built : Built source tree) :
    tree.Visits [root] tree.preorder ∧ tree.preorder.Nodup ∧
    (∀ id, id ∈ tree.preorder ↔ tree.Connected id) ∧
    (∀ id ∈ tree.preorder, ∃ n, tree.node? id = some n ∧ tree.Legible n) ∧
    (∀ size id, tree.validate ≠ .error (.noSuchNode size id) ∧
      ∀ tips, Convention.check tips tree ≠ .error (.noSuchNode size id)) ∧
    ∀ parent kind span, ¬ tree.Connected parent →
      (tree.push parent kind span).preorder = tree.preorder ∧
      (tree.push parent kind span).validate = tree.validate ∧
      ∀ tips, Convention.check tips (tree.push parent kind span) = Convention.check tips tree := by
  have linked := built.linked
  refine ⟨linked.visits_preorder, linked.preorder_nodup, linked.mem_preorder_iff, ?_, ?_, ?_⟩
  · intro id member
    have connected := (linked.mem_preorder_iff id).mp member
    obtain ⟨n, row⟩ := connected.known linked
    exact ⟨n, row, linked.legible connected row⟩
  · intro size id
    exact ⟨linked.validate_ne_noSuchNode size id, fun tips => linked.check_ne_noSuchNode tips size id⟩
  · intro parent kind span outside
    have wider := extends_push linked parent kind span outside
    have pushed := (built.push parent kind span).linked
    exact ⟨wider.preorder_eq linked pushed, wider.validate_eq linked pushed,
      wider.check_eq linked pushed⟩

/-- A tree with a node whose parent came later, one that is its own child, and one below the first. -/
def scatteredTree : SyntaxTree :=
  ((((((ofSource "let Ab").push 6 .classDeclaration ⟨9, 9⟩).push 2 .other ⟨0, 1⟩).push 0
    .variableStatement ⟨0, 6⟩).push 1 .variableDeclaration ⟨4, 2⟩).push 3 .variableDeclaration
    ⟨4, 2⟩).push 0 .other ⟨0, 0⟩ |>.setName 5 ⟨4, 2⟩

theorem scatteredTree_built : Built "let Ab" scatteredTree :=
  .setName (.push (.push (.push (.push (.push (.push .fresh ..) ..) ..) ..) ..) ..) ..

theorem scatteredTree_walk :
    scatteredTree.preorder = [0, 3, 5, 6] ∧ scatteredTree.validate = .ok () ∧
    ¬ scatteredTree.Connected 1 ∧
    (scatteredTree.push 1 .classDeclaration ⟨7, 7⟩).preorder = [0, 3, 5, 6] ∧
    (scatteredTree.push 1 .classDeclaration ⟨7, 7⟩).validate = .ok () := by
  obtain ⟨_, _, listed, _, _, unseen⟩ := built_walk_lists_connected scatteredTree_built
  have walk : scatteredTree.preorder = [0, 3, 5, 6] := by decide +kernel
  have valid : scatteredTree.validate = .ok () := by decide +kernel
  have outside : ¬ scatteredTree.Connected 1 := by
    rw [← listed, walk]
    decide
  obtain ⟨samePreorder, sameValidity, _⟩ := unseen 1 .classDeclaration ⟨7, 7⟩ outside
  exact ⟨walk, valid, outside, samePreorder.trans walk, sameValidity.trans valid⟩

end SyntaxTree

end NamingLint
