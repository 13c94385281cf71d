import Mathlib.Data.List.Sort
import NamingLint.Proofs.Syntax.Connected

/-! Trees that grow below the nodes they have.

When every node is added below an earlier one, the tree is one piece. The walk from the root is then the
recursive listing of the whole tree: it takes a node, and then the subtrees of its children in the order
in which these were added. -/

namespace NamingLint.SyntaxTree

open Syntax

/-- The trees over a source text that calls build when each node is added below one that exists. -/
inductive Grown (source : String) : SyntaxTree → Prop
  | fresh : Grown source (.ofSource source)
  | push {tree : SyntaxTree} (grown : Grown source tree) (parent : NodeId) (kind : Kind) (span : Span)
      (earlier : parent < tree.size) : Grown source (tree.push parent kind span)
  | setName {tree : SyntaxTree} (grown : Grown source tree) (id : NodeId) (span : Span) :
      Grown source (tree.setName id span)
  | setModifiers {tree : SyntaxTree} (grown : Grown source tree) (id : NodeId)
      (modifiers : Modifiers) : Grown source (tree.setModifiers id modifiers)

variable {source : String} {tree : SyntaxTree}

theorem Grown.built (grown : Grown source tree) : Built source tree := by
  induction grown with
  | fresh => exact .fresh
  | push grown parent kind span earlier ih => exact ih.push parent kind span
  | setName grown id span ih => exact ih.setName id span
  | setModifiers grown id modifiers ih => exact ih.setModifiers id modifiers

theorem Grown.pushNode (grown : Grown source tree) {parent : NodeId} (earlier : parent < tree.size)
    (kind : Kind) (span : Span) (nameSpan : Option Span) (modifiers : Modifiers) :
    Grown source (Syntax.pushNode tree parent kind span nameSpan modifiers) := by
  have pushed := grown.push parent kind span earlier
  cases nameSpan with
  | none => exact pushed.setModifiers _ _
  | some name => exact (pushed.setName _ _).setModifiers _ _

theorem size_pushNode (tree : SyntaxTree) {parent : NodeId} (inside : parent < tree.size)
    (kind : Kind) (span : Span) (nameSpan : Option Span) (modifiers : Modifiers) :
    (Syntax.pushNode tree parent kind span nameSpan modifiers).size = tree.size + 1 := by
  have lengths := congrArg List.length
    (pushNode_nodes tree parent kind span nameSpan modifiers inside)
  simpa [size] using lengths

theorem size_layOut (tree : SyntaxTree) {parent : NodeId} (inside : parent < tree.size)
    (outline : Outline) : (outline.layOut tree parent).size = tree.size + outline.size := by
  have lengths := congrArg List.length (Outline.layOut_nodes tree parent inside outline)
  simpa [size, Outline.length_listing] using lengths

mutual

theorem Grown.layOut {tree : SyntaxTree} (grown : Grown source tree) {parent : NodeId}
    (earlier : parent < tree.size) :
    (outline : Outline) → Grown source (outline.layOut tree parent)
  | .node kind span nameSpan modifiers children => by
      rw [Outline.layOut]
      apply Grown.layOutAll (grown.pushNode earlier kind span nameSpan modifiers)
      rw [size_pushNode tree earlier]
      exact Nat.lt_succ_self _

theorem Grown.layOutAll {tree : SyntaxTree} (grown : Grown source tree) {parent : NodeId}
    (earlier : parent < tree.size) :
    (outlines : List Outline) → Grown source (Outline.layOutAll tree parent outlines)
  | [] => grown
  | outline :: outlines => by
      rw [Outline.layOutAll]
      apply Grown.layOutAll (grown.layOut earlier outline)
      rw [size_layOut tree earlier]
      exact Nat.lt_add_right _ earlier

end

theorem grown_treeOfOutlines (source : String) (outlines : List Outline) :
    Grown source (treeOfOutlines source outlines) :=
  Grown.fresh.layOutAll (by simp [size, ofSource, root]) outlines

theorem Below.of_parents {wider : SyntaxTree} {top id : Nat}
    (keeps : ∀ id, id < tree.size → wider.parentOf? id = tree.parentOf? id)
    (below : tree.Below top id) : wider.Below top id := by
  induction below with
  | self => exact .self
  | child isParent later below ih =>
      have within := parentOf?_eq_some_lt isParent
      exact .child ((keeps _ within).trans isParent) later ih

theorem Grown.connected (grown : Grown source tree) {id : Nat} (within : id < tree.size) :
    tree.Connected id := by
  induction grown generalizing id with
  | fresh =>
      have first : id = root := Nat.lt_one_iff.mp within
      rw [first]
      exact .self
  | @push tree grown parent kind span earlier ih =>
      have keeps : ∀ old, old < tree.size →
          (tree.push parent kind span).parentOf? old = tree.parentOf? old := by
        intro old isOld
        rw [parentOf?_push, if_neg (Nat.ne_of_lt isOld)]
      rw [size_push] at within
      by_cases isNew : id = tree.size
      · have isParent : (tree.push parent kind span).parentOf? id = some parent := by
          rw [parentOf?_push, if_pos isNew]
        have later : parent < id := isNew ▸ earlier
        exact Below.child isParent later ((ih earlier).of_parents keeps)
      · exact (ih (by omega)).of_parents keeps
  | setName grown target span ih =>
      rw [SyntaxTree.setName, size_update] at within
      exact (ih within).of_parents fun _ _ => parentOf?_update fun _ => rfl
  | setModifiers grown target modifiers ih =>
      rw [SyntaxTree.setModifiers, size_update] at within
      exact (ih within).of_parents fun _ _ => parentOf?_update fun _ => rfl

theorem Grown.childrenOf_eq (grown : Grown source tree) (id : Nat) :
    tree.childrenOf id = (List.range tree.size).filter (tree.parentOf? · = some id) := by
  have linked := grown.built.linked
  apply (linked.ordered id).eq_of_mem_iff (List.pairwise_lt_range.filter _)
  intro c
  rw [List.mem_filter, List.mem_range, decide_eq_true_iff]
  constructor
  · intro member
    have isParent := (linked.child id c member).2
    exact ⟨parentOf?_eq_some_lt isParent, isParent⟩
  · intro recorded
    have later := ((grown.connected recorded.1).parent linked recorded.2).1
    exact linked.listed c id recorded.2 later

theorem Linked.preorder_eq_subtree (linked : Linked tree) :
    tree.preorder = tree.subtree SyntaxTree.root := by
  have visits := linked.visits_subtree SyntaxTree.root .self .done
  rw [List.append_nil] at visits
  exact linked.visits_preorder.unique visits

theorem Linked.mem_subtree_iff (linked : Linked tree) {top : Nat} (connected : tree.Connected top)
    (id : Nat) : id ∈ tree.subtree top ↔ tree.Below top id := by
  have visits := linked.visits_subtree top connected .done
  rw [List.append_nil] at visits
  rw [visits.mem_iff linked (by simpa using connected)]
  simp

theorem Linked.subtree_infix (linked : Linked tree) {id : Nat} (connected : tree.Connected id) :
    tree.subtree id <:+: tree.preorder := by
  induction connected with
  | self =>
      have whole := linked.preorder_eq_subtree
      exact ⟨[], [], by rw [List.nil_append, List.append_nil, whole]⟩
  | @child id up isParent later below ih =>
      have member := linked.listed id up isParent later
      have inUpper : tree.subtree id <:+: tree.subtree up := by
        rw [linked.subtree_eq below]
        exact List.infix_cons (List.infix_flatMap_of_mem member tree.subtree)
      exact inUpper.trans ih

/-- A node stands first in its subtree, and its subtree stands in one piece. -/
theorem Linked.idxOf_lt (linked : Linked tree) {top id : Nat} (connected : tree.Connected top)
    (below : tree.Below top id) (differ : id ≠ top) :
    tree.preorder.idxOf top < tree.preorder.idxOf id := by
  obtain ⟨before, behind, whole⟩ := linked.subtree_infix connected
  have member := (linked.mem_subtree_iff connected id).mpr below
  have nodup := linked.preorder_nodup
  rw [linked.subtree_eq connected] at whole member
  rw [← whole, List.append_assoc] at nodup ⊢
  have apart := List.disjoint_of_nodup_append nodup
  have topLate : top ∉ before := fun early => apart early (by simp)
  have idLate : id ∉ before := fun early => apart early (List.mem_append_left _ member)
  rw [List.idxOf_append_of_notMem topLate, List.idxOf_append_of_notMem idLate, List.cons_append,
    List.idxOf_cons_self, List.idxOf_cons_ne _ (Ne.symm differ)]
  omega

theorem Grown.preorder_perm (grown : Grown source tree) :
    tree.preorder.Perm (List.range tree.size) := by
  have linked := grown.built.linked
  rw [List.perm_ext_iff_of_nodup linked.preorder_nodup List.nodup_range]
  intro id
  rw [linked.mem_preorder_iff, List.mem_range]
  exact ⟨fun connected => connected.lt_size linked, grown.connected⟩

/-- The walk over a tree that grew below its own nodes is the recursive listing of all of it: each node
is followed by the subtrees of the nodes that were added below it, in that order. Every node is listed
once and before the nodes below it, and what is below a node stands in one piece. -/
theorem grown_preorder_is_depth_first (grown : Grown source tree) :
    (∀ id, tree.childrenOf id = (List.range tree.size).filter (tree.parentOf? · = some id)) ∧
    (∀ id < tree.size, tree.subtree id = id :: (tree.childrenOf id).flatMap tree.subtree) ∧
    tree.preorder = tree.subtree root ∧
    tree.preorder.Perm (List.range tree.size) ∧
    ∀ top < tree.size, tree.subtree top <:+: tree.preorder ∧
      (∀ id, id ∈ tree.subtree top ↔ tree.Below top id) ∧
      ∀ id, tree.Below top id → id ≠ top → tree.preorder.idxOf top < tree.preorder.idxOf id := by
  have linked := grown.built.linked
  refine ⟨grown.childrenOf_eq, ?_, linked.preorder_eq_subtree, grown.preorder_perm, ?_⟩
  · intro id within
    exact linked.subtree_eq (grown.connected within)
  · intro top within
    have connected := grown.connected within
    exact ⟨linked.subtree_infix connected, linked.mem_subtree_iff connected,
      fun id => linked.idxOf_lt connected⟩

def levelTree : SyntaxTree :=
  ((((ofSource "(a)(b)").push 0 .moduleBlock ⟨0, 3⟩).push 0 .moduleBlock ⟨3, 3⟩).push 1
    .other ⟨1, 1⟩).push 2 .other ⟨4, 1⟩

theorem levelTree_grown : Grown "(a)(b)" levelTree :=
  .push (.push (.push (.push .fresh _ _ _ (by decide)) _ _ _ (by decide)) _ _ _ (by decide)) _ _ _
    (by decide)

theorem levelTree_walk :
    Grown "(a)(b)" levelTree ∧ levelTree.preorder = [0, 1, 3, 2, 4] ∧
    levelTree.preorder = levelTree.subtree root ∧ levelTree.subtree 1 <:+: levelTree.preorder := by
  obtain ⟨_, _, listed, _, pieces⟩ := grown_preorder_is_depth_first levelTree_grown
  have walk : levelTree.preorder = [0, 1, 3, 2, 4] := by decide +kernel
  exact ⟨levelTree_grown, walk, listed, (pieces 1 (by decide)).1⟩

end NamingLint.SyntaxTree
