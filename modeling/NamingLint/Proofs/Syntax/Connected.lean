import Mathlib.Data.List.Perm.Subperm
import NamingLint.Proofs.Syntax.Links
import NamingLint.Proofs.Syntax.Validity

/-! The part of a tree that hangs together below its root, and that pre-order lists just that part.

The walk over a tree keeps no record of where it has been. It ends, and comes to no node twice, because
parents come before their children wherever the root can be reached. -/

namespace NamingLint.SyntaxTree

open Syntax

/-- The nodes that hang below `top`: each records an earlier node that does, up to `top` itself. -/
inductive Below (tree : SyntaxTree) (top : Nat) : Nat → Prop
  | self : Below tree top top
  | child {id up : Nat} (isParent : tree.parentOf? id = some up) (later : up < id)
      (below : Below tree top up) : Below tree top id

def Connected (tree : SyntaxTree) (id : NodeId) : Prop := tree.Below root id

/-- What a walk lists that starts with some pending nodes: it takes the first, whose children come next,
until nothing is pending. -/
inductive Visits (tree : SyntaxTree) : List NodeId → List NodeId → Prop
  | done : Visits tree [] []
  | next {id : NodeId} {n : Node} {pending ids : List NodeId} (row : tree.node? id = some n)
      (rest : Visits tree (n.children ++ pending) ids) : Visits tree (id :: pending) (id :: ids)

variable {tree : SyntaxTree}

theorem childrenOf_of_node {id : NodeId} {n : Node} (row : tree.node? id = some n) :
    tree.childrenOf id = n.children := by
  simp only [childrenOf, row]

theorem parentOf?_of_node {id : NodeId} {n : Node} (row : tree.node? id = some n) :
    tree.parentOf? id = n.parent := by
  simp only [parentOf?, row, Option.bind_some]

namespace Below

theorem le {top id : Nat} (below : tree.Below top id) : top ≤ id := by
  induction below with
  | self => exact Nat.le_refl top
  | child isParent later below ih => omega

theorem trans {top middle id : Nat} (first : tree.Below top middle) (second : tree.Below middle id) :
    tree.Below top id := by
  induction second with
  | self => exact first
  | child isParent later below ih => exact .child isParent later ih

theorem linear {first second id : Nat} (left : tree.Below first id) (right : tree.Below second id) :
    tree.Below first second ∨ tree.Below second first := by
  induction left with
  | self => exact Or.inr right
  | child isParent later below ih =>
      cases right with
      | self => exact Or.inl (.child isParent later below)
      | child isParent' later' below' =>
          rw [isParent, Option.some.injEq] at isParent'
          subst isParent'
          exact ih below'

end Below

def Apart (tree : SyntaxTree) (first second : Nat) : Prop :=
  ∀ id, tree.Below first id → ¬ tree.Below second id

theorem not_below_sibling {first second up : Nat} (isParent : tree.parentOf? second = some up)
    (later : up < first) (differ : first ≠ second) : ¬ tree.Below first second := by
  intro below
  cases below with
  | self => exact differ rfl
  | child isParent' later' below =>
      rw [isParent, Option.some.injEq] at isParent'
      subst isParent'
      have before := below.le
      omega

theorem siblings_apart {first second up : Nat} (left : tree.parentOf? first = some up)
    (right : tree.parentOf? second = some up) (afterFirst : up < first) (afterSecond : up < second)
    (differ : first ≠ second) : tree.Apart first second := by
  intro id below below'
  rcases below.linear below' with inside | inside
  · exact not_below_sibling right afterFirst differ inside
  · exact not_below_sibling left afterSecond (Ne.symm differ) inside

namespace Connected

theorem lt_size (linked : Linked tree) {id : Nat} (connected : tree.Connected id) :
    id < tree.size := by
  cases connected with
  | self => exact linked.root.1
  | child isParent later below => exact parentOf?_eq_some_lt isParent

theorem known (linked : Linked tree) {id : Nat} (connected : tree.Connected id) :
    ∃ n, tree.node? id = some n := by
  apply Option.isSome_iff_exists.mp
  rw [node?_isSome_iff]
  exact connected.lt_size linked

theorem parent (linked : Linked tree) {id up : Nat} (connected : tree.Connected id)
    (isParent : tree.parentOf? id = some up) : up < id ∧ tree.Connected up := by
  cases connected with
  | self =>
      rw [linked.root.2] at isParent
      cases isParent
  | child isParent' later below =>
      rw [isParent, Option.some.injEq] at isParent'
      subst isParent'
      exact ⟨later, below⟩

theorem of_parent (linked : Linked tree) {id up : Nat} {n : Node} (connected : tree.Connected id)
    (row : tree.node? id = some n) (isParent : n.parent = some up) : tree.Connected up := by
  rw [← parentOf?_of_node row] at isParent
  exact (connected.parent linked isParent).2

theorem child (linked : Linked tree) {id c : Nat} {n : Node} (connected : tree.Connected id)
    (row : tree.node? id = some n) (member : c ∈ n.children) :
    id < c ∧ tree.parentOf? c = some id := by
  rw [← childrenOf_of_node row] at member
  have facts := linked.child id c member
  refine ⟨?_, facts.2⟩
  -- A connected node cannot be its own child, since its parent comes before it.
  by_contra notLater
  have same : c = id := by omega
  subst same
  have before := (connected.parent linked facts.2).1
  omega

theorem of_child (linked : Linked tree) {id c : Nat} {n : Node} (connected : tree.Connected id)
    (row : tree.node? id = some n) (member : c ∈ n.children) : tree.Connected c := by
  have facts := connected.child linked row member
  exact Below.child facts.2 facts.1 connected

end Connected

theorem Below.top_or_child (linked : Linked tree) {top id : Nat} (below : tree.Below top id) :
    id = top ∨ ∃ c ∈ tree.childrenOf top, tree.Below c id := by
  induction below with
  | self => exact Or.inl rfl
  | child isParent later below ih =>
      right
      rcases ih with same | inside
      · subst same
        exact ⟨_, linked.listed _ _ isParent later, .self⟩
      · obtain ⟨c, member, under⟩ := inside
        exact ⟨c, member, .child isParent later under⟩

namespace Visits

variable {pending ids : List NodeId}

theorem drain (visits : tree.Visits pending ids) (steps : Nat) (enough : ids.length ≤ steps) :
    tree.drain steps pending = ids := by
  induction visits generalizing steps with
  | done => cases steps <;> rfl
  | next row rest ih =>
      cases steps with
      | zero => simp at enough
      | succ steps =>
          simp only [List.length_cons, Nat.add_le_add_iff_right] at enough
          rw [SyntaxTree.drain, childrenOf_of_node row, ih steps enough]

theorem unique {others : List NodeId} (visits : tree.Visits pending ids)
    (again : tree.Visits pending others) : ids = others := by
  induction visits generalizing others with
  | done =>
      cases again
      rfl
  | next row rest ih =>
      cases again with
      | next row' rest' =>
          rw [row, Option.some.injEq] at row'
          subst row'
          rw [ih rest']

theorem pending_connected (linked : Linked tree) {first : NodeId} {n : Node}
    (row : tree.node? first = some n) (connected : ∀ p ∈ first :: pending, tree.Connected p) :
    ∀ p ∈ n.children ++ pending, tree.Connected p := by
  intro p member
  rcases List.mem_append.mp member with inside | outside
  · exact (connected first List.mem_cons_self).of_child linked row inside
  · exact connected p (List.mem_cons_of_mem first outside)

theorem mem_iff (linked : Linked tree) (visits : tree.Visits pending ids)
    (connected : ∀ p ∈ pending, tree.Connected p) (id : Nat) :
    id ∈ ids ↔ ∃ p ∈ pending, tree.Below p id := by
  induction visits with
  | done => simp
  | @next first n pending ids row rest ih =>
      have here := connected first List.mem_cons_self
      have later := pending_connected linked row connected
      rw [List.mem_cons, ih later]
      constructor
      · intro listed
        rcases listed with same | ⟨p, member, under⟩
        · exact ⟨first, List.mem_cons_self, same ▸ .self⟩
        · rcases List.mem_append.mp member with inside | outside
          · have facts := here.child linked row inside
            have step : tree.Below first p := .child facts.2 facts.1 .self
            exact ⟨first, List.mem_cons_self, step.trans under⟩
          · exact ⟨p, List.mem_cons_of_mem first outside, under⟩
      · intro found
        obtain ⟨p, member, under⟩ := found
        rcases List.mem_cons.mp member with same | outside
        · subst same
          rcases under.top_or_child linked with same | ⟨c, inside, deeper⟩
          · exact Or.inl same
          · rw [childrenOf_of_node row] at inside
            exact Or.inr ⟨c, List.mem_append_left pending inside, deeper⟩
        · exact Or.inr ⟨p, List.mem_append_right n.children outside, under⟩

/-- Pending nodes stay apart from each other: the children of the first replace it, and they are apart
from each other and from whatever was apart from their parent. -/
theorem nodup (linked : Linked tree) (visits : tree.Visits pending ids)
    (connected : ∀ p ∈ pending, tree.Connected p) (apart : pending.Pairwise tree.Apart) :
    ids.Nodup := by
  induction visits with
  | done => exact List.nodup_nil
  | @next first n pending ids row rest ih =>
      have here := connected first List.mem_cons_self
      have later := pending_connected linked row connected
      have fromFirst := (List.pairwise_cons.mp apart).1
      have siblings : n.children.Pairwise tree.Apart := by
        have ordered := linked.ordered first
        rw [childrenOf_of_node row] at ordered
        refine ordered.imp_of_mem ?_
        intro a b memberA memberB before
        have factsA := here.child linked row memberA
        have factsB := here.child linked row memberB
        exact siblings_apart factsA.2 factsB.2 factsA.1 factsB.1 (Nat.ne_of_lt before)
      have across : ∀ c ∈ n.children, ∀ p ∈ pending, tree.Apart c p := by
        intro c member p outside id under
        have facts := here.child linked row member
        have step : tree.Below first c := .child facts.2 facts.1 .self
        exact fromFirst p outside id (step.trans under)
      rw [List.nodup_cons]
      refine ⟨?_, ih later ?_⟩
      · intro again
        obtain ⟨p, member, under⟩ := (rest.mem_iff linked later first).mp again
        rcases List.mem_append.mp member with inside | outside
        · have after : first < p := (here.child linked row inside).1
          exact Nat.not_le_of_lt after under.le
        · exact fromFirst p outside first .self under
      · rw [List.pairwise_append]
        exact ⟨siblings, (List.pairwise_cons.mp apart).2, across⟩

end Visits

/-- A node and then, child by child, what is listed below it. The recursion goes to larger ids, as the
children of connected nodes have them. -/
def subtree (tree : SyntaxTree) (id : Nat) : List NodeId :=
  id :: (tree.childrenOf id).flatMap fun c =>
    if _later : id < c ∧ c < tree.size then tree.subtree c else []
termination_by tree.size - id

theorem Linked.subtree_eq (linked : Linked tree) {id : Nat} (connected : tree.Connected id) :
    tree.subtree id = id :: (tree.childrenOf id).flatMap tree.subtree := by
  obtain ⟨n, row⟩ := connected.known linked
  rw [subtree, List.cons.injEq]
  refine ⟨rfl, List.flatMap_congr ?_⟩
  intro c member
  rw [childrenOf_of_node row] at member
  have later := (connected.child linked row member).1
  have within := (connected.of_child linked row member).lt_size linked
  rw [dif_pos ⟨later, within⟩]

theorem Linked.visits_subtree (linked : Linked tree) (id : Nat) (connected : tree.Connected id)
    {pending ids : List NodeId} (rest : tree.Visits pending ids) :
    tree.Visits (id :: pending) (tree.subtree id ++ ids) := by
  obtain ⟨n, row⟩ := connected.known linked
  have within := connected.lt_size linked
  have below : ∀ c ∈ n.children, id < c ∧ tree.Connected c := by
    intro c member
    exact ⟨(connected.child linked row member).1, connected.of_child linked row member⟩
  have children : ∀ cs : List NodeId, (∀ c ∈ cs, id < c ∧ tree.Connected c) →
      tree.Visits (cs ++ pending) (cs.flatMap tree.subtree ++ ids) := by
    intro cs each
    induction cs with
    | nil => exact rest
    | cons c cs ih =>
        have visits := ih fun other member => each other (List.mem_cons_of_mem c member)
        have facts := each c List.mem_cons_self
        have later : id < c := facts.1
        rw [List.flatMap_cons, List.append_assoc]
        exact Linked.visits_subtree linked c facts.2 visits
  rw [linked.subtree_eq connected, childrenOf_of_node row]
  exact .next row (children n.children below)
termination_by tree.size - id

theorem connected_root : ∀ p ∈ [root], tree.Connected p := by
  intro p member
  rw [List.mem_singleton.mp member]
  exact .self

theorem Linked.visits_preorder (linked : Linked tree) :
    tree.Visits [SyntaxTree.root] tree.preorder := by
  have visits := linked.visits_subtree SyntaxTree.root .self .done
  generalize tree.subtree SyntaxTree.root ++ [] = ids at visits
  have nodup := visits.nodup linked connected_root (List.pairwise_singleton _ _)
  have bounded : ids ⊆ List.range tree.size := by
    intro id member
    obtain ⟨p, isRoot, below⟩ := (visits.mem_iff linked connected_root id).mp member
    rw [List.mem_singleton] at isRoot
    subst isRoot
    rw [List.mem_range]
    exact Connected.lt_size linked below
  have short : ids.length ≤ tree.size := by
    calc
      ids.length ≤ (List.range tree.size).length := (List.subperm_of_subset nodup bounded).length_le
      _ = tree.size := List.length_range
  rw [preorder, visits.drain tree.size short]
  exact visits

theorem Linked.preorder_nodup (linked : Linked tree) : tree.preorder.Nodup :=
  linked.visits_preorder.nodup linked connected_root (List.pairwise_singleton _ _)

theorem Linked.mem_preorder_iff (linked : Linked tree) (id : NodeId) :
    id ∈ tree.preorder ↔ tree.Connected id := by
  rw [linked.visits_preorder.mem_iff linked connected_root]
  simp [Connected]

theorem Linked.sound (linked : Linked tree) (valid : tree.validate = .ok ()) {id : NodeId} {n : Node}
    (connected : tree.Connected id) (row : tree.node? id = some n) : tree.Sound n := by
  have visited := (linked.mem_preorder_iff id).mpr connected
  obtain ⟨found, foundRow, sound⟩ := validate_eq_ok_iff.mp valid id visited
  rw [row, Option.some.injEq] at foundRow
  exact foundRow ▸ sound

structure Legible (tree : SyntaxTree) (n : Node) : Prop where
  children : ∀ c ∈ n.children, ∃ child, tree.node? c = some child
  parent : ∀ up, n.parent = some up → ∃ outer, tree.node? up = some outer

theorem Linked.legible (linked : Linked tree) {id : NodeId} {n : Node} (connected : tree.Connected id)
    (row : tree.node? id = some n) : tree.Legible n := by
  constructor
  · intro c member
    exact (connected.of_child linked row member).known linked
  · intro up isParent
    exact (connected.of_parent linked row isParent).known linked

end NamingLint.SyntaxTree
