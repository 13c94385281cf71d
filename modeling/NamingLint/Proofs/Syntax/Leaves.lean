import NamingLint.Proofs.Syntax.Resemblance
import NamingLint.Proofs.Syntax.Subtrees

/-! Adding a leaf to a tree.

The leaf becomes the last child of its parent, so the walk comes to it right behind the subtree that the
parent had. All else is listed as before. -/

namespace NamingLint.SyntaxTree

open Syntax

/-- The trees with one more leaf below `up`: it is pushed, and calls about it may follow. -/
inductive AddsLeaf (tree : SyntaxTree) (up : NodeId) (kind : Kind) (span : Span) : SyntaxTree → Prop
  | push : AddsLeaf tree up kind span (tree.push up kind span)
  | setName {wider : SyntaxTree} (adds : AddsLeaf tree up kind span wider) (name : Span) :
      AddsLeaf tree up kind span (wider.setName tree.size name)
  | setModifiers {wider : SyntaxTree} (adds : AddsLeaf tree up kind span wider)
      (modifiers : Modifiers) : AddsLeaf tree up kind span (wider.setModifiers tree.size modifiers)

theorem Grown.child_later {source : String} {tree : SyntaxTree} (grown : Grown source tree) {id c : Nat}
    (member : c ∈ tree.childrenOf id) : id < c ∧ c < tree.size ∧ tree.parentOf? c = some id := by
  have linked := grown.built.linked
  have isParent := (linked.child id c member).2
  have within := parentOf?_eq_some_lt isParent
  exact ⟨((grown.connected within).parent linked isParent).1, within, isParent⟩

namespace AddsLeaf

variable {source : String} {tree wider : SyntaxTree} {up : Nat} {kind : Kind} {span : Span}
  (adds : AddsLeaf tree up kind span wider)
include adds

theorem retouches : Retouches (tree.push up kind span) wider tree.size := by
  induction adds with
  | push => exact .refl _ _
  | setName adds name ih => exact ih.trans (retouches_setName _ _ name)
  | setModifiers adds modifiers ih => exact ih.trans (retouches_setModifiers _ _ modifiers)

theorem grown (grown : Grown source tree) (earlier : up < tree.size) : Grown source wider := by
  induction adds with
  | push => exact grown.push up kind span earlier
  | setName adds name ih => exact ih.setName tree.size name
  | setModifiers adds modifiers ih => exact ih.setModifiers tree.size modifiers

theorem size_eq : wider.size = tree.size + 1 := by
  rw [adds.retouches.size, size_push]

theorem source_eq : wider.source = tree.source := by
  rw [adds.retouches.source, push_source]

theorem parentOf?_eq (id : Nat) :
    wider.parentOf? id = if id = tree.size then some up else tree.parentOf? id := by
  rw [adds.retouches.parents, parentOf?_push]

theorem childrenOf_eq (earlier : up < tree.size) (id : Nat) :
    wider.childrenOf id = tree.childrenOf id ++ if id = up then [tree.size] else [] := by
  rw [adds.retouches.children, childrenOf_push]
  by_cases isParent : id = up
  · rw [if_pos ⟨isParent, by omega⟩, if_pos isParent]
  · rw [if_neg (fun both => isParent both.1), if_neg isParent]

theorem contentOf?_eq {id : Nat} (old : id < tree.size) :
    wider.contentOf? id = tree.contentOf? id := by
  have notNew : id ≠ tree.size := Nat.ne_of_lt old
  rw [adds.retouches.contents id notNew, contentOf?, node?_push, contentOf?]
  simp only [if_neg notNew]
  split
  · rw [Option.map_map]
    rfl
  · rfl

theorem kindOf?_leaf (earlier : up < tree.size) : wider.kindOf? tree.size = some kind := by
  rw [adds.retouches.kindOf?_eq, kindOf?, node?_push, if_neg (by omega), if_pos rfl, Option.map_some]

section Walk

variable (grew : Grown source tree) (earlier : up < tree.size)
include grew earlier

theorem subtree_leaf : wider.subtree tree.size = [tree.size] := by
  have grownWider := adds.grown grew earlier
  have within : tree.size < wider.size := by
    rw [adds.size_eq]
    omega
  have outside : tree.node? tree.size = none := by simp [node?, size]
  have childless : wider.childrenOf tree.size = [] := by
    rw [adds.childrenOf_eq earlier, if_neg (by omega), childrenOf, outside, List.append_nil]
  rw [grownWider.built.linked.subtree_eq (grownWider.connected within), childless, List.flatMap_nil]

theorem subtree_eq {id : Nat} (old : id < tree.size) :
    wider.subtree id = id :: (tree.childrenOf id).flatMap wider.subtree ++
      if id = up then [tree.size] else [] := by
  have grownWider := adds.grown grew earlier
  have within : id < wider.size := by
    rw [adds.size_eq]
    omega
  rw [grownWider.built.linked.subtree_eq (grownWider.connected within), adds.childrenOf_eq earlier, List.flatMap_append]
  split
  · rw [List.flatMap_singleton, adds.subtree_leaf grew earlier, List.cons_append]
  · rw [List.flatMap_nil, List.cons_append]

theorem subtree_eq_of_not_above {id : Nat} (old : id < tree.size) (notAbove : ¬ tree.Below id up) :
    wider.subtree id = tree.subtree id := by
  have linked := grew.built.linked
  have connected := grew.connected old
  have notParent : id ≠ up := by
    intro same
    exact notAbove (same ▸ .self)
  rw [adds.subtree_eq grew earlier old, if_neg notParent, List.append_nil, linked.subtree_eq connected,
    List.cons.injEq]
  refine ⟨rfl, List.flatMap_congr ?_⟩
  intro c member
  obtain ⟨later, within, isParent⟩ := grew.child_later member
  have childNotAbove : ¬ tree.Below c up := by
    intro above
    exact notAbove (Below.trans (.child isParent later .self) above)
  exact subtree_eq_of_not_above within childNotAbove
termination_by tree.size - id

theorem flatMap_subtree_eq {ids : List NodeId}
    (each : ∀ c ∈ ids, c < tree.size ∧ ¬ tree.Below c up) :
    ids.flatMap wider.subtree = ids.flatMap tree.subtree := by
  apply List.flatMap_congr
  intro c member
  exact adds.subtree_eq_of_not_above grew earlier (each c member).1 (each c member).2

theorem subtree_up : wider.subtree up = tree.subtree up ++ [tree.size] := by
  have linked := grew.built.linked
  have below : ∀ c ∈ tree.childrenOf up, c < tree.size ∧ ¬ tree.Below c up := by
    intro c member
    obtain ⟨later, within, _⟩ := grew.child_later member
    exact ⟨within, fun above => Nat.not_le_of_lt later above.le⟩
  calc
    wider.subtree up = up :: (tree.childrenOf up).flatMap wider.subtree ++ [tree.size] := by
      rw [adds.subtree_eq grew earlier earlier, if_pos rfl]
    _ = up :: (tree.childrenOf up).flatMap tree.subtree ++ [tree.size] := by
      rw [adds.flatMap_subtree_eq grew earlier below]
    _ = tree.subtree up ++ [tree.size] := by rw [linked.subtree_eq (grew.connected earlier)]

/-- In a subtree around `up` the leaf stands right behind the subtree of `up`. -/
theorem subtree_split {top : Nat} (above : tree.Below top up) :
    ∃ ahead behind, tree.subtree top = ahead ++ tree.subtree up ++ behind ∧
      wider.subtree top = ahead ++ tree.subtree up ++ tree.size :: behind := by
  have linked := grew.built.linked
  have old : top < tree.size := Nat.lt_of_le_of_lt above.le earlier
  by_cases isParent : top = up
  · subst isParent
    exact ⟨[], [], by simp, by simp [adds.subtree_up grew earlier]⟩
  · rcases above.top_or_child linked with same | ⟨c, member, deeper⟩
    · exact absurd same.symm isParent
    · -- Only the child on the way down to `up` changes; the siblings on both sides are apart from it.
      obtain ⟨elder, younger, siblings⟩ := List.append_of_mem member
      obtain ⟨later, within, childOf⟩ := grew.child_later member
      have apart : ∀ other ∈ tree.childrenOf top, other ≠ c →
          other < tree.size ∧ ¬ tree.Below other up := by
        intro other sibling differ
        obtain ⟨otherLater, otherWithin, otherChildOf⟩ := grew.child_later sibling
        refine ⟨otherWithin, fun alsoAbove => ?_⟩
        exact siblings_apart otherChildOf childOf otherLater later differ up alsoAbove deeper
      have ordered := linked.ordered top
      rw [siblings] at ordered apart
      have distinct := List.pairwise_append.mp ordered
      have elderApart : ∀ other ∈ elder, other < tree.size ∧ ¬ tree.Below other up := by
        intro other sibling
        have smaller := distinct.2.2 other sibling c List.mem_cons_self
        exact apart other (by simp [sibling]) (Nat.ne_of_lt smaller)
      have youngerApart : ∀ other ∈ younger, other < tree.size ∧ ¬ tree.Below other up := by
        intro other sibling
        have larger := (List.pairwise_cons.mp distinct.2.1).1 other sibling
        exact apart other (by simp [sibling]) (Nat.ne_of_gt larger)
      obtain ⟨ahead, behind, inTree, inWider⟩ := subtree_split deeper
      refine ⟨top :: elder.flatMap tree.subtree ++ ahead, behind ++ younger.flatMap tree.subtree, ?_, ?_⟩
      · rw [linked.subtree_eq (grew.connected old), siblings, List.flatMap_append, List.flatMap_cons,
          inTree]
        simp
      · rw [adds.subtree_eq grew earlier old, if_neg isParent, siblings, List.flatMap_append,
          List.flatMap_cons, inWider, adds.flatMap_subtree_eq grew earlier elderApart,
          adds.flatMap_subtree_eq grew earlier youngerApart]
        simp
termination_by tree.size - top

theorem preorder_split :
    ∃ ahead behind, tree.preorder = ahead ++ tree.subtree up ++ behind ∧
      wider.preorder = ahead ++ tree.subtree up ++ tree.size :: behind := by
  rw [grew.built.linked.preorder_eq_subtree,
    (adds.grown grew earlier).built.linked.preorder_eq_subtree]
  exact adds.subtree_split grew earlier (grew.connected earlier)

end Walk

end AddsLeaf

end NamingLint.SyntaxTree
