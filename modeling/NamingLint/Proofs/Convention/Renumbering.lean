import NamingLint.Proofs.Convention.Resemblance
import NamingLint.Proofs.Syntax.Subtrees

/-! Verdicts do not depend on how the nodes of a tree are numbered.

The same ordered tree can be built in many orders, each of which gives its nodes other ids. The walks then
come to corresponding nodes, and these look alike. -/

namespace NamingLint.SyntaxTree

open Syntax
open Convention (Tips)

/-- A map of ids that takes one tree to another: it keeps the root, the contents of the nodes and their
children in order. -/
structure Renumbers (tree other : SyntaxTree) (f : NodeId → NodeId) : Prop where
  root : f root = root
  content : ∀ id < tree.size, other.contentOf? (f id) = tree.contentOf? id
  children : ∀ id < tree.size, other.childrenOf (f id) = (tree.childrenOf id).map f

namespace Renumbers

variable {tree other : SyntaxTree} {f : NodeId → NodeId} (renumbers : Renumbers tree other f)
include renumbers

theorem visits {pending ids : List NodeId} (walk : tree.Visits pending ids) :
    other.Visits (pending.map f) (ids.map f) := by
  induction walk with
  | done => exact .done
  | @next id n pending ids row rest ih =>
      have within := node?_eq_some_lt tree id row
      have contents := renumbers.content id within
      rw [contentOf?_of_node row] at contents
      obtain ⟨m, twinRow, _⟩ := Option.map_eq_some_iff.mp contents
      have children : m.children = n.children.map f := by
        calc
          m.children = other.childrenOf (f id) := (childrenOf_of_node twinRow).symm
          _ = (tree.childrenOf id).map f := renumbers.children id within
          _ = n.children.map f := by rw [childrenOf_of_node row]
      rw [List.map_append, ← children] at ih
      exact .next twinRow ih

theorem preorder_eq (linked : Linked tree) (otherLinked : Linked other) :
    other.preorder = tree.preorder.map f := by
  have walk := renumbers.visits linked.visits_preorder
  rw [List.map_singleton, renumbers.root] at walk
  exact otherLinked.visits_preorder.unique walk

theorem parentOf?_eq (linked : Linked tree) (otherLinked : Linked other) {id : NodeId}
    (connected : tree.Connected id) : other.parentOf? (f id) = (tree.parentOf? id).map f := by
  cases connected with
  | self => rw [renumbers.root, linked.root.2, otherLinked.root.2, Option.map_none]
  | @child id up isParent later above =>
      have within := Connected.lt_size linked above
      have listed := List.mem_map_of_mem (f := f) (linked.listed id up isParent later)
      rw [← renumbers.children up within] at listed
      rw [isParent, Option.map_some]
      exact (otherLinked.child (f up) (f id) listed).2

theorem frameOf?_eq {id : NodeId} (within : id < tree.size) :
    other.frameOf? (f id) = tree.frameOf? id := by
  rw [frameOf?_eq_content, renumbers.content id within, frameOf?_eq_content]

theorem resembles (linked : Linked tree) (otherLinked : Linked other) {id : NodeId}
    (connected : tree.Connected id) : Resembles tree other id (f id) := by
  have within := connected.lt_size linked
  refine ⟨renumbers.content id within, ?_, ?_⟩
  · rw [around?, around?, renumbers.parentOf?_eq linked otherLinked connected]
    cases isParent : tree.parentOf? id with
    | none => rfl
    | some up =>
        have above := (connected.parent linked isParent).2
        rw [Option.map_some, Option.bind_some, Option.bind_some]
        exact renumbers.frameOf?_eq (above.lt_size linked)
  · intro _
    rw [renumbers.children id within, declarations, List.filterMap_map]
    apply List.filterMap_congr
    intro c member
    have known := parentOf?_eq_some_lt (linked.child id c member).2
    rw [Function.comp_apply, declared?, renumbers.content c known, declared?]

end Renumbers

/-- Two trees over one text that are the same but for their numbering have the same verdicts, however each
of them was built: the walk through the one is that through the other, node for node, and validation and
the check give the same result or the same error. The map is then one-to-one and onto. -/
theorem verdicts_independent_of_numbering {source : String} {tree other : SyntaxTree}
    {f : NodeId → NodeId} (grown : Grown source tree) (otherGrown : Grown source other)
    (renumbers : Renumbers tree other f) :
    other.preorder = tree.preorder.map f ∧
    ((List.range tree.size).map f).Perm (List.range other.size) ∧
    other.validate = tree.validate ∧
    ∀ tips, Convention.check tips other = Convention.check tips tree := by
  have linked := grown.built.linked
  have otherLinked := otherGrown.built.linked
  have walk := renumbers.preorder_eq linked otherLinked
  have sameSource : other.source = tree.source := by
    rw [otherGrown.built.source_eq, grown.built.source_eq]
  refine ⟨walk, ?_, linked.verdicts_eq otherLinked sameSource walk ?_⟩
  · have ids := grown.preorder_perm.map f
    rw [← walk] at ids
    exact ids.symm.trans otherGrown.preorder_perm
  · intro id member
    exact renumbers.resembles linked otherLinked ((linked.mem_preorder_iff id).mp member)

def broadTree : SyntaxTree :=
  (((((((ofSource "class a (b) let C").push 0 .classDeclaration ⟨0, 11⟩).push 0 .variableStatement
    ⟨12, 5⟩).setName 1 ⟨6, 1⟩).push 1 .methodDeclaration ⟨9, 1⟩).setModifiers 3
    (.ofList [.static])).setName 3 ⟨9, 1⟩).push 2 .variableDeclaration ⟨16, 1⟩ |>.setName 4 ⟨16, 1⟩

def deepTree : SyntaxTree :=
  (((((((ofSource "class a (b) let C").push 0 .classDeclaration ⟨0, 11⟩).setName 1 ⟨6, 1⟩).push 1
    .methodDeclaration ⟨9, 1⟩).setName 2 ⟨9, 1⟩).setModifiers 2 (.ofList [.static])).push 0
    .variableStatement ⟨12, 5⟩).push 3 .variableDeclaration ⟨16, 1⟩ |>.setName 4 ⟨16, 1⟩

theorem broadTree_as_deepTree :
    broadTree.preorder = [0, 1, 3, 2, 4] ∧ deepTree.preorder = [0, 1, 2, 3, 4] ∧
    deepTree.validate = broadTree.validate ∧
    Convention.check .egret deepTree = Convention.check .egret broadTree ∧
    Convention.check .egret broadTree = .ok
      [⟨.className, ⟨0, 11⟩, Tips.egret .className⟩, ⟨.staticMethod, ⟨9, 1⟩, Tips.egret .staticMethod⟩,
        ⟨.globalVariable, ⟨16, 1⟩, Tips.egret .globalVariable⟩] := by
  have broad : Grown "class a (b) let C" broadTree :=
    .setName (.push (.setName (.setModifiers (.push (.setName (.push (.push .fresh _ _ _ (by decide)) _ _ _
      (by decide)) ..) _ _ _ (by decide)) ..) ..) _ _ _ (by decide)) ..
  have deep : Grown "class a (b) let C" deepTree :=
    .setName (.push (.push (.setModifiers (.setName (.push (.setName (.push .fresh _ _ _ (by decide)) ..) _ _ _
      (by decide)) ..) ..) _ _ _ (by decide)) _ _ _ (by decide)) ..
  have renumbers : Renumbers broadTree deepTree fun id => [0, 1, 3, 2, 4].getD id id :=
    ⟨by decide, by decide +kernel, by decide +kernel⟩
  obtain ⟨_, _, sameValidity, sameCheck⟩ := verdicts_independent_of_numbering broad deep renumbers
  exact ⟨by decide +kernel, by decide +kernel, sameValidity, sameCheck .egret, by decide +kernel⟩

end NamingLint.SyntaxTree
