import NamingLint.Proofs.Syntax.Connected

/-! What is seen of a node where a tree is validated or checked.

That is its own content, the kind and the span of the node around it and, at a statement, the contents
of the variable declarations below it. Two nodes that agree in these look alike, whatever their ids are
and whichever trees they stand in. -/

namespace NamingLint

open Syntax

structure Syntax.Content where
  kind : Kind
  span : Span
  nameSpan : Option Span
  modifiers : Modifiers
  deriving DecidableEq, Repr

def Syntax.Node.content (n : Node) : Content := ⟨n.kind, n.span, n.nameSpan, n.modifiers⟩

namespace SyntaxTree

def kindOf? (tree : SyntaxTree) (id : NodeId) : Option Kind := (tree.node? id).map Node.kind

def contentOf? (tree : SyntaxTree) (id : NodeId) : Option Content := (tree.node? id).map Node.content

def frameOf? (tree : SyntaxTree) (id : NodeId) : Option (Kind × Span) :=
  (tree.node? id).map fun n => (n.kind, n.span)

def around? (tree : SyntaxTree) (id : NodeId) : Option (Kind × Span) :=
  (tree.parentOf? id).bind tree.frameOf?

def declared? (tree : SyntaxTree) (id : NodeId) : Option Content :=
  (tree.contentOf? id).filter fun content => content.kind == .variableDeclaration

def declarations (tree : SyntaxTree) (ids : List NodeId) : List Content := ids.filterMap tree.declared?

/-- The second node, in the other tree, looks like the first. -/
structure Resembles (tree other : SyntaxTree) (id twin : NodeId) : Prop where
  content : other.contentOf? twin = tree.contentOf? id
  around : other.around? twin = tree.around? id
  declared : tree.kindOf? id = some .variableStatement →
    other.declarations (other.childrenOf twin) = tree.declarations (tree.childrenOf id)

variable {tree other : SyntaxTree} {id twin : NodeId} {n m : Node}

theorem kindOf?_of_node (row : tree.node? id = some n) : tree.kindOf? id = some n.kind := by
  rw [kindOf?, row, Option.map_some]

theorem contentOf?_of_node (row : tree.node? id = some n) :
    tree.contentOf? id = some n.content := by
  rw [contentOf?, row, Option.map_some]

theorem frameOf?_eq_content (tree : SyntaxTree) (id : NodeId) :
    tree.frameOf? id = (tree.contentOf? id).map fun content => (content.kind, content.span) := by
  rw [contentOf?, Option.map_map]
  rfl

theorem around?_of_parent {up : NodeId} {outer : Node} (row : tree.node? id = some n)
    (isParent : n.parent = some up) (outerRow : tree.node? up = some outer) :
    tree.around? id = some (outer.kind, outer.span) := by
  rw [around?, parentOf?_of_node row, isParent, Option.bind_some, frameOf?, outerRow, Option.map_some]

theorem around?_of_noParent (row : tree.node? id = some n) (noParent : n.parent = none) :
    tree.around? id = none := by
  rw [around?, parentOf?_of_node row, noParent, Option.bind_none]

theorem declarations_cons {ids : List NodeId} (row : tree.node? id = some n) :
    tree.declarations (id :: ids) =
      if n.kind = .variableDeclaration then n.content :: tree.declarations ids
      else tree.declarations ids := by
  rw [declarations, List.filterMap_cons, declared?, contentOf?_of_node row]
  by_cases isDeclaration : n.kind = .variableDeclaration
  · simp [Option.filter, Node.content, isDeclaration, declarations]
  · simp [Option.filter, Node.content, isDeclaration, declarations]

theorem declared?_eq_none {kind : Kind} (isKind : tree.kindOf? id = some kind)
    (isOther : kind ≠ .variableDeclaration) : tree.declared? id = none := by
  obtain ⟨n, row, rfl⟩ := Option.map_eq_some_iff.mp isKind
  simp [declared?, contentOf?_of_node row, Option.filter, Node.content, isOther]

theorem declarations_congr {ids : List NodeId}
    (same : ∀ c ∈ ids, other.contentOf? c = tree.contentOf? c) :
    other.declarations ids = tree.declarations ids := by
  apply List.filterMap_congr
  intro c member
  rw [declared?, declared?, same c member]

theorem around?_congr (sameParent : other.parentOf? id = tree.parentOf? id)
    (sameFrame : ∀ up, tree.parentOf? id = some up → other.frameOf? up = tree.frameOf? up) :
    other.around? id = tree.around? id := by
  rw [around?, around?, sameParent]
  cases isParent : tree.parentOf? id with
  | none => rfl
  | some up => exact sameFrame up isParent

theorem kindOf?_eq_frame (tree : SyntaxTree) (id : NodeId) :
    tree.kindOf? id = (tree.frameOf? id).map Prod.fst := by
  rw [frameOf?, Option.map_map]
  rfl

/-- The second tree differs from the first in the name and the modifiers of one node at most. -/
structure Retouches (tree other : SyntaxTree) (target : NodeId) : Prop where
  source : other.source = tree.source
  size : other.size = tree.size
  parents : ∀ id, other.parentOf? id = tree.parentOf? id
  children : ∀ id, other.childrenOf id = tree.childrenOf id
  frames : ∀ id, other.frameOf? id = tree.frameOf? id
  contents : ∀ id, id ≠ target → other.contentOf? id = tree.contentOf? id

theorem retouches_update {target : NodeId} {f : Node → Node} (keepsParent : ∀ n, (f n).parent = n.parent)
    (keepsChildren : ∀ n, (f n).children = n.children)
    (keepsFrame : ∀ n, ((f n).kind, (f n).span) = (n.kind, n.span)) :
    Retouches tree (tree.update target f) target := by
  refine ⟨update_source tree target f, size_update tree target f, fun id => parentOf?_update keepsParent,
    fun id => childrenOf_update keepsChildren, ?_, ?_⟩
  · intro id
    rw [frameOf?, node?_update, frameOf?]
    split
    · rw [Option.map_map]
      congr 1
      funext n
      exact keepsFrame n
    · rfl
  · intro id differ
    rw [contentOf?, node?_update, if_neg differ, contentOf?]

theorem retouches_setName (tree : SyntaxTree) (target : NodeId) (span : Span) :
    Retouches tree (tree.setName target span) target :=
  retouches_update (fun _ => rfl) (fun _ => rfl) (fun _ => rfl)

theorem retouches_setModifiers (tree : SyntaxTree) (target : NodeId) (modifiers : Modifiers) :
    Retouches tree (tree.setModifiers target modifiers) target :=
  retouches_update (fun _ => rfl) (fun _ => rfl) (fun _ => rfl)

theorem Retouches.refl (tree : SyntaxTree) (target : NodeId) : Retouches tree tree target :=
  ⟨rfl, rfl, fun _ => rfl, fun _ => rfl, fun _ => rfl, fun _ _ => rfl⟩

theorem Retouches.trans {third : SyntaxTree} {target : NodeId} (first : Retouches tree other target)
    (second : Retouches other third target) : Retouches tree third target where
  source := second.source.trans first.source
  size := second.size.trans first.size
  parents id := (second.parents id).trans (first.parents id)
  children id := (second.children id).trans (first.children id)
  frames id := (second.frames id).trans (first.frames id)
  contents id differ := (second.contents id differ).trans (first.contents id differ)

theorem Retouches.preorder_eq {target : NodeId} (retouches : Retouches tree other target) :
    other.preorder = tree.preorder := by
  have walks : ∀ steps pending, other.drain steps pending = tree.drain steps pending := by
    intro steps
    induction steps with
    | zero =>
        intro pending
        rfl
    | succ steps ih =>
        intro pending
        cases pending with
        | nil => rfl
        | cons id pending => rw [drain, drain, retouches.children, ih]
  rw [preorder, preorder, retouches.size, walks]

theorem Retouches.kindOf?_eq {target : NodeId} (retouches : Retouches tree other target) (id : NodeId) :
    other.kindOf? id = tree.kindOf? id := by
  rw [kindOf?_eq_frame, retouches.frames id, kindOf?_eq_frame]

theorem slice?_congr (source : other.source = tree.source) : other.slice? = tree.slice? := by
  funext span
  simp only [slice?, source]

theorem Legible.insideParent_eq (legible : tree.Legible n) (row : tree.node? id = some n) :
    tree.insideParent n = .ok ((tree.around? id).all fun outer => outer.2.contains n.span) := by
  cases isParent : n.parent with
  | none =>
      rw [around?_of_noParent row isParent]
      simp only [insideParent, isParent, Option.all_none]
  | some up =>
      obtain ⟨outer, outerRow⟩ := legible.parent up isParent
      rw [around?_of_parent row isParent outerRow]
      simp only [insideParent, isParent, node_eq_ok_iff.mpr outerRow, Option.all_some]
      rfl

namespace Resembles

theorem node_content (alike : Resembles tree other id twin) (row : tree.node? id = some n)
    (twinRow : other.node? twin = some m) : m.content = n.content := by
  have contents := alike.content
  rw [contentOf?_of_node row, contentOf?_of_node twinRow, Option.some.injEq] at contents
  exact contents

theorem validateNode_eq (alike : Resembles tree other id twin) (source : other.source = tree.source)
    (row : tree.node? id = some n) (legible : tree.Legible n)
    (twinRow : other.node? twin = some m) (twinLegible : other.Legible m) :
    other.validateNode twin = tree.validateNode id := by
  have same := alike.node_content row twinRow
  have kind : m.kind = n.kind := congrArg Content.kind same
  have span : m.span = n.span := congrArg Content.span same
  have nameSpan : m.nameSpan = n.nameSpan := congrArg Content.nameSpan same
  have holds : holdsName m = holdsName n := by
    rw [holdsName, holdsName, nameSpan, span]
  have far : overflows m = overflows n := by
    rw [overflows, overflows, nameSpan, span]
  rw [SyntaxTree.validateNode_eq row (legible.insideParent_eq row),
    SyntaxTree.validateNode_eq twinRow (twinLegible.insideParent_eq twinRow), alike.around,
    slice?_congr source, holds, far, kind, span, nameSpan]

end Resembles

end SyntaxTree

end NamingLint
