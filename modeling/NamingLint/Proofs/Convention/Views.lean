import NamingLint.Proofs.Convention.Resemblance
import NamingLint.Proofs.Syntax.Subtrees

/-! What the convention sees of a tree.

A view of a node is all that its verdict depends on. Outlines have views before they are numbered, and
the walk over a tree of outlines comes to these views in order. Nodes of silent kinds have no findings,
so the verdict on a tree depends on the views of the other nodes alone, however many silent nodes stand
between them. -/

namespace NamingLint

open Syntax
open Convention (Tips silentKinds)

/-- What is seen of a node: its content, the node around it and the variables declared below it. -/
structure Syntax.View where
  content : Option Content
  around : Option (Kind × Span)
  declared : List Content
  deriving DecidableEq, Repr

def SyntaxTree.view (tree : SyntaxTree) (id : NodeId) : View where
  content := tree.contentOf? id
  around := tree.around? id
  declared := tree.declarations (tree.childrenOf id)

def Syntax.View.judged (view : View) : Bool :=
  !view.content.any fun content => silentKinds.contains content.kind

namespace Syntax.Outline

def content : Outline → Content
  | .node kind span nameSpan modifiers _ => ⟨kind, span, nameSpan, modifiers⟩

def declared (outlines : List Outline) : List Content :=
  (outlines.map content).filter fun content => content.kind == .variableDeclaration

theorem declared_append (front back : List Outline) :
    declared (front ++ back) = declared front ++ declared back := by
  rw [declared, List.map_append, List.filter_append, declared, declared]

mutual

def views (outer : Kind × Span) : Outline → List View
  | .node kind span nameSpan modifiers children =>
    ⟨some ⟨kind, span, nameSpan, modifiers⟩, some outer, declared children⟩ ::
      viewsAll (kind, span) children

def viewsAll (outer : Kind × Span) : List Outline → List View
  | [] => []
  | outline :: outlines => views outer outline ++ viewsAll outer outlines

end

theorem viewsAll_append (outer : Kind × Span) (front back : List Outline) :
    viewsAll outer (front ++ back) = viewsAll outer front ++ viewsAll outer back := by
  induction front with
  | nil => rfl
  | cons outline front ih => rw [List.cons_append, viewsAll, ih, viewsAll, List.append_assoc]

theorem LieAll.declarations_eq {tree : SyntaxTree} {parent id : NodeId} {outlines : List Outline}
    (lie : LieAll tree parent id outlines) :
    tree.declarations (ids id outlines) = declared outlines := by
  induction outlines generalizing id with
  | nil => rfl
  | cons outline outlines ih =>
      obtain ⟨kind, span, nameSpan, modifiers, children⟩ := outline
      rw [ids, SyntaxTree.declarations_cons lie.1.1, ih lie.2, declared, declared, List.map_cons,
        List.filter_cons]
      simp only [content, Node.content, beq_iff_eq]

mutual

theorem map_view_of_lies (tree : SyntaxTree) (parent id : NodeId) (outer : Kind × Span)
    (frame : tree.frameOf? parent = some outer) :
    (outline : Outline) → outline.Lies tree parent id →
      (List.range' id outline.size).map tree.view = outline.views outer
  | .node kind span nameSpan modifiers children => by
      intro lies
      have around : tree.around? id = some outer := by
        rw [SyntaxTree.around?, SyntaxTree.parentOf?_of_node lies.1, Option.bind_some, frame]
      have frameBelow : tree.frameOf? id = some (kind, span) := by
        rw [SyntaxTree.frameOf?, lies.1, Option.map_some]
      rw [Outline.size, List.range'_succ, List.map_cons, views,
        map_view_of_lieAll tree id (id + 1) (kind, span) frameBelow children lies.2, SyntaxTree.view,
        SyntaxTree.contentOf?_of_node lies.1, around, SyntaxTree.childrenOf_of_node lies.1,
        lies.2.declarations_eq]
      rfl

theorem map_view_of_lieAll (tree : SyntaxTree) (parent id : NodeId) (outer : Kind × Span)
    (frame : tree.frameOf? parent = some outer) :
    (outlines : List Outline) → LieAll tree parent id outlines →
      (List.range' id (sizeAll outlines)).map tree.view = viewsAll outer outlines
  | [] => fun _ => rfl
  | outline :: outlines => by
      intro lie
      rw [sizeAll, ← List.range'_append_1, List.map_append, viewsAll,
        map_view_of_lies tree parent id outer frame outline lie.1,
        map_view_of_lieAll tree parent (id + outline.size) outer frame outlines lie.2]

end

end Syntax.Outline

theorem Syntax.treeOfOutlines_views (source : String) (outlines : List Outline) :
    (treeOfOutlines source outlines).preorder.map (treeOfOutlines source outlines).view =
      ⟨some ⟨.sourceFile, ⟨0, Text.byteLength source.toList⟩, none, .empty⟩, none,
        Outline.declared outlines⟩ ::
        Outline.viewsAll (.sourceFile, ⟨0, Text.byteLength source.toList⟩) outlines := by
  have root := treeOfOutlines_root source outlines
  have lie := treeOfOutlines_lieAll source outlines
  have frame : (treeOfOutlines source outlines).frameOf? SyntaxTree.root =
      some (.sourceFile, ⟨0, Text.byteLength source.toList⟩) := by
    rw [SyntaxTree.frameOf?, root, Option.map_some]
  rw [treeOfOutlines_preorder, treeOfOutlines_size, List.range_eq_range', List.range'_succ,
    List.map_cons, Outline.map_view_of_lieAll _ _ _ _ frame outlines lie]
  congr 1
  change (treeOfOutlines source outlines).view SyntaxTree.root = _
  rw [SyntaxTree.view, SyntaxTree.contentOf?_of_node root, SyntaxTree.around?_of_noParent root rfl,
    SyntaxTree.childrenOf_of_node root, lie.declarations_eq]
  rfl

namespace SyntaxTree

variable {tree other : SyntaxTree}

theorem resembles_of_view {id twin : NodeId} (same : other.view twin = tree.view id) :
    Resembles tree other id twin where
  content := congrArg View.content same
  around := congrArg View.around same
  declared _ := congrArg View.declared same

theorem findingsAt_of_not_judged {id : NodeId} (silent : (tree.view id).judged = false) (tips : Tips) :
    Convention.findingsAt tips tree id = .ok [] := by
  rw [View.judged, Bool.not_eq_false', Option.any_eq_true] at silent
  obtain ⟨content, known, silent⟩ := silent
  obtain ⟨n, row, rfl⟩ := Option.map_eq_some_iff.mp known
  exact Convention.findingsAt_of_silent (kindOf?_of_node row) (List.contains_iff_mem.mp silent) tips

theorem check_eq_judged (tips : Tips) (tree : SyntaxTree) :
    Convention.check tips tree = (tree.preorder.filter fun id => (tree.view id).judged).foldlM
      (Convention.visit tips tree) [] := by
  rw [Convention.check_eq_foldlM, foldlM_filter_of_skip]
  intro found id silent
  rw [Convention.visit_eq, findingsAt_of_not_judged silent]
  exact congrArg Except.ok (List.append_nil found)

/-- Trees of one source in which the judged nodes look the same, in order, get the same verdict. -/
theorem Linked.check_eq_of_views (linked : Linked tree) (otherLinked : Linked other)
    (source : other.source = tree.source)
    (same : (other.preorder.map other.view).filter View.judged =
      (tree.preorder.map tree.view).filter View.judged) (tips : Tips) :
    Convention.check tips other = Convention.check tips tree := by
  rw [List.filter_map, List.filter_map] at same
  rw [check_eq_judged, check_eq_judged]
  apply foldlM_eq_of_view same
  intro twin twinMember id member alike found
  have connected := (linked.mem_preorder_iff id).mp (List.mem_of_mem_filter member)
  have twinConnected := (otherLinked.mem_preorder_iff twin).mp (List.mem_of_mem_filter twinMember)
  have verdicts := (resembles_of_view alike).verdicts_eq source linked connected otherLinked twinConnected
  rw [Convention.visit_eq, Convention.visit_eq, verdicts.2 tips]

end SyntaxTree

end NamingLint
