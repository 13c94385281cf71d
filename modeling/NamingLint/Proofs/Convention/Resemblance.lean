import NamingLint.Proofs.Convention.Reading
import NamingLint.Proofs.Syntax.Resemblance

/-! Nodes that look alike are read alike, so trees whose walks come to such nodes get the same verdicts. -/

namespace NamingLint

open Syntax
open Convention (Binding Declaration Tips findingsAt)

namespace Convention.Declaration

open SyntaxTree

variable {tree other : SyntaxTree} {id twin : NodeId} {n m : Node}

def binding (tree : SyntaxTree) (content : Content) : Except TreeError Binding :=
  match content.nameSpan.bind tree.slice? with
  | some name => .ok ⟨name, content.span⟩
  | none => .error (.missingName content.kind content.span.offset)

theorem binding_eq_requireName (tree : SyntaxTree) (child : Node) :
    (do return ⟨← requireName tree child, child.span⟩) = binding tree child.content := by
  rw [requireName, binding, nameOf?]
  simp only [Node.content]
  cases child.nameSpan.bind tree.slice? <;> rfl

theorem bindings_eq_mapM {ids : List NodeId}
    (known : ∀ id ∈ ids, ∃ child, tree.node? id = some child) :
    bindings tree ids = (tree.declarations ids).mapM (binding tree) := by
  induction ids with
  | nil => rfl
  | cons id ids ih =>
      obtain ⟨child, row⟩ := known id List.mem_cons_self
      have rest := ih fun other member => known other (List.mem_cons_of_mem id member)
      rw [bindings, node_eq_ok_iff.mpr row, declarations_cons row]
      simp only [bind, Except.bind]
      split
      · rw [List.mapM_cons, ← binding_eq_requireName, ← rest]
        cases requireName tree child <;> rfl
      · exact rest

theorem parentKind_eq (legible : tree.Legible n) (row : tree.node? id = some n) :
    parentKind tree n = .ok ((tree.around? id).map Prod.fst) := by
  cases isParent : n.parent with
  | none =>
      rw [around?_of_noParent row isParent]
      simp only [parentKind, isParent, Option.map_none]
  | some up =>
      obtain ⟨outer, outerRow⟩ := legible.parent up isParent
      rw [around?_of_parent row isParent outerRow]
      simp only [parentKind, isParent, node_eq_ok_iff.mpr outerRow, Option.map_some]
      rfl

end Convention.Declaration

namespace SyntaxTree.Resembles

open Convention.Declaration

variable {tree other : SyntaxTree} {id twin : NodeId} {n m : Node}

theorem ofNode_eq (alike : Resembles tree other id twin) (source : other.source = tree.source)
    (row : tree.node? id = some n) (legible : tree.Legible n)
    (twinRow : other.node? twin = some m) (twinLegible : other.Legible m) :
    ofNode other m = ofNode tree n := by
  have same := alike.node_content row twinRow
  have kind : m.kind = n.kind := congrArg Content.kind same
  have span : m.span = n.span := congrArg Content.span same
  have nameSpan : m.nameSpan = n.nameSpan := congrArg Content.nameSpan same
  have modifiers : m.modifiers = n.modifiers := congrArg Content.modifiers same
  have name : requireName other m = requireName tree n := by
    simp only [requireName, nameOf?, slice?_congr source, kind, span, nameSpan]
  have place : requireNameSpan m = requireNameSpan n := by
    simp only [requireNameSpan, kind, span, nameSpan]
  have text : other.textOf m = tree.textOf n := by
    simp only [textOf, slice?_congr source, span]
  have bound : n.kind = .variableStatement → bindings other m.children = bindings tree n.children := by
    intro isStatement
    have declared := alike.declared (by rw [kindOf?_of_node row, isStatement])
    rw [childrenOf_of_node row, childrenOf_of_node twinRow] at declared
    rw [bindings_eq_mapM legible.children, bindings_eq_mapM twinLegible.children, declared]
    congr 1
    funext content
    simp only [binding, slice?_congr source]
  have parent : parentKind other m = parentKind tree n := by
    rw [parentKind_eq legible row, parentKind_eq twinLegible twinRow, alike.around]
  cases isKind : n.kind with
  | variableStatement =>
      rw [isKind] at kind
      simp only [ofNode, isKind, kind, bound isKind, parent, text, span]
  | _ =>
      rw [isKind] at kind
      simp only [ofNode, isKind, kind, name, place, span, modifiers]

theorem findingsAt_eq (alike : Resembles tree other id twin) (source : other.source = tree.source)
    (row : tree.node? id = some n) (legible : tree.Legible n)
    (twinRow : other.node? twin = some m) (twinLegible : other.Legible m) (tips : Tips) :
    findingsAt tips other twin = findingsAt tips tree id := by
  have declarations : Declaration.read other twin = Declaration.read tree id := by
    rw [Declaration.read, Declaration.read, node_eq_ok_iff.mpr row, node_eq_ok_iff.mpr twinRow]
    exact alike.ofNode_eq source row legible twinRow twinLegible
  rw [Convention.findingsAt_eq_read, Convention.findingsAt_eq_read, declarations]

theorem verdicts_eq (alike : Resembles tree other id twin) (source : other.source = tree.source)
    (linked : Linked tree) (connected : tree.Connected id) (otherLinked : Linked other)
    (twinConnected : other.Connected twin) :
    other.validateNode twin = tree.validateNode id ∧
      ∀ tips, findingsAt tips other twin = findingsAt tips tree id := by
  obtain ⟨n, row⟩ := connected.known linked
  obtain ⟨m, twinRow⟩ := twinConnected.known otherLinked
  have legible := linked.legible connected row
  have twinLegible := otherLinked.legible twinConnected twinRow
  exact ⟨alike.validateNode_eq source row legible twinRow twinLegible,
    alike.findingsAt_eq source row legible twinRow twinLegible⟩

end SyntaxTree.Resembles

def Convention.silentKinds : List Kind := [.sourceFile, .moduleBlock, .variableDeclaration, .other]

theorem Convention.findingsAt_of_silent {tree : SyntaxTree} {id : NodeId} {kind : Kind}
    (isKind : tree.kindOf? id = some kind) (silent : kind ∈ silentKinds) (tips : Tips) :
    findingsAt tips tree id = .ok [] := by
  obtain ⟨n, row, rfl⟩ := Option.map_eq_some_iff.mp isKind
  have nothing : Declaration.read tree id = .ok none := by
    rw [Declaration.read, SyntaxTree.node_eq_ok_iff.mpr row]
    simp only [silentKinds, List.mem_cons, List.not_mem_nil, or_false] at silent
    rcases silent with kind | kind | kind | kind <;>
      simp only [bind, Except.bind, Declaration.ofNode, kind]
  rw [findingsAt_eq_read, nothing]
  rfl

theorem Convention.check_congr {tree other : SyntaxTree} {f : NodeId → NodeId} {tips : Tips}
    (walk : other.preorder = tree.preorder.map f)
    (same : ∀ id ∈ tree.preorder, findingsAt tips other (f id) = findingsAt tips tree id) :
    check tips other = check tips tree := by
  rw [check_eq_mapM, check_eq_mapM, walk, List.mapM_map]
  congr 1
  exact mapM_congr same

/-- Trees whose walks come to nodes that look alike, one for one, are validated and checked alike. -/
theorem SyntaxTree.Linked.verdicts_eq {tree other : SyntaxTree} (linked : Linked tree)
    (otherLinked : Linked other) (source : other.source = tree.source) {f : NodeId → NodeId}
    (walk : other.preorder = tree.preorder.map f)
    (alike : ∀ id ∈ tree.preorder, Resembles tree other id (f id)) :
    other.validate = tree.validate ∧
      ∀ tips, Convention.check tips other = Convention.check tips tree := by
  have same : ∀ id ∈ tree.preorder, other.validateNode (f id) = tree.validateNode id ∧
      ∀ tips, findingsAt tips other (f id) = findingsAt tips tree id := by
    intro id member
    have twinMember : f id ∈ other.preorder := walk ▸ List.mem_map_of_mem member
    exact (alike id member).verdicts_eq source linked ((linked.mem_preorder_iff id).mp member)
      otherLinked ((otherLinked.mem_preorder_iff (f id)).mp twinMember)
  constructor
  · rw [validate, validate, List.forM_eq_forM, walk, List.forM_map]
    exact forM_congr fun id member => (same id member).1
  · intro tips
    exact Convention.check_congr walk fun id member => (same id member).2 tips

end NamingLint
