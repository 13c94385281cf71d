import NamingLint.Proofs.Concrete.Image
import NamingLint.Proofs.Concrete.Ranges

/-! The order of a program's syntax tree.

Nodes are numbered as a walk meets them, and children come as their places do. So where the ranges of a
concrete tree follow its places, the ranges of the syntax tree follow the order of its children. Only a
variable statement puts its children in two groups, the bound names and then the initial values. -/

namespace NamingLint

namespace SyntaxTree

open Syntax

def face? (tree : SyntaxTree) (id : NodeId) : Option (Kind × Span) :=
  (tree.node? id).map fun n => (n.kind, n.span)

def EndsBefore (tree : SyntaxTree) (first second : NodeId) : Prop :=
  ∃ a b, tree.node? first = some a ∧ tree.node? second = some b ∧ a.span.stop ≤ b.span.offset

theorem endsBefore_of_faces {tree : SyntaxTree} {ids : List NodeId} {faces : List (Kind × Span)}
    (same : ids.map tree.face? = faces.map some)
    (ordered : faces.Pairwise fun a b => a.2.stop ≤ b.2.offset) : ids.Pairwise tree.EndsBefore := by
  have lifted : (faces.map some).Pairwise fun x y =>
      ∃ a b : Kind × Span, x = some a ∧ y = some b ∧ a.2.stop ≤ b.2.offset := by
    rw [List.pairwise_map]
    exact ordered.imp fun less => ⟨_, _, rfl, rfl, less⟩
  rw [← same, List.pairwise_map] at lifted
  apply lifted.imp
  rintro first second ⟨a, b, left, right, less⟩
  obtain ⟨n, row, rfl⟩ := Option.map_eq_some_iff.mp left
  obtain ⟨m, row', rfl⟩ := Option.map_eq_some_iff.mp right
  exact ⟨n, m, row, row', less⟩

end SyntaxTree

namespace Syntax

def Outline.face : Outline → Kind × Span
  | .node kind span _ _ _ => (kind, span)

theorem Outline.LieAll.faces {tree : SyntaxTree} {parent id : NodeId} {outlines : List Outline}
    (lie : Outline.LieAll tree parent id outlines) :
    (Outline.ids id outlines).map tree.face? = (outlines.map Outline.face).map some := by
  induction outlines generalizing id with
  | nil => rfl
  | cons outline outlines ih =>
      obtain ⟨kind, span, nameSpan, modifiers, children⟩ := outline
      have first : tree.face? id = some (kind, span) := by
        rw [SyntaxTree.face?, lie.1.1, Option.map_some]
      rw [Outline.ids, List.map_cons, first, ih lie.2]
      rfl

end Syntax

namespace Concrete

open Syntax (NodeId Outline)

theorem Trace.outlines_eq_map (traces : List Trace) :
    Trace.outlines traces = traces.map Trace.outline := by
  induction traces with
  | nil => rfl
  | cons trace traces ih => rw [Trace.outlines, ih, List.map_cons]

theorem Trace.face_outline (trace : Trace) : trace.outline.face = (trace.kind, trace.label.span) := by
  cases trace
  rfl

/-- Concrete trees whose ranges run forward, hold those of their parts, and do not overlap their
siblings. -/
structure Ordered (root : Node) : Prop where
  forward : root.Everywhere fun n => n.label.start ≤ n.label.stop
  nested : Nested root
  apart : root.Everywhere fun n =>
    n.children.Pairwise fun first second => first.label.stop ≤ second.label.start

theorem Ordered.faces {source : List Char} {root : Node} (ordered : Ordered root)
    {traces : List Trace} (stand : ∀ trace ∈ traces, Stands source root trace)
    (precede : traces.Pairwise Trace.Precedes) :
    ((Trace.outlines traces).map Outline.face).Pairwise fun a b => a.2.stop ≤ b.2.offset := by
  rw [Trace.outlines_eq_map, List.map_map, List.pairwise_map]
  apply precede.imp_of_mem
  intro first second left right before
  obtain ⟨n, found, label⟩ := (stand first left).at?_place
  obtain ⟨m, found', label'⟩ := (stand second right).at?_place
  have less := ordered.nested.before ordered.apart before found found'
  have forward := ordered.forward _ n found
  simp only [Function.comp_apply, Trace.face_outline, ← label, ← label', Label.span, Span.ofRange,
    Span.stop]
  omega

def initialValues (parts : List Node) : List Node :=
  (parts.filter fun part => part.label.isDeclarator).flatMap fun part =>
    (Node.field? .value part.children).toList

namespace Node

theorem outlinesOf_nothing (source : List Char) (parts : List Node) :
    Node.outlinesOf source .nothing parts = [] := by
  induction parts with
  | nil => rfl
  | cons part parts ih => exact ih

theorem outlinesOf_initialValue (source : List Char) (parts : List Node) :
    Node.outlinesOf source .initialValue parts =
      (Node.field? .value parts).toList.flatMap (Node.outlines source .statement) := by
  induction parts with
  | nil => rfl
  | cons part parts ih =>
      rw [Node.outlinesOf]
      by_cases isValue : part.label.field = some .value
      · simp [Context.role?, Context.next, Context.field?, Context.behind, Node.field?, isValue,
          outlinesOf_nothing]
      · simpa [Context.role?, Context.next, Context.field?, Node.field?, isValue] using ih

theorem outlinesOf_declarators (source : List Char) (parts : List Node) :
    Node.outlinesOf source .declarators parts =
      (initialValues parts).flatMap (Node.outlines source .statement) := by
  induction parts with
  | nil => rfl
  | cons part parts ih =>
      have asValue : part.outlines source .declarator =
          Node.outlinesOf source .initialValue part.children := by
        cases part
        rfl
      have stays : Context.next .declarators part.label = .declarators := rfl
      rw [Node.outlinesOf, stays, ih]
      by_cases declares : part.label.isDeclarator = true
      · simp [Context.role?, declares, asValue, initialValues, outlinesOf_initialValue]
      · simp [Context.role?, declares, initialValues]

theorem traces_kind {source : List Char} (n : Node) (role : Role) (here : Place) :
    ∀ trace ∈ n.traces source role here, trace.kind ≠ .variableDeclaration := by
  induction n using Node.inductOn generalizing here role with
  | step label parts ih =>
      intro trace member
      unfold Node.traces at member
      split at member
      · simp at member
      · obtain ⟨i, part, partRole, child, _, inside⟩ := Node.mem_tracesOf member
        exact ih part (List.mem_of_getElem? child) partRole _ trace inside
      · rename_i shape
        rw [List.mem_singleton] at member
        subst member
        exact (Shape.ofRole_becomes shape).ne_variableDeclaration

end Node

/-- The children of a variable statement of a tree: its bound names, then its initial values. -/
structure BindsThenValues (source : List Char) (tree : SyntaxTree) (statement : Node)
    (bound values : List NodeId) : Prop where
  bindings : bound.map tree.face? =
    (boundNames statement.children).map fun name => some (.variableDeclaration, name.span)
  boundOrdered : bound.Pairwise tree.EndsBefore
  initializers : values.map tree.face? =
    ((initialValues statement.children).flatMap (Node.outlines source .statement)).map
      fun outline => some outline.face
  valuesOrdered : values.Pairwise tree.EndsBefore
  noBinding : ∀ value ∈ values, ∀ n, tree.node? value = some n → n.kind ≠ .variableDeclaration

theorem Node.stands_child {source : List Char} {root : Node} {outer : Trace}
    (member : outer ∈ Trace.allOf (root.forest source)) :
    ∀ child ∈ outer.children, Stands source root child := by
  intro child isChild
  apply Node.stands_forest
  apply Trace.allOf_subset _ outer member
  rw [Trace.all_eq]
  exact List.mem_cons_of_mem _ (Trace.mem_allOf_of_mem isChild)

namespace Stands

variable {source : List Char} {root : Node} {trace : Trace}

theorem children_precede (stands : Stands source root trace) (other : trace.kind ≠ .variableStatement) :
    trace.children.Pairwise Trace.Precedes := by
  cases stands with
  | binding place n found binds => exact List.Pairwise.nil
  | node place n role kind nameSpan mods bound context visited found shape =>
      have noBound : Node.boundTraces place kind n.children = [] := if_neg other
      rw [Trace.children, noBound, List.nil_append]
      exact Node.childTraces_precede source context place n.children

theorem variable_children (stands : Stands source root trace)
    (isStatement : trace.kind = .variableStatement) :
    ∃ statement, root.at? trace.place = some statement ∧
      trace.children = (Node.boundPlaces trace.place 0 statement.children).map bindingTrace ++
        Node.tracesOf source .declarators trace.place 0 statement.children := by
  cases stands with
  | binding place n found binds => cases isStatement
  | node place n role kind nameSpan mods bound context visited found shape =>
      have declares := (Shape.ofRole_becomes shape).of_variableStatement isStatement
      have bindsAll : Node.boundTraces place kind n.children =
          (Node.boundPlaces place 0 n.children).map bindingTrace := if_pos isStatement
      refine ⟨n, found, ?_⟩
      rw [Trace.children, bindsAll, declares.2.2]
      rfl

end Stands

theorem Ordered.bindsThenValues {source : List Char} {root statement : Node} {tree : SyntaxTree}
    (ordered : Ordered root) {trace : Trace} {ids : List NodeId}
    (stand : ∀ child ∈ trace.children, Stands source root child)
    (children : trace.children =
      (Node.boundPlaces trace.place 0 statement.children).map bindingTrace ++
        Node.tracesOf source .declarators trace.place 0 statement.children)
    (faces : ids.map tree.face? = ((Trace.outlines trace.children).map Outline.face).map some) :
    ∃ bound values, ids = bound ++ values ∧ BindsThenValues source tree statement bound values := by
  rw [children] at stand
  rw [children, Trace.outlines_append, List.map_append, List.map_append] at faces
  obtain ⟨bound, values, whole, boundFaces, valueFaces⟩ := List.map_eq_append_iff.mp faces
  refine ⟨bound, values, whole, ?_, ?_, ?_, ?_, ?_⟩
  · rw [boundFaces, outlines_bindingTrace, Node.boundPlaces_labels, List.map_map, List.map_map]
    rfl
  · apply SyntaxTree.endsBefore_of_faces boundFaces
    apply ordered.faces fun child member => stand child (List.mem_append_left _ member)
    exact (Node.boundPlaces_precede _ 0 statement.children).map bindingTrace fun _ _ before => before
  · rw [valueFaces, Node.tracesOf_outlines, Node.outlinesOf_declarators, List.map_map]
    rfl
  · apply SyntaxTree.endsBefore_of_faces valueFaces
    apply ordered.faces fun child member => stand child (List.mem_append_right _ member)
    exact Node.childTraces_precede source .declarators _ statement.children
  · intro value member n row
    have face : tree.face? value = some (n.kind, n.span) := by
      rw [SyntaxTree.face?, row, Option.map_some]
    have listed : tree.face? value ∈ values.map tree.face? := List.mem_map_of_mem member
    rw [face, valueFaces, Trace.outlines_eq_map, List.map_map, List.map_map] at listed
    obtain ⟨child, isChild, same⟩ := List.mem_map.mp listed
    rw [Function.comp_apply, Function.comp_apply, Trace.face_outline, Option.some.injEq,
      Prod.mk.injEq] at same
    obtain ⟨i, part, role, _, _, inside⟩ := Node.mem_tracesOf isChild
    rw [← same.1]
    exact part.traces_kind role _ child inside

/-- The nodes of a program are numbered in the order of the walk. Where the ranges of the concrete tree
are in order, so are those of the children of any node but a variable statement. The children of a
variable statement are the names that it binds, in order, and then the outlines of its initial values, in
order. -/
theorem toSyntaxTree_in_source_order (source : String) (root : Node) (ordered : Ordered root) :
    (root.toSyntaxTree source).preorder = List.range (root.toSyntaxTree source).size ∧
    ∀ id n, (root.toSyntaxTree source).node? id = some n →
      (n.kind ≠ .variableStatement → n.children.Pairwise (root.toSyntaxTree source).EndsBefore) ∧
      (n.kind = .variableStatement → ∃ place statement bound values,
        (root.origins source.toList)[id]? = some place ∧ root.at? place = some statement ∧
        n.children = bound ++ values ∧
        BindsThenValues source.toList (root.toSyntaxTree source) statement bound values) := by
  constructor
  · rw [Node.toSyntaxTree_eq]
    exact Syntax.treeOfOutlines_preorder source _
  intro id n row
  obtain ⟨traces, children, lie, origin⟩ := Node.children_of_row row
  have faces := children ▸ lie.faces
  rcases origin with ⟨isFile, rfl⟩ | ⟨trace, member, place, kind, rfl⟩
  · constructor
    · intro _
      apply SyntaxTree.endsBefore_of_faces faces
      apply ordered.faces fun top isTop => Node.stands_forest top (Trace.mem_allOf_of_mem isTop)
      exact root.traces_precede .transparent []
    · intro isStatement
      rw [isFile] at isStatement
      cases isStatement
  · have stands := Node.stands_forest trace member
    have stand := Node.stands_child member
    rw [kind]
    constructor
    · intro other
      apply SyntaxTree.endsBefore_of_faces faces
      exact ordered.faces stand (stands.children_precede other)
    · intro isStatement
      obtain ⟨statement, found, parts⟩ := stands.variable_children isStatement
      obtain ⟨bound, values, whole, facts⟩ := ordered.bindsThenValues stand parts faces
      exact ⟨trace.place, statement, bound, values, place, found, whole, facts⟩

section Sample

def declaratorsText : String := "let [a, b] = f(1), c = g(2);"

def declaratorsProgram : Node :=
  .inner (.other "program") 0 28 none
    [.inner .lexicalDeclaration 0 28 none
      [.token "let" 0 3,
        .inner .variableDeclarator 4 17 none
          [.inner .arrayPattern 4 10 (some .name)
            [.token "[" 4 5, .inner .identifier 5 6 none [], .token "," 6 7,
              .inner .identifier 8 9 none [], .token "]" 9 10],
            .token "=" 11 12,
            .inner (.other "call_expression") 13 17 (some .value)
              [.inner .identifier 13 14 none [],
                .inner (.other "arguments") 14 17 none
                  [.token "(" 14 15, .inner (.other "number") 15 16 none [], .token ")" 16 17]]],
        .token "," 17 18,
        .inner .variableDeclarator 19 27 none
          [.inner .identifier 19 20 (some .name) [], .token "=" 21 22,
            .inner (.other "call_expression") 23 27 (some .value)
              [.inner .identifier 23 24 none [],
                .inner (.other "arguments") 24 27 none
                  [.token "(" 24 25, .inner (.other "number") 25 26 none [], .token ")" 26 27]]],
        .token ";" 27 28]]

theorem declaratorsProgram_ordered : Ordered declaratorsProgram where
  forward := by decide
  nested := by decide
  apart := by decide

theorem declaratorsProgram_in_order :
    Ordered declaratorsProgram ∧
    (declaratorsProgram.toSyntaxTree declaratorsText).preorder = List.range 9 ∧
    ∃ statement bound values, declaratorsProgram.at? [0] = some statement ∧
      [2, 3, 4, 5, 7] = bound ++ values ∧
      BindsThenValues declaratorsText.toList (declaratorsProgram.toSyntaxTree declaratorsText)
        statement bound values := by
  obtain ⟨walk, rows⟩ :=
    toSyntaxTree_in_source_order declaratorsText declaratorsProgram declaratorsProgram_ordered
  have size : (declaratorsProgram.toSyntaxTree declaratorsText).size = 9 := by decide +kernel
  have first : ((declaratorsProgram.toSyntaxTree declaratorsText).node? 1).map
      (fun n => (n.kind, n.children)) = some (.variableStatement, [2, 3, 4, 5, 7]) := by
    decide +kernel
  have origin : (declaratorsProgram.origins declaratorsText.toList)[1]? = some [0] := by
    decide +kernel
  obtain ⟨n, row, same⟩ := Option.map_eq_some_iff.mp first
  rw [Prod.mk.injEq] at same
  obtain ⟨place, statement, bound, values, listed, found, whole, facts⟩ := (rows 1 n row).2 same.1
  rw [origin, Option.some.injEq] at listed
  subst listed
  exact ⟨declaratorsProgram_ordered, size ▸ walk, statement, bound, values, found,
    same.2 ▸ whole, facts⟩

end Sample

end Concrete

end NamingLint
