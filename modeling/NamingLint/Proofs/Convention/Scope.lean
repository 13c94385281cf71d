import NamingLint.Proofs.Concrete.Image

/-! The scope of a variable statement, read off the concrete tree.

A statement is at root level if no node between it and the program has an image, and at namespace
level if the nearest such node is the block of a module. -/

namespace NamingLint.Convention

open Syntax

theorem Scope.ofParent_eq_rootLevel_iff {kind : Kind} :
    Scope.ofParent (some kind) = .rootLevel ↔ kind = .sourceFile := by
  cases kind <;> simp [Scope.ofParent]

theorem Scope.ofParent_eq_namespaceLevel_iff {kind : Kind} :
    Scope.ofParent (some kind) = .namespaceLevel ↔ kind = .moduleBlock := by
  cases kind <;> simp [Scope.ofParent]

theorem Scope.eq_localLevel_iff {scope : Scope} :
    scope = .localLevel ↔ scope ≠ .rootLevel ∧ scope ≠ .namespaceLevel := by
  cases scope <;> simp

theorem Declaration.parentKind_of_node {tree : SyntaxTree} {node outer : Node} {up : NodeId}
    (isParent : node.parent = some up) (row : tree.node? up = some outer) :
    Declaration.parentKind tree node = .ok (some outer.kind) := by
  simp only [Declaration.parentKind, isParent, SyntaxTree.node, row]
  rfl

end NamingLint.Convention

namespace NamingLint.Concrete

open Syntax (NodeId)
open Convention (Declaration Scope)

namespace Node

/-- The block at `place` belongs to the module at `outer`: it is its body, or a statement block of
`declare global`. -/
def IsModuleBlock (root : Node) (place outer : Place) : Prop :=
  ∃ i n part, place = outer ++ [i] ∧ root.at? outer = some n ∧ n.children[i]? = some part ∧
    ((n.label.kind.isModule = true ∧ Node.fieldAt? .body n.children = some i) ∨
      (n.label.kind = .ambientDeclaration ∧
        (∃ token ∈ n.children, token.label.isToken .global = true) ∧
        part.label.kind = .statementBlock))

def MakesModule (source : String) (root : Node) (place : Place) : Prop :=
  ∃ id node, root.image source.toList place = some id ∧
    (root.toSyntaxTree source).node? id = some node ∧ node.kind = .moduleDeclaration

def IsWrapper (n : Node) : Prop :=
  n.label.kind = .exportStatement ∨ n.label.kind = .classBody ∨
    (n.label.kind = .ambientDeclaration ∧
      ∀ token ∈ n.children, token.label.isToken .global = false) ∨
    (n.label.kind = .expressionStatement ∧ wrapsNamespace n.children = true)

theorem IsWrapper.kind {n : Node} (wraps : n.IsWrapper) :
    n.label.kind.standsAlone = true ∧ n.label.kind.isVariables = false ∧
      n.label.kind.isBinding = false := by
  rcases wraps with isKind | isKind | ⟨isKind, _⟩ | ⟨isKind, _⟩ <;> rw [isKind] <;>
    exact ⟨rfl, rfl, rfl⟩

theorem IsWrapper.shape {n : Node} (source : List Char) (wraps : n.IsWrapper) :
    ∃ context, Shape.ofKind source n.children n.label.kind = .parts context := by
  rcases wraps with isKind | isKind | ⟨isKind, noGlobal⟩ | ⟨isKind, wraps⟩ <;> rw [isKind]
  · exact ⟨.statements, rfl⟩
  · exact ⟨.classMembers, rfl⟩
  · exact ⟨.statements, Shape.ambient_of_no_global noGlobal⟩
  · exact ⟨.statements, if_pos wraps⟩

variable {source : String} {root n : Node} {place outer : Place} {role : Role}

theorem makesModule_iff :
    root.MakesModule source place ↔
      ∃ trace ∈ Trace.allOf (root.forest source.toList), trace.place = place ∧
        trace.kind = .moduleDeclaration := by
  constructor
  · rintro ⟨id, node, known, row, isModule⟩
    by_cases inside : place = []
    · subst inside
      rw [image_root, Option.some.injEq] at known
      subst known
      rw [toSyntaxTree_root, Option.some.injEq] at row
      subst row
      cases isModule
    · obtain ⟨k, trace, rfl, listed, same⟩ := trace_of_image known inside
      obtain ⟨up, above, actual, _⟩ := node_of_trace listed
      rw [actual, Option.some.injEq] at row
      subst row
      exact ⟨trace, List.mem_of_getElem? listed, same, isModule⟩
  · rintro ⟨trace, member, rfl, isModule⟩
    obtain ⟨k, listed⟩ := List.mem_iff_getElem?.mp member
    obtain ⟨up, above, row, _⟩ := node_of_trace listed
    exact ⟨k + 1, _, image_trace listed, row, isModule⟩

theorem makesModule_of_statement (found : root.at? place = some n)
    (visited : root.role? source.toList place = some .statement)
    (declares : n.label.kind.isModule = true ∨ (n.label.kind = .ambientDeclaration ∧
      ∃ token ∈ n.children, token.label.isToken .global = true)) :
    root.MakesModule source place := by
  apply makesModule_iff.mpr
  rcases declares with isModule | ⟨isAmbient, token, member, isGlobal⟩
  · exact ⟨_, mem_forest found visited (Shape.ofKind_module isModule), rfl, rfl⟩
  · obtain ⟨first, shape⟩ := Shape.ambient_global member isGlobal
    have ofRole : Shape.ofRole source.toList n.label.kind n.children .statement =
        .node .moduleDeclaration (some first.label.span) .empty [] .globalParts := by
      rw [isAmbient]
      exact shape
    exact ⟨_, mem_forest found visited ofRole, rfl, rfl⟩

theorem isModuleBlock_of_block (visited : root.role? source.toList place = some .block) :
    ∃ outer, root.IsModuleBlock place outer ∧ root.MakesModule source outer := by
  rcases List.eq_nil_or_concat' place with rfl | ⟨above, i, rfl⟩
  · cases visited
  obtain ⟨n, role, context, part, reached, around, surrounds, child, taken⟩ :=
    role?_concat.mp visited
  have kinds := Shape.ofRole_surrounds surrounds
  cases Context.takes_of_roleOf? child taken with
  | body named isBody =>
      obtain ⟨rfl, declares⟩ := kinds.of_moduleParts
      exact ⟨above, ⟨i, n, part, rfl, around, child, Or.inl ⟨declares, isBody⟩⟩,
        makesModule_of_statement around reached (Or.inl declares)⟩
  | globalBlock named isBlock =>
      obtain ⟨rfl, isAmbient, hasGlobal⟩ := kinds.of_globalParts
      exact ⟨above, ⟨i, n, part, rfl, around, child, Or.inr ⟨isAmbient, hasGlobal, isBlock⟩⟩,
        makesModule_of_statement around reached (Or.inr ⟨isAmbient, hasGlobal⟩)⟩

theorem block_of_isModuleBlock (visited : root.role? source.toList place = some role)
    (isBlock : root.IsModuleBlock place outer) (isModule : root.MakesModule source outer) :
    role = .block := by
  obtain ⟨i, n, part, rfl, around, child, opens⟩ := isBlock
  obtain ⟨trace, member, atOuter, made⟩ := makesModule_iff.mp isModule
  obtain ⟨outerRole, context, reached, surrounds, taken⟩ := (role?_child around child).mp visited
  cases stands_forest trace member with
  | binding place m found binds => cases made
  | node place m traceRole kind nameSpan mods bound inner reached' found shape =>
      simp only [Trace.place, Trace.kind] at atOuter made
      subst atOuter made
      rw [reached, Option.some.injEq] at reached'
      subst reached'
      rw [around, Option.some.injEq] at found
      subst found
      rw [shape] at surrounds
      cases surrounds
      rcases (Shape.ofRole_becomes shape).of_moduleDeclaration rfl with
        ⟨declares, rfl⟩ | ⟨isAmbient, rfl⟩
      · rcases opens with ⟨_, isBody⟩ | ⟨isAmbient, _⟩
        · have isField := field_of_fieldAt? isBody child
          rw [Context.roleOf?_of_first rfl isBody child] at taken
          simp only [Context.role?, Context.namedRole, isField, if_true,
            Option.ite_none_right_eq_some, Option.some.injEq] at taken
          exact taken.2.symm
        · rw [isAmbient] at declares
          cases declares
      · rcases opens with ⟨declares, _⟩ | ⟨_, _, isBlock⟩
        · rw [isAmbient] at declares
          cases declares
        · rw [Context.roleOf?_of_free rfl child] at taken
          simp only [Context.role?, Context.namedRole, isBlock, if_true,
            Option.ite_none_right_eq_some, Option.some.injEq] at taken
          exact taken.2.symm

theorem block_iff (visited : root.role? source.toList place = some role) :
    role = .block ↔ ∃ outer, root.IsModuleBlock place outer ∧ root.MakesModule source outer := by
  constructor
  · rintro rfl
    exact isModuleBlock_of_block visited
  · rintro ⟨outer, isBlock, isModule⟩
    exact block_of_isModuleBlock visited isBlock isModule

end Node

/-- How the scopes of the variable statements of a tree follow a concrete tree, where `isBlock` tells
which places are blocks of modules. -/
def ScopesFollow (tree : SyntaxTree) (image : Place → Option NodeId) (isBlock : Place → Prop) :
    Prop :=
  ∀ place id node, image place = some id → tree.node? id = some node →
    node.kind = .variableStatement →
    ∃ above parent, Nearest image place above ∧ Declaration.parentKind tree node = .ok parent ∧
      (Scope.ofParent parent = .rootLevel ↔ above = []) ∧
      (Scope.ofParent parent = .namespaceLevel ↔ isBlock above) ∧
      (Scope.ofParent parent = .localLevel ↔ above ≠ [] ∧ ¬ isBlock above)

theorem ScopesFollow.congr {tree : SyntaxTree} {image : Place → Option NodeId}
    {isBlock isBlock' : Place → Prop} (follow : ScopesFollow tree image isBlock)
    (same : ∀ above, (image above).isSome = true → (isBlock above ↔ isBlock' above)) :
    ScopesFollow tree image isBlock' := by
  intro place id node known row isStatement
  obtain ⟨above, parent, nearest, read, root, block, inner⟩ := follow place id node known row isStatement
  have agree := same above nearest.2.2.1
  exact ⟨above, parent, nearest, read, root, block.trans agree,
    inner.trans (and_congr_right fun _ => not_congr agree)⟩

namespace Node

variable {source : String} {root : Node}

theorem not_isModuleBlock_nil {outer : Place} : ¬ root.IsModuleBlock [] outer := by
  rintro ⟨i, n, part, place, _⟩
  simp at place

theorem kind_of_hangs {trace : Trace} {outer : Trace}
    (member : outer ∈ Trace.allOf (root.forest source.toList)) (isChild : trace ∈ outer.children) :
    outer.kind ≠ .sourceFile ∧ (outer.kind = .moduleBlock ↔
      ∃ above, root.IsModuleBlock outer.place above ∧ root.MakesModule source above) := by
  cases stands_forest outer member with
  | binding place n found binds => simp [bindingTrace, Trace.children] at isChild
  | node place n role kind nameSpan mods bound context visited found shape =>
      have becomes := Shape.ofRole_becomes shape
      exact ⟨becomes.ne_sourceFile, becomes.moduleBlock_iff.trans (block_iff visited)⟩

theorem scopesFollow (source : String) (root : Node) :
    ScopesFollow (root.toSyntaxTree source) (root.image source.toList) fun above =>
      ∃ outer, root.IsModuleBlock above outer ∧ root.MakesModule source outer := by
  intro place id node known row isStatement
  have inside : place ≠ [] := by
    rintro rfl
    rw [image_root, Option.some.injEq] at known
    subst known
    rw [toSyntaxTree_root, Option.some.injEq] at row
    subst row
    cases isStatement
  obtain ⟨k, trace, rfl, listed, rfl⟩ := trace_of_image known inside
  obtain ⟨up, above, actual, parent, hangs⟩ := node_of_trace listed
  have nearest := nearest_of_trace (List.mem_of_getElem? listed) hangs
  rw [actual, Option.some.injEq] at row
  subst row
  -- The kind of the parent decides the scope; it comes from the trace that hangs at `above`.
  obtain ⟨outerNode, outerRow, atRoot, isBlock⟩ : ∃ outerNode,
      (root.toSyntaxTree source).node? up = some outerNode ∧
      (outerNode.kind = .sourceFile ↔ above = []) ∧
      (outerNode.kind = .moduleBlock ↔
        ∃ outer, root.IsModuleBlock above outer ∧ root.MakesModule source outer) := by
    rcases hangs with ⟨rfl, _⟩ | ⟨outer, member, rfl, isChild⟩
    · rw [image_root, Option.some.injEq] at parent
      subst parent
      refine ⟨_, toSyntaxTree_root source root, by simp, ?_⟩
      simp [not_isModuleBlock_nil]
    · obtain ⟨j, outerListed⟩ := List.mem_iff_getElem?.mp member
      rw [image_trace outerListed, Option.some.injEq] at parent
      subst parent
      obtain ⟨_, _, outerRow, _⟩ := node_of_trace outerListed
      obtain ⟨notRoot, isBlock⟩ := kind_of_hangs member isChild
      refine ⟨_, outerRow, ?_, isBlock⟩
      simp only [notRoot, forest_place_ne_nil outer member]
  refine ⟨above, some outerNode.kind, nearest, Declaration.parentKind_of_node rfl outerRow,
    Scope.ofParent_eq_rootLevel_iff.trans atRoot,
    Scope.ofParent_eq_namespaceLevel_iff.trans isBlock, ?_⟩
  rw [Scope.eq_localLevel_iff, Ne, Scope.ofParent_eq_rootLevel_iff, atRoot, Ne,
    Scope.ofParent_eq_namespaceLevel_iff, isBlock]

end Node

namespace Grammatical

variable {source : String} {root n : Node} {place above outer : Place}

theorem makesModule (grammatical : Grammatical root)
    (imaged : (root.image source.toList above).isSome = true)
    (isBlock : root.IsModuleBlock above outer) : root.MakesModule source outer := by
  obtain ⟨i, n, part, rfl, around, child, opens⟩ := isBlock
  have blockKind : part.label.kind = .statementBlock := by
    rcases opens with ⟨isModule, isBody⟩ | ⟨_, _, isBlock⟩
    · exact grammatical.bodies outer n around isModule part (List.mem_of_getElem? child)
        (Node.field_of_fieldAt? isBody child)
    · exact isBlock
  have noBinding : part.label.kind.isBinding = false := by
    rw [blockKind]
    rfl
  obtain ⟨role, kind, nameSpan, mods, bound, context, visited, shape⟩ :=
    Node.shape_of_image imaged (List.append_ne_nil_of_right_ne_nil outer (List.cons_ne_nil i []))
      (Node.at?_child around child) noBinding
  obtain ⟨outerRole, _, reached, _⟩ := (Node.role?_child around child).mp visited
  have isStatement : outerRole = .statement := by
    rcases opens with ⟨isModule, _⟩ | ⟨isAmbient, _⟩
    · obtain ⟨alone, noVariables⟩ := Kind.standsAlone_of_isModule isModule
      exact grammatical.role_eq_statement_of_kind around reached alone noVariables
    · apply grammatical.role_eq_statement_of_kind around reached <;> rw [isAmbient] <;> rfl
  subst isStatement
  refine Node.makesModule_of_statement around reached ?_
  rcases opens with ⟨isModule, _⟩ | ⟨isAmbient, hasGlobal, _⟩
  · exact Or.inl isModule
  · exact Or.inr ⟨isAmbient, hasGlobal⟩

theorem image_of_wrapper (grammatical : Grammatical root) (found : root.at? place = some n)
    (wraps : n.IsWrapper) : root.image source.toList place = none := by
  obtain ⟨alone, noVariables, noBinding⟩ := wraps.kind
  obtain ⟨inner, leaves⟩ := wraps.shape source.toList
  have inside := grammatical.inside_of_standsAlone found alone
  cases known : root.image source.toList place with
  | none => rfl
  | some id =>
      have imaged : (root.image source.toList place).isSome = true := by
        rw [known]
        rfl
      obtain ⟨role, kind, nameSpan, mods, bound, context, visited, shape⟩ :=
        Node.shape_of_image imaged inside found noBinding
      cases grammatical.role_eq_statement_of_kind found visited alone noVariables
      have disagree := shape.symm.trans leaves
      cases disagree

end Grammatical

/-- The nodes of a program's tree, their ranges and their parents are those of the concrete nodes that
have an image, and the scope of a variable statement is that of the nearest image around it. Under the
grammar, wrappers have no image, and every block of a module that has one opens a namespace. -/
theorem toSyntaxTree_follows_concrete (source : String) (root : Node) :
    Follows root (root.toSyntaxTree source) (root.image source.toList) ∧
    (ScopesFollow (root.toSyntaxTree source) (root.image source.toList) fun above =>
      ∃ outer, root.IsModuleBlock above outer ∧ root.MakesModule source outer) ∧
    (Grammatical root →
      (ScopesFollow (root.toSyntaxTree source) (root.image source.toList) fun above =>
        ∃ outer, root.IsModuleBlock above outer) ∧
      ∀ place n, root.at? place = some n → n.IsWrapper →
        root.image source.toList place = none) := by
  refine ⟨root.follows source, root.scopesFollow source, ?_⟩
  intro grammatical
  refine ⟨(root.scopesFollow source).congr ?_, ?_⟩
  · intro above imaged
    constructor
    · rintro ⟨outer, isBlock, _⟩
      exact ⟨outer, isBlock⟩
    · rintro ⟨outer, isBlock⟩
      exact ⟨outer, isBlock, grammatical.makesModule imaged isBlock⟩
  · intro place n found wraps
    exact grammatical.image_of_wrapper found wraps

theorem namespaceProgram_follows :
    Grammatical namespaceProgram ∧
    namespaceProgram.image namespaceText.toList [0, 0, 2, 1, 1] = some 3 ∧
    ((namespaceProgram.toSyntaxTree namespaceText).node? 3).map Syntax.Node.kind =
      some .variableStatement ∧
    (ScopesFollow (namespaceProgram.toSyntaxTree namespaceText)
      (namespaceProgram.image namespaceText.toList) fun above =>
        ∃ outer, namespaceProgram.IsModuleBlock above outer) ∧
    namespaceProgram.image namespaceText.toList [0, 0, 2, 1] = none := by
  obtain ⟨_, _, underGrammar⟩ := toSyntaxTree_follows_concrete namespaceText namespaceProgram
  obtain ⟨scopes, wrappers⟩ := underGrammar namespaceProgram_grammatical
  refine ⟨namespaceProgram_grammatical, by decide +kernel, by decide +kernel, scopes, ?_⟩
  exact wrappers [0, 0, 2, 1] _ rfl (Or.inl rfl)

end NamingLint.Concrete
