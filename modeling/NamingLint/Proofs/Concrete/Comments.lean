import NamingLint.Proofs.Concrete.Order
import NamingLint.Proofs.Convention.Views

/-! Comments do not count.

A comment may stand between any two tokens. It adds a named part to the node around it, so with it a
node may be outlined that is left out without it, and every later node has another number. Still no node
that the convention judges looks any different. -/

namespace NamingLint.Concrete

open Syntax (Outline View Modifiers)
open Syntax.Outline (viewsAll viewsAll_append)

theorem Kind.isComment_iff {kind : Kind} :
    kind.isComment = true ↔ kind = .comment ∨ kind = .other "html_comment" := by
  rw [Kind.isComment, Bool.or_eq_true, beq_iff_eq, beq_iff_eq]

/-- The second list has the nodes of the first but for some of the comments in it, at whatever depth. A
comment that is left out has no parts and no role for its parent. -/
inductive DropsComments : List Node → List Node → Prop
  | nil : DropsComments [] []
  | drop {label : Label} {parts rest : List Node} (isComment : label.kind.isComment = true)
      (noField : label.field = none) (later : DropsComments parts rest) :
      DropsComments (.mk label [] :: parts) rest
  | keep (label : Label) {inner kept parts rest : List Node} (below : DropsComments inner kept)
      (later : DropsComments parts rest) :
      DropsComments (.mk label inner :: parts) (.mk label kept :: rest)

def Label.counts (label : Label) : Bool := !label.kind.isComment || label.field.isSome

theorem Label.counts_of_field {label : Label} {field : Field} (has : label.field = some field) :
    label.counts = true := by
  rw [Label.counts, has, Option.isSome_some, Bool.or_true]

theorem Label.counts_of_kind {label : Label} (other : label.kind.isComment = false) :
    label.counts = true := by
  rw [Label.counts, other, Bool.not_false, Bool.true_or]

theorem Label.comment_of_not_counts {label : Label} (idle : label.counts = false) :
    label.kind = .comment ∨ label.kind = .other "html_comment" := by
  rw [Label.counts, Bool.or_eq_false_iff, Bool.not_eq_false'] at idle
  exact Kind.isComment_iff.mp idle.1

theorem Kind.binds_of_noField {kind : Kind} {label : Label} (once : kind.bindsOnce = true)
    (noField : label.field = none) : kind.binds label = false := by
  cases kind with
  | pairPattern | assignmentPattern | objectAssignmentPattern => simp [Kind.binds, noField]
  | _ => cases once

theorem Context.next_of_noField {label : Label} (noField : label.field = none) (context : Context) :
    context.next label = context := by
  cases asks : context.field? with
  | none => exact next_of_free asks label
  | some field => exact next_of_other asks (by simp [noField])

namespace DropsComments

variable {parts rest : List Node} (drops : DropsComments parts rest)
include drops

/-! What is read off the labels of the parts stays as it is. -/

theorem labels_eq :
    (rest.map Node.label).filter Label.counts = (parts.map Node.label).filter Label.counts := by
  induction drops with
  | nil => rfl
  | drop isComment noField later ih =>
      rw [ih, List.map_cons, List.filter_cons_of_neg]
      simp [Node.label, Label.counts, isComment, noField]
  | keep label below later ihBelow ihLater =>
      rw [List.map_cons, List.map_cons, List.filter_cons, List.filter_cons, ihLater]
      rfl

theorem find?_label_eq (test : Label → Bool)
    (counted : ∀ label, test label = true → label.counts = true) :
    (rest.find? fun part => test part.label).map Node.label =
      (parts.find? fun part => test part.label).map Node.label := by
  have onLabels (nodes : List Node) : (nodes.find? fun part => test part.label).map Node.label =
      ((nodes.map Node.label).filter Label.counts).find? test := by
    rw [List.find?_filter, List.find?_map]
    congr 2
    funext part
    cases passes : test part.label with
    | false => simp [passes]
    | true => simp [passes, counted _ passes]
  rw [onLabels, onLabels, drops.labels_eq]

theorem any_label_eq (test : Label → Bool)
    (counted : ∀ label, test label = true → label.counts = true) :
    (rest.any fun part => test part.label) = parts.any fun part => test part.label := by
  have found := congrArg Option.isSome (drops.find?_label_eq test counted)
  rwa [Option.isSome_map, Option.isSome_map, List.isSome_find?, List.isSome_find?] at found

theorem filterMap_label_eq {α : Type} {f : Label → Option α}
    (counted : ∀ label, label.counts = false → f label = none) :
    (rest.filterMap fun part => f part.label) = parts.filterMap fun part => f part.label := by
  have onLabels (nodes : List Node) : (nodes.filterMap fun part => f part.label) =
      ((nodes.map Node.label).filter Label.counts).filterMap f := by
    rw [List.filterMap_filter, List.filterMap_map]
    congr 1
    funext part
    cases counts : part.label.counts with
    | true => simp [counts]
    | false => simp [counts, counted _ counts]
  rw [onLabels, onLabels, drops.labels_eq]

theorem nameField?_eq : nameField? rest = nameField? parts :=
  drops.find?_label_eq (fun label => label.field == some .name) fun _ has =>
    Label.counts_of_field (beq_iff_eq.mp has)

theorem memberName?_eq : memberName? rest = memberName? parts := by
  rw [memberName?, memberName?, drops.nameField?_eq]

theorem methodName?_eq (source : List Char) : methodName? source rest = methodName? source parts := by
  have accessors := drops.any_label_eq (fun label => label.isToken .get || label.isToken .set) <| by
    intro label accessor
    simp only [Label.isToken, Bool.or_eq_true, Bool.and_eq_true, beq_iff_eq] at accessor
    apply Label.counts_of_kind
    rcases accessor with ⟨_, kind⟩ | ⟨_, kind⟩ <;> rw [kind] <;> rfl
  rw [methodName?, methodName?, accessors, drops.memberName?_eq]

theorem modifiers_eq (source : List Char) : modifiers source rest = modifiers source parts := by
  rw [modifiers, modifiers, drops.filterMap_label_eq]
  intro label idle
  rcases Label.comment_of_not_counts idle with kind | kind <;> rw [modifier?, kind]

theorem wrapsNamespace_eq : wrapsNamespace rest = wrapsNamespace parts := by
  apply drops.any_label_eq fun label => label.named && label.kind == .internalModule
  intro label wraps
  rw [Bool.and_eq_true, beq_iff_eq] at wraps
  apply Label.counts_of_kind
  rw [wraps.2]
  rfl

theorem ambient_eq : Shape.ambient rest = Shape.ambient parts := by
  have tokens := drops.find?_label_eq (fun label => label.isToken .global) <| by
    intro label isGlobal
    rw [Label.isToken, Bool.and_eq_true, beq_iff_eq] at isGlobal
    apply Label.counts_of_kind
    rw [isGlobal.2]
    rfl
  rw [Shape.ambient, Shape.ambient]
  generalize (rest.find? fun part => part.label.isToken .global) = first at tokens ⊢
  generalize (parts.find? fun part => part.label.isToken .global) = second at tokens ⊢
  cases first with
  | none =>
      cases second with
      | none => rfl
      | some token => cases tokens
  | some token =>
      cases second with
      | none => cases tokens
      | some twin =>
          rw [Option.map_some, Option.map_some, Option.some.injEq] at tokens
          simp only [tokens]

/-! Patterns bind the same names. -/

theorem bindingsOf_eq (kind : Kind) : Node.bindingsOf kind rest = Node.bindingsOf kind parts := by
  induction drops generalizing kind with
  | nil => rfl
  | @drop label parts rest isComment noField later ih =>
      have nothing : Node.bindings (.mk label []) = [] := by
        rcases Kind.isComment_iff.mp isComment with comment | comment <;>
          simp [Node.bindings, Node.bindingsOf, Kind.isBinding, comment]
      rw [ih, Node.bindingsOf, nothing, List.nil_append]
      cases once : kind.bindsOnce with
      | false => simp
      | true => simp [Node.label, Kind.binds_of_noField once noField]
  | keep label below later ihBelow ihLater =>
      rw [Node.bindingsOf, Node.bindingsOf, ihLater, Node.bindings, Node.bindings, ihBelow]
      rfl

theorem field?_bindings_eq (field : Field) :
    (Node.field? field rest).map Node.bindings = (Node.field? field parts).map Node.bindings := by
  induction drops with
  | nil => rfl
  | drop isComment noField later ih =>
      rw [ih, Node.field?, Node.field?, List.find?_cons_of_neg]
      simp [Node.label, noField]
  | keep label below later ihBelow ihLater =>
      simp only [Node.field?, List.find?_cons, Node.label] at ihLater ⊢
      cases label.field == some field with
      | false => exact ihLater
      | true => simp only [Option.map_some, Node.bindings, below.bindingsOf_eq]

theorem boundNames_eq : boundNames rest = boundNames parts := by
  induction drops with
  | nil => rfl
  | @drop label parts rest isComment noField later ih =>
      have other : label.isDeclarator = false := by
        rcases Kind.isComment_iff.mp isComment with comment | comment <;> simp [Label.isDeclarator, comment]
      rw [ih, boundNames, boundNames, List.filter_cons_of_neg]
      simp [Node.label, other]
  | keep label below later ihBelow ihLater =>
      simp only [boundNames, List.filter_cons, Node.label] at ihLater ⊢
      split
      · rw [List.flatMap_cons, List.flatMap_cons, ihLater]
        simp only [Node.children, below.field?_bindings_eq]
      · exact ihLater

/-! A node keeps its shape, unless nothing but comments made it one. -/

theorem any_named (named : (rest.any fun part => part.label.named) = true) :
    (parts.any fun part => part.label.named) = true := by
  induction drops with
  | nil => exact named
  | drop isComment noField later ih => rw [List.any_cons, ih named, Bool.or_true]
  | keep label below later ihBelow ihLater =>
      rw [List.any_cons, Bool.or_eq_true] at named ⊢
      exact named.imp id ihLater

end DropsComments

/-- The shape of a node and that without some of its comments: the same, or that of a plain node which
is left out because no named part is left. -/
inductive Shape.Keeps (rest : List Node) : Shape → Shape → Prop
  | same (shape : Shape) : Keeps rest shape shape
  | emptied (bare : (rest.any fun part => part.label.named) = false) :
      Keeps rest (.node .other none .empty [] .statements) .nothing

namespace DropsComments

variable {parts rest : List Node} (drops : DropsComments parts rest)
include drops

theorem plain_keeps : Shape.Keeps rest (Shape.plain parts) (Shape.plain rest) := by
  cases named : rest.any fun part => part.label.named with
  | true =>
      rw [Shape.plain, Shape.plain, named, drops.any_named named]
      exact .same _
  | false =>
      rw [Shape.plain, Shape.plain, named]
      cases parts.any fun part => part.label.named with
      | true => exact .emptied named
      | false => exact .same _

theorem member_keeps (source : List Char) (kind : Syntax.Kind) (name : Option Label) :
    Shape.Keeps rest (Shape.member source kind name parts) (Shape.member source kind name rest) := by
  cases name with
  | none => exact drops.plain_keeps
  | some name =>
      rw [Shape.member, Shape.member, drops.modifiers_eq]
      exact .same _

theorem method_keeps (source : List Char) :
    Shape.Keeps rest (Shape.method source parts) (Shape.method source rest) := by
  rw [Shape.method, Shape.method, drops.methodName?_eq]
  exact drops.member_keeps source _ _

theorem ofKind_keeps (source : List Char) (kind : Kind) :
    Shape.Keeps rest (Shape.ofKind source parts kind) (Shape.ofKind source rest kind) := by
  cases kind with
  | comment | exportStatement | classBody | forStatement => exact .same _
  | ambientDeclaration =>
      rw [Shape.ofKind, Shape.ofKind, drops.ambient_eq]
      exact .same _
  | expressionStatement =>
      rw [Shape.ofKind, Shape.ofKind, drops.wrapsNamespace_eq]
      split
      · exact .same _
      · exact drops.plain_keeps
  | moduleNode | internalModule =>
      rw [Shape.ofKind, Shape.ofKind, drops.nameField?_eq]
      exact .same _
  | classDeclaration | abstractClassDeclaration | interfaceDeclaration | enumDeclaration =>
      rw [Shape.ofKind, Shape.ofKind, Shape.type, Shape.type, drops.nameField?_eq]
      exact .same _
  | methodDefinition | abstractMethodSignature => exact drops.method_keeps source
  | publicFieldDefinition =>
      rw [Shape.ofKind, Shape.ofKind, drops.memberName?_eq]
      exact drops.member_keeps source _ _
  | lexicalDeclaration | variableDeclaration =>
      rw [Shape.ofKind, Shape.ofKind, drops.boundNames_eq]
      exact .same _
  | _ => exact drops.plain_keeps

theorem ofRole_keeps (source : List Char) (kind : Kind) (role : Role) :
    Shape.Keeps rest (Shape.ofRole source kind parts role) (Shape.ofRole source kind rest role) := by
  cases role with
  | statement => exact drops.ofKind_keeps source kind
  | method => exact drops.method_keeps source
  | block | transparent | declarator => exact .same _

end DropsComments

/-! The judged nodes look the same. -/

theorem Node.outlines_kind {source : List Char} (n : Node) (role : Role) :
    ∀ outline ∈ n.outlines source role, outline.content.kind ≠ .variableDeclaration := by
  intro outline member
  rw [← Node.traces_outlines source role [] n, Trace.outlines_eq_map] at member
  obtain ⟨trace, inside, rfl⟩ := List.mem_map.mp member
  have kind : trace.outline.content.kind = trace.kind := by
    cases trace
    rfl
  rw [kind]
  exact n.traces_kind role [] trace inside

theorem declared_outlinesOf (source : List Char) (context : Context) (parts : List Node) :
    Outline.declared (Node.outlinesOf source context parts) = [] := by
  rw [Outline.declared, List.filter_eq_nil_iff, List.forall_mem_map]
  induction parts generalizing context with
  | nil => exact List.forall_mem_nil _
  | cons part parts ih =>
      rw [Node.outlinesOf, List.forall_mem_append]
      refine ⟨?_, ih _⟩
      cases context.role? part.label with
      | none => exact List.forall_mem_nil _
      | some role =>
          intro outline member
          rw [beq_iff_eq]
          exact part.outlines_kind role outline member

def judgedViews (outer : Syntax.Kind × Span) (outlines : List Outline) : List View :=
  (viewsAll outer outlines).filter View.judged

theorem judgedViews_append (outer : Syntax.Kind × Span) (front back : List Outline) :
    judgedViews outer (front ++ back) = judgedViews outer front ++ judgedViews outer back := by
  rw [judgedViews, viewsAll_append, List.filter_append, judgedViews, judgedViews]

theorem judgedViews_node_congr {children others : List Outline}
    (declared : Outline.declared others = Outline.declared children)
    (below : ∀ outer, judgedViews outer others = judgedViews outer children)
    (outer : Syntax.Kind × Span) (kind : Syntax.Kind) (span : Span) (nameSpan : Option Span)
    (modifiers : Modifiers) :
    judgedViews outer [.node kind span nameSpan modifiers others] =
      judgedViews outer [.node kind span nameSpan modifiers children] := by
  have inside := below (kind, span)
  simp only [judgedViews, Outline.viewsAll, Outline.views, List.append_nil, List.filter_cons,
    declared] at inside ⊢
  rw [inside]

theorem judgedViews_other (outer : Syntax.Kind × Span) (span : Span) (children : List Outline) :
    judgedViews outer [.node .other span none .empty children] =
      judgedViews (.other, span) children := by
  simp [judgedViews, Outline.viewsAll, Outline.views, View.judged, Convention.silentKinds]

theorem Context.role?_of_comment {label : Label} (isComment : label.kind.isComment = true)
    (noField : label.field = none) {context : Context} {role : Role}
    (taken : context.role? label = some role) : role = .statement := by
  -- A part that stands alone has its role from the context as it is.
  have child : [Node.mk label []][0]? = some (.mk label []) := rfl
  have alone : context.roleOf? [.mk label []] 0 = some role := taken
  cases Context.takes_of_roleOf? child alone with
  | statement => rfl
  | body named isBody =>
      have isField := Node.field_of_fieldAt? isBody child
      simp [Node.label, noField] at isField
  | globalBlock named isBlock =>
      rw [Node.label] at isBlock
      simp [isBlock, Kind.isComment] at isComment
  | signature named isSignature =>
      rw [Node.label] at isSignature
      simp [isSignature, Kind.isComment] at isComment
  | loopVariables named declares isInitializer =>
      have isField := Node.field_of_fieldAt? isInitializer child
      simp [Node.label, noField] at isField
  | declarator declares =>
      rw [Node.label, Label.isDeclarator, Bool.and_eq_true, beq_iff_eq] at declares
      simp [declares.2, Kind.isComment] at isComment

theorem Node.outlines_of_comment (source : List Char) {label : Label}
    (isComment : label.kind.isComment = true) :
    Node.outlines source .statement (.mk label []) = [] := by
  rcases Kind.isComment_iff.mp isComment with comment | comment <;>
    simp [Node.outlines, Shape.ofRole, Shape.ofKind, Shape.plain, comment]

theorem Node.outlinesOf_of_bare (source : List Char) {parts : List Node}
    (bare : (parts.any fun part => part.label.named) = false) :
    Node.outlinesOf source .statements parts = [] := by
  induction parts with
  | nil => rfl
  | cons part parts ih =>
      rw [List.any_cons, Bool.or_eq_false_iff] at bare
      have stays : Context.next .statements part.label = .statements := rfl
      have leftOut : Context.role? .statements part.label = none := by simp [Context.role?, bare.1]
      rw [Node.outlinesOf, stays, ih bare.2, leftOut]
      rfl

namespace DropsComments

theorem judgedViews_outlines {source : List Char} {inner kept : List Node}
    (drops : DropsComments inner kept)
    (below : ∀ context outer, judgedViews outer (Node.outlinesOf source context kept) =
      judgedViews outer (Node.outlinesOf source context inner))
    (label : Label) (role : Role) (outer : Syntax.Kind × Span) :
    judgedViews outer (Node.outlines source role (.mk label kept)) =
      judgedViews outer (Node.outlines source role (.mk label inner)) := by
  have keeps := drops.ofRole_keeps source label.kind role
  rw [Node.outlines, Node.outlines]
  generalize Shape.ofRole source label.kind inner role = shape at keeps ⊢
  generalize Shape.ofRole source label.kind kept role = pruned at keeps ⊢
  cases keeps with
  | same =>
      cases shape with
      | nothing => rfl
      | parts context => exact below context outer
      | node kind nameSpan modifiers bound context =>
          apply judgedViews_node_congr
          · rw [Outline.declared_append, Outline.declared_append, declared_outlinesOf,
              declared_outlinesOf]
          · intro outer
            rw [judgedViews_append, judgedViews_append, below]
  | emptied bare =>
      have nothing := below .statements (.other, label.span)
      rw [Node.outlinesOf_of_bare source bare] at nothing
      exact nothing.trans (judgedViews_other outer label.span _).symm

/-- Some nodes: induction over what is left out, with the context and the node around them general
because each step down changes both. -/
theorem judgedViews_outlinesOf {source : List Char} {parts rest : List Node}
    (drops : DropsComments parts rest) (context : Context) (outer : Syntax.Kind × Span) :
    judgedViews outer (Node.outlinesOf source context rest) =
      judgedViews outer (Node.outlinesOf source context parts) := by
  induction drops generalizing context outer with
  | nil => rfl
  | @drop label parts rest isComment noField later ih =>
      rw [ih, Node.outlinesOf]
      simp only [Node.label, Context.next_of_noField noField]
      cases taken : context.role? label with
      | none => rfl
      | some role =>
          rw [Context.role?_of_comment isComment noField taken]
          simp only [Node.outlines_of_comment source isComment, List.nil_append]
  | keep label below later ihBelow ihLater =>
      rw [Node.outlinesOf, Node.outlinesOf, judgedViews_append, judgedViews_append, ihLater]
      congr 1
      simp only [Node.label]
      cases context.role? label with
      | none => rfl
      | some role => exact below.judgedViews_outlines ihBelow label role outer

end DropsComments

theorem judged_of_toSyntaxTree (source : String) (root : Node) :
    ((root.toSyntaxTree source).preorder.map (root.toSyntaxTree source).view).filter View.judged =
      judgedViews (.sourceFile, ⟨0, Text.byteLength source.toList⟩)
        (Node.outlinesOf source.toList .statements root.children) := by
  rw [Node.toSyntaxTree, Syntax.treeOfOutlines_views, List.filter_cons_of_neg, judgedViews]
  simp [View.judged, Convention.silentKinds]

/-- Whichever comments are left out of a program, the verdict on it is the same: the same findings in the
same order, or the same error. -/
theorem check_ignores_comments {root pruned : Node}
    (drops : DropsComments root.children pruned.children) (source : String) (tips : Convention.Tips) :
    Convention.check tips (pruned.toSyntaxTree source) =
      Convention.check tips (root.toSyntaxTree source) := by
  have linked (n : Node) : (n.toSyntaxTree source).Linked :=
    (SyntaxTree.grown_treeOfOutlines source _).built.linked
  apply (linked root).check_eq_of_views (linked pruned)
  · rw [Node.toSyntaxTree, Node.toSyntaxTree, Syntax.treeOfOutlines_source,
      Syntax.treeOfOutlines_source]
  · rw [judged_of_toSyntaxTree, judged_of_toSyntaxTree, drops.judgedViews_outlinesOf]

section Sample

def commentedText : String := "(/*n*/); let [a, /*b*/ C] = 1;"

def programWithComments (inside within : List Node) : Node :=
  .inner (.other "program") 0 30 none
    [.inner .expressionStatement 0 8 none
      [.inner (.other "parenthesized_expression") 0 7 none
        ([.token "(" 0 1] ++ inside ++ [.token ")" 6 7]),
        .token ";" 7 8],
      .inner .lexicalDeclaration 9 30 none
        [.token "let" 9 12,
          .inner .variableDeclarator 13 29 none
            [.inner .arrayPattern 13 25 (some .name)
              ([.token "[" 13 14, .inner .identifier 14 15 none [], .token "," 15 16] ++ within ++
                [.inner .identifier 23 24 none [], .token "]" 24 25]),
              .token "=" 26 27, .inner (.other "number") 28 29 (some .value) []],
          .token ";" 29 30]]

def commentedProgram : Node :=
  programWithComments [.inner .comment 1 6 none []] [.inner .comment 17 22 none []]

def bareProgram : Node := programWithComments [] []

theorem commentedProgram_same_verdict :
    DropsComments commentedProgram.children bareProgram.children ∧
    (commentedProgram.toSyntaxTree commentedText).size = 6 ∧
    (bareProgram.toSyntaxTree commentedText).size = 5 ∧
    Convention.check .egret (commentedProgram.toSyntaxTree commentedText) =
      .ok [⟨.rootVariable, ⟨14, 1⟩, Convention.Tips.egret .rootVariable⟩,
        ⟨.globalVariable, ⟨23, 1⟩, Convention.Tips.egret .globalVariable⟩] ∧
    Convention.check .egret (bareProgram.toSyntaxTree commentedText) =
      Convention.check .egret (commentedProgram.toSyntaxTree commentedText) := by
  have drops : DropsComments commentedProgram.children bareProgram.children := by
    repeat first | exact .nil | apply DropsComments.keep | apply DropsComments.drop rfl rfl
  exact ⟨drops, by decide +kernel, by decide +kernel, by decide +kernel,
    check_ignores_comments drops commentedText .egret⟩

end Sample

end NamingLint.Concrete
