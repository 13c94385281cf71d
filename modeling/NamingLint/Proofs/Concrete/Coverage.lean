import NamingLint.Concrete.Node
import NamingLint.Proofs.Concrete.Grammar
import NamingLint.Proofs.Concrete.WellFormed

/-! Which declarations of a program reach its syntax tree.

A declaration is lost exactly if it stands in a part of a declarator other than the initial value:
patterns and types are searched for bound names only. -/

def NamingLint.Syntax.Kind.isDeclared : NamingLint.Syntax.Kind → Bool
  | .classDeclaration | .interfaceDeclaration | .enumDeclaration | .moduleDeclaration
  | .methodDeclaration | .variableStatement => true
  | _ => false

namespace NamingLint.Concrete

namespace Shape

theorem plain_context? {parts : List Node} {part : Node} (member : part ∈ parts)
    (named : part.label.named = true) : (plain parts).context? = some .statements := by
  rw [plain, if_pos (List.any_eq_true.mpr ⟨part, member, named⟩)]
  rfl

theorem member_context? {source : List Char} {kind : Syntax.Kind} {name : Option Label}
    {parts : List Node} {part : Node} (inside : part ∈ parts) (named : part.label.named = true) :
    (member source kind name parts).context? = some .statements := by
  cases name with
  | none => exact plain_context? inside named
  | some name => rfl

theorem context?_of_named {source : List Char} {parts : List Node} {kind : Kind} {role : Role}
    {part : Node} (member : part ∈ parts) (named : part.label.named = true)
    (noComment : kind ≠ .comment) :
    ∃ context, (ofRole source kind parts role).context? = some context := by
  cases role with
  | block | transparent | declarator => exact ⟨_, rfl⟩
  | method => exact ⟨_, member_context? member named⟩
  | statement =>
      cases kind with
      | comment => exact absurd rfl noComment
      | exportStatement | classBody | moduleNode | internalModule | classDeclaration
      | abstractClassDeclaration | interfaceDeclaration | enumDeclaration | lexicalDeclaration
      | variableDeclaration | forStatement => exact ⟨_, rfl⟩
      | ambientDeclaration =>
          simp only [ofRole, ofKind, ambient]
          split <;> exact ⟨_, rfl⟩
      | expressionStatement =>
          simp only [ofRole, ofKind]
          split
          · exact ⟨_, rfl⟩
          · exact ⟨_, plain_context? member named⟩
      | methodDefinition | abstractMethodSignature | publicFieldDefinition =>
          exact ⟨_, member_context? member named⟩
      | _ => exact ⟨_, plain_context? member named⟩

end Shape

namespace Node

/-- A place in a part of a declarator that is not its initial value. Loops have no such places, since
the declarators of a loop are outlined like any other node. -/
def IsHidden (root : Node) (place : Place) : Prop :=
  ∃ (above : Place) (i j : Nat) (rest : Place) (outer declarator part : Node),
    place = above ++ i :: j :: rest ∧ root.at? above = some outer ∧
    outer.label.kind.isVariables = true ∧ ¬ root.IsLoopInitializer above ∧
    outer.children[i]? = some declarator ∧ declarator.label.isDeclarator = true ∧
    declarator.children[j]? = some part ∧ Node.fieldAt? .value declarator.children ≠ some j

theorem IsHidden.below {root : Node} {above : Place} (hidden : root.IsHidden above) (rest : Place) :
    root.IsHidden (above ++ rest) := by
  obtain ⟨front, i, j, back, outer, declarator, part, rfl, parts⟩ := hidden
  exact ⟨front, i, j, back ++ rest, outer, declarator, part, by simp, parts⟩

theorem role?_of_append {source : List Char} {root : Node} {above rest : Place} {role : Role}
    (visited : root.role? source (above ++ rest) = some role) :
    ∃ outerRole, root.role? source above = some outerRole := by
  induction rest using List.reverseRecOn generalizing role with
  | nil =>
      rw [List.append_nil] at visited
      exact ⟨role, visited⟩
  | append_singleton rest i ih =>
      rw [← List.append_assoc] at visited
      obtain ⟨_, outerRole, _, _, reached, _⟩ := role?_concat.mp visited
      exact ih reached

end Node

theorem Kind.standsAlone_of_isVariables {kind : Kind} (declares : kind.isVariables = true) :
    kind.standsAlone = true ∧ kind.isBinding = false ∧ kind.isComment = false := by
  rcases Kind.isVariables_iff.mp declares with rfl | rfl <;> exact ⟨rfl, rfl, rfl⟩

theorem Kind.isSolid_of_isVariables {kind : Kind} (declares : kind.isVariables = true) :
    kind.isSolid = true := by
  rcases Kind.isVariables_iff.mp declares with rfl | rfl <;> rfl

theorem Kind.isSolid_of_isModule {kind : Kind} (declares : kind.isModule = true) :
    kind.isSolid = true := by
  rcases Kind.isModule_iff.mp declares with rfl | rfl <;> rfl

theorem Shape.ofKind_variables {source : List Char} {parts : List Node} {kind : Kind}
    (declares : kind.isVariables = true) :
    ofKind source parts kind = .node .variableStatement none .empty (boundNames parts) .declarators := by
  rcases Kind.isVariables_iff.mp declares with rfl | rfl <;> rfl

namespace Grammatical

variable {source : List Char} {root n : Node} {place : Place} {role : Role}

theorem role_of_loopInitializer (grammatical : Grammatical root) (found : root.at? place = some n)
    (declares : n.label.kind.isVariables = true) (initializes : root.IsLoopInitializer place)
    (visited : root.role? source place = some role) : role = .transparent := by
  obtain ⟨above, i, outer, part, rfl, around, isLoop, child, isInitializer⟩ := initializes
  obtain ⟨outerRole, context, reached, surrounds, taken⟩ :=
    (Node.role?_child around child).mp visited
  have same := Node.at?_child around child
  rw [found, Option.some.injEq] at same
  subst same
  have isStatement : outerRole = .statement := by
    apply grammatical.role_eq_statement_of_kind around reached <;> rw [isLoop] <;> rfl
  subst isStatement
  rw [isLoop] at surrounds
  cases surrounds
  have isField := Node.field_of_fieldAt? isInitializer child
  rw [Context.roleOf?_of_first rfl isInitializer child] at taken
  simp only [Context.role?, Context.namedRole, declares, isField, BEq.rfl, Bool.and_self,
    if_true, Option.ite_none_right_eq_some, Option.some.injEq] at taken
  exact taken.2.symm

theorem hidden_of_declarator (grammatical : Grammatical root) {declarator part : Node} {i : Nat}
    (found : root.at? place = some declarator)
    (visited : root.role? source place = some .declarator)
    (child : declarator.children[i]? = some part)
    (noValue : Node.fieldAt? .value declarator.children ≠ some i) :
    root.IsHidden (place ++ [i]) := by
  rcases List.eq_nil_or_concat' place with rfl | ⟨above, j, rfl⟩
  · cases visited
  obtain ⟨outer, around, first⟩ := Node.at?_child_inv found
  obtain ⟨outerRole, context, reached, surrounds, taken⟩ :=
    (Node.role?_child around first).mp visited
  cases Context.takes_of_roleOf? first taken with
  | declarator declares =>
      obtain ⟨rfl, isVariables⟩ := (Shape.ofRole_surrounds surrounds).of_declarators
      have noLoop : ¬ root.IsLoopInitializer above := fun initializes =>
        Role.noConfusion (grammatical.role_of_loopInitializer around isVariables initializes reached)
      exact ⟨above, j, i, [], outer, declarator, part, by simp, around, isVariables, noLoop, first,
        declares, child, noValue⟩

theorem interior (grammatical : Grammatical root) (found : root.at? place = some n) {part : Node}
    {i : Nat} (child : n.children[i]? = some part) :
    n.label.named = true ∧ n.label.kind.isComment = false := by
  by_contra leaf
  rw [not_and_or, Bool.not_eq_true, Bool.not_eq_false] at leaf
  rw [grammatical.leaves place n found leaf] at child
  simp at child

theorem visited_of_not_hidden (grammatical : Grammatical root) (found : root.at? place = some n)
    (named : n.label.named = true) (noComment : n.label.kind.isComment = false)
    (seen : ¬ root.IsHidden place) : ∃ role, root.role? source place = some role := by
  induction place using List.reverseRecOn generalizing n with
  | nil => exact ⟨.transparent, rfl⟩
  | append_singleton above i ih =>
      obtain ⟨outer, around, child⟩ := Node.at?_child_inv found
      have member := List.mem_of_getElem? child
      obtain ⟨outerNamed, outerNoComment⟩ := grammatical.interior around child
      obtain ⟨role, reached⟩ := ih around outerNamed outerNoComment fun hidden =>
        seen (hidden.below [i])
      have outerKind : outer.label.kind ≠ .comment := by
        intro isComment
        rw [isComment] at outerNoComment
        cases outerNoComment
      obtain ⟨context, surrounds⟩ := Shape.context?_of_named member named outerKind
      suffices taken : ∃ inner, context.roleOf? outer.children i = some inner by
        obtain ⟨inner, taken⟩ := taken
        exact ⟨inner, (Node.role?_child around child).mpr
          ⟨role, context, reached, surrounds, taken⟩⟩
      have kinds := Shape.ofRole_surrounds surrounds
      cases context with
      | nothing => exact absurd rfl kinds.ne_nothing
      | statements | globalParts | classMembers =>
          rw [Context.roleOf?_of_free rfl child]
          exact ⟨_, if_pos named⟩
      | moduleParts | loopParts =>
          rw [Context.roleOf?_of_child child]
          rcases Context.after_cases _ (outer.children.take i) with stays | moved
          · rw [stays]
            exact ⟨_, if_pos named⟩
          · rw [moved]
            exact ⟨_, if_pos named⟩
      | declarators =>
          rw [Context.roleOf?_of_free rfl child]
          refine ⟨.declarator, if_pos ?_⟩
          rcases grammatical.declarators above outer around kinds.of_declarators.2 n member named with
            isDeclarator | isComment
          · simp [Label.isDeclarator, named, isDeclarator]
          · rw [noComment] at isComment
            cases isComment
      | initialValue =>
          have isDeclarator := kinds.of_initialValue
          subst isDeclarator
          have isValue : Node.fieldAt? .value outer.children = some i := by
            by_contra noValue
            exact seen (grammatical.hidden_of_declarator around reached child noValue)
          rw [Context.roleOf?_of_first rfl isValue child]
          exact ⟨.statement, if_pos (Node.field_of_fieldAt? isValue child)⟩

theorem not_visited_of_hidden (grammatical : Grammatical root) (hidden : root.IsHidden place) :
    root.role? source place = none := by
  obtain ⟨above, i, j, rest, outer, declarator, part, rfl, around, isVariables, noLoop, first,
    isDeclarator, second, noValue⟩ := hidden
  cases visited : root.role? source (above ++ i :: j :: rest) with
  | none => rfl
  | some role =>
      exfalso
      have split : above ++ i :: j :: rest = (above ++ [i] ++ [j]) ++ rest := by simp
      rw [split] at visited
      obtain ⟨partRole, reached⟩ := Node.role?_of_append visited
      obtain ⟨declaratorRole, context, reached, surrounds, taken⟩ :=
        (Node.role?_child (Node.at?_child around first) second).mp reached
      obtain ⟨outerRole, outerContext, reached, outerSurrounds, declaratorTaken⟩ :=
        (Node.role?_child around first).mp reached
      -- The statement is outlined as one, so its declarator takes the initial value only.
      have isStatement : outerRole = .statement :=
        grammatical.role_eq_statement around reached (Kind.standsAlone_of_isVariables isVariables).1
          fun _ => noLoop
      subst isStatement
      rw [Shape.ofRole, Shape.ofKind_variables isVariables] at outerSurrounds
      cases outerSurrounds
      rw [Context.roleOf?_of_free rfl first, Context.role?, if_pos isDeclarator] at declaratorTaken
      cases declaratorTaken
      cases surrounds
      exact noValue (Context.first_of_initialValue second taken)

end Grammatical

/-- What the concrete node at a place declares: a type, a module, variables or a method. Variables of a
loop, accessors and constructors declare nothing. -/
inductive Node.Declares (source : List Char) (root : Node) (place : Place) (n : Node) :
    Syntax.Kind → Prop
  | type (made : Syntax.Kind) (declares : DeclaresType n.label.kind made) :
      Declares source root place n made
  | module (declares : n.label.kind.isModule = true) :
      Declares source root place n .moduleDeclaration
  | variableStatement (declares : n.label.kind.isVariables = true)
      (noLoop : ¬ root.IsLoopInitializer place) : Declares source root place n .variableStatement
  | method (name : Label)
      (declares : n.label.kind = .methodDefinition ∨ n.label.kind = .abstractMethodSignature)
      (noAccessor : ∀ part ∈ n.children,
        part.label.isToken .get = false ∧ part.label.isToken .set = false)
      (called : nameField? n.children = some name)
      (isIdentifier : name.kind = .propertyIdentifier ∨ name.kind = .privatePropertyIdentifier)
      (noConstructor : name.text source ≠ "constructor") :
      Declares source root place n .methodDeclaration

theorem methodName?_of_identifier {source : List Char} {parts : List Node} {name : Label}
    (noAccessor : ∀ part ∈ parts, part.label.isToken .get = false ∧ part.label.isToken .set = false)
    (called : nameField? parts = some name)
    (isIdentifier : name.kind = .propertyIdentifier ∨ name.kind = .privatePropertyIdentifier)
    (noConstructor : name.text source ≠ "constructor") :
    methodName? source parts = some name := by
  have noAccess :
      ¬ (parts.any fun part => part.label.isToken .get || part.label.isToken .set) = true := by
    rw [List.any_eq_true]
    rintro ⟨part, member, accessor⟩
    rw [(noAccessor part member).1, (noAccessor part member).2] at accessor
    cases accessor
  have isMember : memberName? parts = some name := by
    rw [memberName?, Option.filter_eq_some_iff]
    exact ⟨called, by simpa using isIdentifier⟩
  rw [methodName?, if_neg noAccess, Option.filter_eq_some_iff]
  exact ⟨isMember, by simpa using noConstructor⟩

namespace Node.Declares

variable {source : List Char} {root n : Node} {place : Place} {made : Syntax.Kind}

theorem kind (declares : root.Declares source place n made) :
    n.label.kind.standsAlone = true ∧ n.label.kind.isBinding = false ∧
      n.label.kind.isComment = false := by
  cases declares with
  | type made declares =>
      generalize n.label.kind = kind at declares
      cases declares <;> exact ⟨rfl, rfl, rfl⟩
  | module declares =>
      rcases Kind.isModule_iff.mp declares with isKind | isKind <;> rw [isKind] <;> exact ⟨rfl, rfl, rfl⟩
  | variableStatement declares => exact Kind.standsAlone_of_isVariables declares
  | method name declares =>
      rcases declares with isKind | isKind <;> rw [isKind] <;> exact ⟨rfl, rfl, rfl⟩

theorem noLoop (declares : root.Declares source place n made)
    (isVariables : n.label.kind.isVariables = true) : ¬ root.IsLoopInitializer place := by
  cases declares with
  | type made declares =>
      generalize n.label.kind = kind at declares isVariables
      cases declares <;> cases isVariables
  | module declares =>
      rw [(Kind.standsAlone_of_isModule declares).2] at isVariables
      cases isVariables
  | variableStatement declares noLoop => exact noLoop
  | method name declares =>
      rcases declares with isKind | isKind <;> rw [isKind] at isVariables <;> cases isVariables

theorem shape (declares : root.Declares source place n made) :
    ∃ nameSpan mods bound context, Shape.ofKind source n.children n.label.kind =
      .node made nameSpan mods bound context := by
  cases declares with
  | type made declares =>
      generalize n.label.kind = kind at declares
      cases declares <;> exact ⟨_, _, _, _, rfl⟩
  | module declares => exact ⟨_, _, _, _, Shape.ofKind_module declares⟩
  | variableStatement declares => exact ⟨_, _, _, _, Shape.ofKind_variables declares⟩
  | method name declares noAccessor called isIdentifier noConstructor =>
      have isMethod := methodName?_of_identifier noAccessor called isIdentifier noConstructor
      refine ⟨some name.span, modifiers source n.children, [], .statements, ?_⟩
      rcases declares with isKind | isKind <;> rw [isKind] <;>
        simp only [Shape.ofKind, Shape.method, Shape.member, isMethod]

theorem isSolid (declares : root.Declares source place n made) : n.label.kind.isSolid = true := by
  cases declares with
  | type made declares =>
      generalize n.label.kind = kind at declares
      cases declares <;> rfl
  | module declares => exact Kind.isSolid_of_isModule declares
  | variableStatement declares => exact Kind.isSolid_of_isVariables declares
  | method name declares => rcases declares with isKind | isKind <;> rw [isKind] <;> rfl

theorem isDeclared (declares : root.Declares source place n made) : made.isDeclared = true := by
  cases declares with
  | type made declares =>
      generalize n.label.kind = kind at declares
      cases declares <;> rfl
  | module | variableStatement | method => rfl

end Node.Declares

theorem Becomes.isSolid {source : List Char} {parts : List Node} {role : Role} {kind : Kind}
    {made : Syntax.Kind} {nameSpan : Option Span} {mods : Syntax.Modifiers} {bound : List Label}
    {context : Context} (becomes : Becomes source parts role kind made nameSpan mods bound context)
    (declared : made.isDeclared = true) (signature : role = .method → kind = .methodSignature) :
    kind.isSolid = true := by
  cases becomes with
  | block | plain | loop | property => cases declared
  | type kind declared declares => cases declares <;> rfl
  | module kind declares => exact Kind.isSolid_of_isModule declares
  | global => rfl
  | method role kind name declares =>
      cases declares with
      | definition | abstractSignature => rfl
      | signature => rw [signature rfl]; rfl
  | variableStatement kind declares => exact Kind.isSolid_of_isVariables declares

theorem Grammatical.isSolid_of_trace {source : List Char} {root : Node} {trace : Trace}
    (grammatical : Grammatical root) (member : trace ∈ Trace.allOf (root.forest source))
    (declared : trace.kind.isDeclared = true) : trace.label.kind.isSolid = true := by
  have inside := Node.forest_place_ne_nil trace member
  cases Node.stands_forest trace member with
  | binding place n found binds => cases declared
  | node place n role kind nameSpan mods bound context visited found shape =>
      refine (Shape.ofRole_becomes shape).isSolid declared ?_
      rintro rfl
      cases grammatical.cast inside found visited with
      | signature isSignature => exact isSignature

/-- Where ranges tell declarations apart, a node of the tree with the kind and range of a declaration
comes from that declaration. -/
theorem Node.Declares.origin_eq {source : String} {root n : Node} {place : Place}
    {made : Syntax.Kind} {id : Syntax.NodeId} {node : Syntax.Node}
    (declares : root.Declares source.toList place n made) (grammatical : Grammatical root)
    (sharp : Sharp root) (found : root.at? place = some n)
    (row : (root.toSyntaxTree source).node? id = some node) (sameKind : node.kind = made)
    (sameSpan : node.span = n.label.span) : (root.origins source.toList)[id]? = some place := by
  have declared := declares.isDeclared
  rw [← sameKind] at declared
  cases id with
  | zero =>
      have top := row.symm.trans (Node.toSyntaxTree_root source root)
      rw [Option.some.injEq] at top
      subst top
      cases declared
  | succ k =>
      obtain ⟨trace, listed⟩ := Node.trace_of_lt (Array.getElem?_eq_some_iff.mp row).1
      obtain ⟨_, _, row', _⟩ := Node.node_of_trace listed
      rw [row, Option.some.injEq] at row'
      subst row'
      have member := List.mem_of_getElem? listed
      have isSolid := grammatical.isSolid_of_trace member declared
      obtain ⟨m, found', label⟩ := (Node.stands_forest trace member).at?_place
      rw [← label] at isSolid
      have filled := (sharp.solid place n found declares.isSolid).1
      have filled' := (sharp.solid trace.place m found' isSolid).1
      simp only [← label, Label.span, Span.ofRange, Span.mk.injEq] at sameSpan
      have samePlace := sharp.eq_of_range found found' declares.isSolid isSolid sameSpan.1 (by omega)
      rw [samePlace]
      exact Node.image_eq_some_iff.mp (Node.image_trace listed)

/-- A declaration has exactly one node in the tree, of its kind and range and among those that the rules
see, unless it stands in a part of a declarator other than the initial value; then it has none. Where
ranges tell declarations apart, no other node has this kind and range. -/
theorem declaration_in_tree_unless_hidden (source : String) (root n : Node) (place : Place)
    (made : Syntax.Kind) (grammatical : Grammatical root) (found : root.at? place = some n)
    (named : n.label.named = true) (declares : root.Declares source.toList place n made) :
    (¬ root.IsHidden place → ∃! id, (root.origins source.toList)[id]? = some place ∧
      id ∈ (root.toSyntaxTree source).preorder ∧
      ∃ node, (root.toSyntaxTree source).node? id = some node ∧ node.kind = made ∧
        node.span = n.label.span) ∧
    (root.IsHidden place → place ∉ root.origins source.toList) ∧
    (Sharp root → ∀ id node, (root.toSyntaxTree source).node? id = some node → node.kind = made →
      node.span = n.label.span → (root.origins source.toList)[id]? = some place) := by
  obtain ⟨alone, noBinding, noComment⟩ := declares.kind
  refine ⟨?_, ?_, ?_⟩
  · intro seen
    obtain ⟨role, visited⟩ := grammatical.visited_of_not_hidden found named noComment seen
    cases grammatical.role_eq_statement found visited alone declares.noLoop
    obtain ⟨nameSpan, mods, bound, context, shape⟩ := declares.shape
    obtain ⟨k, listed⟩ := List.mem_iff_getElem?.mp (Node.mem_forest found visited shape)
    obtain ⟨up, above, row, _⟩ := Node.node_of_trace listed
    refine ⟨k + 1, ⟨Node.image_eq_some_iff.mp (Node.image_trace listed), ?_, _, row, rfl, rfl⟩, ?_⟩
    · exact mem_preorder.mpr (Array.getElem?_eq_some_iff.mp row).1
    · rintro id ⟨atPlace, _⟩
      have same := (Node.image_eq_some_iff.mpr atPlace).symm.trans (Node.image_trace listed)
      exact Option.some.inj same
  · intro hidden listed
    have inside : place ≠ [] := by
      rintro rfl
      obtain ⟨above, i, j, rest, _, _, _, place, _⟩ := hidden
      simp at place
    obtain ⟨role, _, _, _, _, _, visited, _⟩ :=
      Node.shape_of_image (Node.image_isSome_iff.mpr listed) inside found noBinding
    rw [grammatical.not_visited_of_hidden hidden] at visited
    cases visited
  · intro sharp id node row sameKind sameSpan
    exact declares.origin_eq grammatical sharp found row sameKind sameSpan

section Sample

def patternText : String := "const { C_A = function () { var x = 1; } } = o;"

def patternProgram : Node :=
  .inner (.other "program") 0 47 none
    [.inner .lexicalDeclaration 0 47 none
      [.token "const" 0 5,
        .inner .variableDeclarator 6 46 none
          [.inner .objectPattern 6 42 (some .name)
            [.token "\x7b" 6 7,
              .inner .objectAssignmentPattern 8 40 none
                [.inner .shorthandPropertyIdentifierPattern 8 11 (some .left) [],
                  .token "=" 12 13,
                  .inner (.other "function_expression") 14 40 none
                    [.token "function" 14 22,
                      .inner (.other "formal_parameters") 23 25 none
                        [.token "(" 23 24, .token ")" 24 25],
                      .inner .statementBlock 26 40 (some .body)
                        [.token "\x7b" 26 27,
                          .inner .variableDeclaration 28 38 none
                            [.token "var" 28 31,
                              .inner .variableDeclarator 32 37 none
                                [.inner .identifier 32 33 (some .name) [], .token "=" 34 35,
                                  .inner (.other "number") 36 37 (some .value) []],
                              .token ";" 37 38],
                          .token "\x7d" 39 40]]],
              .token "\x7d" 41 42],
            .token "=" 43 44, .inner .identifier 45 46 (some .value) []],
        .token ";" 46 47]]

theorem patternProgram_grammatical : Grammatical patternProgram where
  program := rfl
  leaves := by decide
  bodies := by decide
  declarators := by decide

theorem patternProgram_sharp : Sharp patternProgram where
  nested := by decide
  ordered := by decide
  solid := by decide

theorem patternProgram_declarations :
    (∃! id, (patternProgram.origins patternText.toList)[id]? = some [0] ∧
      id ∈ (patternProgram.toSyntaxTree patternText).preorder ∧
      ∃ node, (patternProgram.toSyntaxTree patternText).node? id = some node ∧
        node.kind = .variableStatement ∧ node.span = ⟨0, 47⟩) ∧
    ∀ id node, (patternProgram.toSyntaxTree patternText).node? id = some node →
      node.kind = .variableStatement → node.span ≠ ⟨28, 10⟩ := by
  have outerLoop : ¬ patternProgram.IsLoopInitializer ([] ++ [0]) :=
    Node.not_isLoopInitializer (Node.at?_nil patternProgram) (by decide)
  have innerLoop : ¬ patternProgram.IsLoopInitializer ([0, 1, 0, 1, 2, 2] ++ [1]) :=
    Node.not_isLoopInitializer rfl (by decide)
  constructor
  · refine (declaration_in_tree_unless_hidden patternText patternProgram _ [0] .variableStatement
      patternProgram_grammatical rfl rfl (.variableStatement rfl outerLoop)).1 ?_
    rintro ⟨above, i, j, rest, _, _, _, place, _⟩
    have lengths := congrArg List.length place
    simp at lengths
    omega
  · intro id node row sameKind sameSpan
    obtain ⟨_, hidden, unique⟩ := declaration_in_tree_unless_hidden patternText patternProgram _
      [0, 1, 0, 1, 2, 2, 1] .variableStatement patternProgram_grammatical rfl rfl
      (.variableStatement rfl innerLoop)
    refine hidden ?_ (List.mem_of_getElem? (unique patternProgram_sharp id node row sameKind sameSpan))
    exact ⟨[0], 1, 0, [1, 2, 2, 1], _, _, _, rfl, rfl, rfl, outerLoop, rfl, rfl, rfl, by decide⟩

theorem patternProgram_var_not_found :
    WellFormed patternText.toList patternProgram ∧ patternProgram.errorLabel? = none ∧
    (∃ n, patternProgram.at? [0, 1, 0, 1, 2, 2, 1] = some n ∧
      n.label.kind = .variableDeclaration ∧ n.label.text patternText.toList = "var x = 1;") ∧
    (Convention.check .egret (patternProgram.toSyntaxTree patternText)).toOption = some [] := by
  exact ⟨by decide +kernel, rfl, ⟨_, rfl, rfl, by decide +kernel⟩, by decide +kernel⟩

end Sample

end NamingLint.Concrete
