import NamingLint.Proofs.Concrete.Order
import NamingLint.Proofs.Syntax.Subtrees

/-! The names that patterns bind.

A pattern is entered through the parts that can hold a bound name, and a name is bound if it is reached
that way. A variable statement has one declaration for each name that the patterns of its declarators
bind, and no declaration comes from anything else. -/

namespace NamingLint.Concrete

open Syntax (NodeId)

/-- How a pattern is entered: an object, an array or a rest through each of its named parts, a pair
through its value, and a pattern with a default value through its left side. -/
inductive Enters (kind : Kind) (parts : List Node) (i : Nat) (part : Label) : Prop
  | element (collects : kind = .objectPattern ∨ kind = .arrayPattern ∨ kind = .restPattern)
      (named : part.named = true)
  | value (isPair : kind = .pairPattern) (isValue : Node.fieldAt? .value parts = some i)
  | left (hasDefault : kind = .assignmentPattern ∨ kind = .objectAssignmentPattern)
      (isLeft : Node.fieldAt? .left parts = some i)

namespace Kind

variable {kind : Kind} {field : Field} {parts : List Node} {i : Nat} {part : Node}

theorem opens_iff_field (once : kind.bindsOnce = true)
    (asks : ∀ label, kind.binds label = (label.field == some field)) (child : parts[i]? = some part) :
    kind.Opens parts i part ↔ Node.fieldAt? field parts = some i := by
  rw [Node.fieldAt?_eq_some_iff]
  constructor
  · intro opens
    have isField : part.label.field = some field := by simpa [asks] using opens.binds
    refine ⟨⟨part, child, isField⟩, fun other earlier => ?_⟩
    simpa [asks] using opens.first once other earlier
  · rintro ⟨⟨found, isFound, isField⟩, earlier⟩
    rw [child, Option.some.injEq] at isFound
    subst isFound
    refine ⟨child, by simp [asks, isField], fun _ other member => ?_⟩
    simpa [asks] using earlier other member

theorem opens_iff_named (often : kind.bindsOnce = false)
    (asks : ∀ label, kind.binds label = label.named) (child : parts[i]? = some part) :
    kind.Opens parts i part ↔ part.label.named = true := by
  constructor
  · intro opens
    rw [← asks]
    exact opens.binds
  · intro named
    refine ⟨child, by rw [asks, named], fun once => ?_⟩
    rw [often] at once
    cases once

theorem opens_iff_enters (child : parts[i]? = some part) :
    kind.Opens parts i part ↔ Enters kind parts i part.label := by
  constructor
  · intro opens
    cases kind with
    | objectPattern => exact .element (by simp) ((opens_iff_named rfl (fun _ => rfl) child).mp opens)
    | arrayPattern => exact .element (by simp) ((opens_iff_named rfl (fun _ => rfl) child).mp opens)
    | restPattern => exact .element (by simp) ((opens_iff_named rfl (fun _ => rfl) child).mp opens)
    | pairPattern => exact .value rfl ((opens_iff_field rfl (fun _ => rfl) child).mp opens)
    | assignmentPattern =>
        exact .left (Or.inl rfl) ((opens_iff_field rfl (fun _ => rfl) child).mp opens)
    | objectAssignmentPattern =>
        exact .left (Or.inr rfl) ((opens_iff_field rfl (fun _ => rfl) child).mp opens)
    | _ => cases opens.binds
  · intro enters
    cases enters with
    | element collects named =>
        rcases collects with rfl | rfl | rfl <;>
          exact (opens_iff_named rfl (fun _ => rfl) child).mpr named
    | value isPair isValue =>
        subst isPair
        exact (opens_iff_field rfl (fun _ => rfl) child).mpr isValue
    | left hasDefault isLeft =>
        rcases hasDefault with rfl | rfl <;>
          exact (opens_iff_field rfl (fun _ => rfl) child).mpr isLeft

end Kind

theorem Kind.isBinding_iff {kind : Kind} :
    kind.isBinding = true ↔ kind = .identifier ∨ kind = .shorthandPropertyIdentifierPattern := by
  cases kind <;> simp [Kind.isBinding]

namespace Enters

variable {kind : Kind} {parts : List Node} {i : Nat} {part : Label}

theorem noBinding (enters : Enters kind parts i part) : kind.isBinding = false := by
  cases enters with
  | element collects named => rcases collects with rfl | rfl | rfl <;> rfl
  | value isPair isValue => subst isPair; rfl
  | left hasDefault isLeft => rcases hasDefault with rfl | rfl <;> rfl

theorem noComment (enters : Enters kind parts i part) : kind ≠ .comment := by
  cases enters with
  | element collects named => rcases collects with rfl | rfl | rfl <;> decide
  | value isPair isValue => subst isPair; decide
  | left hasDefault isLeft => rcases hasDefault with rfl | rfl <;> decide

theorem of_pair (enters : Enters kind parts i part) (isPair : kind = .pairPattern) :
    Node.fieldAt? .value parts = some i := by
  cases enters with
  | element collects named => simp [isPair] at collects
  | value _ isValue => exact isValue
  | left hasDefault isLeft => simp [isPair] at hasDefault

theorem of_default (enters : Enters kind parts i part)
    (hasDefault : kind = .assignmentPattern ∨ kind = .objectAssignmentPattern) :
    Node.fieldAt? .left parts = some i := by
  cases enters with
  | element collects named => rcases hasDefault with rfl | rfl <;> simp at collects
  | value isPair isValue => simp [isPair] at hasDefault
  | left _ isLeft => exact isLeft

end Enters

inductive Node.Reaches : Node → Place → Node → Prop
  | here (n : Node) : Reaches n [] n
  | through {n part inner : Node} {i : Nat} {rest : Place} (child : n.children[i]? = some part)
      (enters : Enters n.label.kind n.children i part.label) (deeper : Reaches part rest inner) :
      Reaches n (i :: rest) inner

namespace Node

variable {n name : Node} {above rest : Place}

theorem Reaches.at? (reaches : n.Reaches rest name) : n.at? rest = some name := by
  induction reaches with
  | here n => exact at?_nil n
  | through child enters deeper ih => rw [at?_cons, child, Option.bind_some, ih]

theorem Reaches.split (reaches : n.Reaches (above ++ rest) name) {inner : Node}
    (found : n.at? above = some inner) : inner.Reaches rest name := by
  induction above generalizing n with
  | nil =>
      rw [at?_nil, Option.some.injEq] at found
      subst found
      exact reaches
  | cons i above ih =>
      rw [at?_cons] at found
      rw [List.cons_append] at reaches
      cases reaches with
      | through child enters deeper =>
          rw [child, Option.bind_some] at found
          exact ih deeper found

theorem Reaches.enters {outer part : Node} {i : Nat}
    (reaches : n.Reaches (above ++ i :: rest) name) (around : n.at? above = some outer)
    (child : outer.children[i]? = some part) :
    Enters outer.label.kind outer.children i part.label := by
  cases reaches.split around with
  | through child' enters deeper =>
      rw [child, Option.some.injEq] at child'
      subst child'
      exact enters

theorem mem_bindingPlaces {here : Place} {bound : Place × Label} :
    bound ∈ n.bindingPlaces here ↔ ∃ rest name, bound = (here ++ rest, name.label) ∧
      n.Reaches rest name ∧ name.label.kind.isBinding = true := by
  induction n using Node.inductOn generalizing here bound with
  | step label parts ih =>
      unfold bindingPlaces
      split
      · rename_i isBinding
        rw [List.mem_singleton]
        constructor
        · intro same
          exact ⟨[], .mk label parts, by rw [same, List.append_nil]; rfl, .here _, isBinding⟩
        · rintro ⟨rest, name, rfl, reaches, _⟩
          cases reaches with
          | here => rw [List.append_nil]; rfl
          | through child enters deeper =>
              -- A name is entered by no step.
              have noBinding := enters.noBinding
              rw [show (Node.mk label parts).label = label from rfl, isBinding] at noBinding
              cases noBinding
      · rename_i noBinding
        rw [mem_bindingPlacesOf]
        constructor
        · rintro ⟨i, part, opens, inside⟩
          have child := opens.child
          obtain ⟨rest, name, rfl, reaches, isBinding⟩ :=
            (ih part (List.mem_of_getElem? child)).mp inside
          have enters := (Kind.opens_iff_enters child).mp opens
          refine ⟨i :: rest, name, ?_, .through child enters reaches, isBinding⟩
          rw [Nat.zero_add, List.append_assoc, List.singleton_append]
        · rintro ⟨rest, name, rfl, reaches, isBinding⟩
          cases reaches with
          | here => exact absurd isBinding noBinding
          | @through _ part _ i rest child enters deeper =>
              refine ⟨i, part, (Kind.opens_iff_enters child).mpr enters, ?_⟩
              apply (ih part (List.mem_of_getElem? child)).mpr
              refine ⟨rest, name, ?_, deeper, isBinding⟩
              rw [Nat.zero_add, List.append_assoc, List.singleton_append]

/-- The places of the names that a pattern binds, in the order of the program. The way to a name goes
through no key, no default value and no comment. -/
structure NamesAt (pattern : Node) (places : List Place) : Prop where
  labels : pattern.bindings.map some = places.map fun place => (pattern.at? place).map Node.label
  inOrder : places.Pairwise Place.Precedes
  distinct : places.Nodup
  reached : ∀ place, place ∈ places ↔ ∃ name, pattern.Reaches place name ∧
    (name.label.kind = .identifier ∨ name.label.kind = .shorthandPropertyIdentifierPattern)
  noKey : ∀ above i rest outer part, above ++ i :: rest ∈ places → pattern.at? above = some outer →
    outer.children[i]? = some part → outer.label.kind = .pairPattern →
    Node.fieldAt? .value outer.children = some i
  noDefault : ∀ above i rest outer part, above ++ i :: rest ∈ places →
    pattern.at? above = some outer → outer.children[i]? = some part →
    (outer.label.kind = .assignmentPattern ∨ outer.label.kind = .objectAssignmentPattern) →
    Node.fieldAt? .left outer.children = some i
  noComment : ∀ above rest inner, above ++ rest ∈ places → pattern.at? above = some inner →
    inner.label.kind ≠ .comment

theorem namesAt_bindingPlaces (pattern : Node) :
    pattern.NamesAt ((pattern.bindingPlaces []).map Prod.fst) := by
  have reached : ∀ place, place ∈ (pattern.bindingPlaces []).map Prod.fst ↔
      ∃ name, pattern.Reaches place name ∧ name.label.kind.isBinding = true := by
    intro place
    rw [List.mem_map]
    constructor
    · rintro ⟨bound, member, rfl⟩
      obtain ⟨rest, name, rfl, reaches, isBinding⟩ := mem_bindingPlaces.mp member
      exact ⟨name, reaches, isBinding⟩
    · rintro ⟨name, reaches, isBinding⟩
      exact ⟨(place, name.label), mem_bindingPlaces.mpr ⟨place, name, rfl, reaches, isBinding⟩, rfl⟩
  have inOrder : ((pattern.bindingPlaces []).map Prod.fst).Pairwise Place.Precedes :=
    (pattern.bindingPlaces_precede []).map Prod.fst fun _ _ before => before
  constructor
  · rw [← pattern.bindingPlaces_labels [], List.map_map, List.map_map]
    apply List.map_congr_left
    intro bound member
    obtain ⟨rest, name, rfl, reaches, _⟩ := mem_bindingPlaces.mp member
    simp [reaches.at?]
  · exact inOrder
  · apply inOrder.imp
    intro first second before same
    exact before.apart.1 (same ▸ List.prefix_rfl)
  · intro place
    rw [reached]
    simp only [Kind.isBinding_iff]
  · intro above i rest outer part member around child isPair
    obtain ⟨name, reaches, _⟩ := (reached _).mp member
    exact (reaches.enters around child).of_pair isPair
  · intro above i rest outer part member around child hasDefault
    obtain ⟨name, reaches, _⟩ := (reached _).mp member
    exact (reaches.enters around child).of_default hasDefault
  · intro above rest inner member found isComment
    obtain ⟨name, reaches, isBinding⟩ := (reached _).mp member
    cases reaches.split found with
    | here => rw [isComment] at isBinding; cases isBinding
    | through child enters deeper => exact enters.noComment isComment

/-- A name that a variable statement binds, with its place below the statement: the pattern of one of
the declarators reaches it. -/
def BindsName (statement : Node) (place : Place) (name : Node) : Prop :=
  ∃ (i j : Nat) (rest : Place) (declarator pattern : Node), place = i :: j :: rest ∧
    statement.children[i]? = some declarator ∧ declarator.label.isDeclarator = true ∧
    Node.fieldAt? .name declarator.children = some j ∧
    declarator.children[j]? = some pattern ∧ pattern.Reaches rest name ∧
    (name.label.kind = .identifier ∨ name.label.kind = .shorthandPropertyIdentifierPattern)

theorem mem_boundPlaces_iff {statement : Node} {here : Place} {bound : Place × Label} :
    bound ∈ boundPlaces here 0 statement.children ↔
      ∃ place name, bound = (here ++ place, name.label) ∧ statement.BindsName place name := by
  rw [mem_boundPlaces]
  constructor
  · rintro ⟨i, declarator, child, declares, inside⟩
    obtain ⟨j, pattern, first, part, deeper⟩ := mem_declaredPlaces.mp inside
    obtain ⟨rest, name, rfl, reaches, isBinding⟩ := mem_bindingPlaces.mp deeper
    refine ⟨i :: j :: rest, name, by simp, i, j, rest, declarator, pattern, rfl, child, declares,
      first, part, reaches, Kind.isBinding_iff.mp isBinding⟩
  · rintro ⟨_, name, rfl, i, j, rest, declarator, pattern, rfl, child, declares, first, part, reaches,
      isName⟩
    refine ⟨i, declarator, child, declares, mem_declaredPlaces.mpr ⟨j, pattern, first, part, ?_⟩⟩
    exact mem_bindingPlaces.mpr ⟨rest, name, by simp, reaches, Kind.isBinding_iff.mpr isName⟩

end Node

theorem Nearest.unique {image : Place → Option NodeId} {place first second : Place}
    (left : Nearest image place first) (right : Nearest image place second) : first = second := by
  have under := right.2.2.2 first left.1 left.2.1 left.2.2.1
  have above := left.2.2.2 second right.1 right.2.1 right.2.2.1
  exact under.eq_of_length_le above.length_le

namespace Node

variable {source : String} {root : Node}

theorem grown_toSyntaxTree (source : String) (root : Node) :
    SyntaxTree.Grown source (root.toSyntaxTree source) := by
  rw [toSyntaxTree_eq]
  exact SyntaxTree.grown_treeOfOutlines source _

theorem mem_children_iff {id child : NodeId} {node row : Syntax.Node}
    (known : (root.toSyntaxTree source).node? id = some node)
    (childKnown : (root.toSyntaxTree source).node? child = some row) :
    child ∈ node.children ↔ row.parent = some id := by
  have recorded := (grown_toSyntaxTree source root).childrenOf_eq id
  rw [SyntaxTree.childrenOf_of_node known] at recorded
  rw [recorded, List.mem_filter, List.mem_range, decide_eq_true_iff,
    SyntaxTree.parentOf?_of_node childKnown]
  exact ⟨And.right, fun isParent =>
    ⟨SyntaxTree.node?_eq_some_lt _ child childKnown, isParent⟩⟩

theorem node_of_child {k : Nat} {outer inner : Trace}
    (listed : (Trace.allOf (root.forest source.toList))[k]? = some outer)
    (isChild : inner ∈ outer.children) :
    ∃ child row, (root.origins source.toList)[child]? = some inner.place ∧
      (root.toSyntaxTree source).node? child = some row ∧ row.parent = some (k + 1) ∧
      row.kind = inner.kind ∧ row.span = inner.label.span ∧ row.nameSpan = inner.nameSpan := by
  have member := List.mem_of_getElem? listed
  have inside : inner ∈ Trace.allOf (root.forest source.toList) := by
    apply Trace.allOf_subset _ outer member
    rw [Trace.all_eq]
    exact List.mem_cons_of_mem _ (Trace.mem_allOf_of_mem isChild)
  obtain ⟨j, childListed⟩ := List.mem_iff_getElem?.mp inside
  obtain ⟨up, above, row, parent, hangs⟩ := node_of_trace childListed
  have around : above = outer.place := by
    apply (nearest_of_trace inside hangs).unique
    exact nearest_of_trace inside (Or.inr ⟨outer, member, rfl, isChild⟩)
  have isParent : up = k + 1 := by
    rw [around, image_trace listed, Option.some.injEq] at parent
    exact parent.symm
  refine ⟨j + 1, _, image_eq_some_iff.mp (image_trace childListed), row, ?_, rfl, rfl, rfl⟩
  rw [isParent]

theorem row_of_statement {statement : Node} {here : Place} (found : root.at? here = some statement)
    (declares : statement.label.kind.isVariables = true)
    (outlined : root.role? source.toList here = some .statement) :
    ∃ id node, (root.origins source.toList)[id]? = some here ∧
      (root.toSyntaxTree source).node? id = some node ∧ node.kind = .variableStatement := by
  have shape : Shape.ofRole source.toList statement.label.kind statement.children .statement =
      .node .variableStatement none .empty (boundNames statement.children) .declarators := by
    rcases Kind.isVariables_iff.mp declares with kind | kind <;> rw [kind] <;> rfl
  obtain ⟨k, listed⟩ := List.mem_iff_getElem?.mp (mem_forest found outlined shape)
  obtain ⟨up, above, row, _⟩ := node_of_trace listed
  exact ⟨k + 1, _, image_eq_some_iff.mp (image_trace listed), row, rfl⟩

theorem statement_of_row {id : NodeId} {node : Syntax.Node}
    (known : (root.toSyntaxTree source).node? id = some node)
    (isStatement : node.kind = .variableStatement) :
    ∃ k trace statement, id = k + 1 ∧
      (Trace.allOf (root.forest source.toList))[k]? = some trace ∧
      root.at? trace.place = some statement ∧ statement.label.kind.isVariables = true ∧
      ∀ bound ∈ boundPlaces trace.place 0 statement.children, bindingTrace bound ∈ trace.children := by
  cases id with
  | zero =>
      have top := known.symm.trans (toSyntaxTree_root source root)
      rw [Option.some.injEq] at top
      rw [top] at isStatement
      cases isStatement
  | succ k =>
      obtain ⟨trace, listed⟩ := trace_of_lt (SyntaxTree.node?_eq_some_lt _ _ known)
      obtain ⟨up, above, row, _⟩ := node_of_trace listed
      rw [known, Option.some.injEq] at row
      subst row
      cases stands_forest trace (List.mem_of_getElem? listed) with
      | binding place n found binds => cases isStatement
      | node place n role kind nameSpan mods bound context visited found shape =>
          have declares := (Shape.ofRole_becomes shape).of_variableStatement isStatement
          have bindsAll : boundTraces place kind n.children =
              (boundPlaces place 0 n.children).map bindingTrace := if_pos isStatement
          refine ⟨k, _, n, rfl, listed, found, declares.2.1, ?_⟩
          intro bound member
          apply List.mem_append_left
          rw [bindsAll]
          exact List.mem_map_of_mem member

theorem statement_of_binding {inner : Trace} {above : Place}
    (isBinding : inner.kind = .variableDeclaration)
    (hangs : (above = [] ∧ inner ∈ root.forest source.toList) ∨
      ∃ outer ∈ Trace.allOf (root.forest source.toList),
        outer.place = above ∧ inner ∈ outer.children) :
    ∃ statement, root.at? above = some statement ∧ statement.label.kind.isVariables = true ∧
      ∃ bound ∈ boundPlaces above 0 statement.children, inner = bindingTrace bound := by
  rcases hangs with ⟨_, isTop⟩ | ⟨outer, member, rfl, isChild⟩
  · exact absurd isBinding (root.traces_kind .transparent [] inner isTop)
  · cases stands_forest outer member with
    | binding place n found binds => simp [bindingTrace, Trace.children] at isChild
    | node place n role kind nameSpan mods bound context visited found shape =>
        rcases List.mem_append.mp isChild with isBound | isPart
        · have isStatement : kind = .variableStatement := by
            by_contra other
            simp [boundTraces, other] at isBound
          have declares := (Shape.ofRole_becomes shape).of_variableStatement isStatement
          obtain ⟨name, bindsName, same⟩ := mem_boundTraces isBound
          exact ⟨n, found, declares.2.1, name, bindsName, same⟩
        · obtain ⟨i, part, partRole, _, _, inside⟩ := mem_tracesOf isPart
          exact absurd isBinding (part.traces_kind partRole _ inner inside)

end Node

/-- A pattern binds the names that it reaches, each once and in the order of the program, and no key,
default value or comment. What is outlined as a variable statement is one of the tree, every name that it
binds becomes one declaration below it, with the range of the name, and there are no other
declarations. -/
theorem reached_names_are_declared_once :
    (∀ pattern : Node, ∃ places, pattern.NamesAt places) ∧
    ∀ (source : String) (root : Node),
      (∀ here statement, root.at? here = some statement → statement.label.kind.isVariables = true →
        root.role? source.toList here = some .statement →
        ∃ id node, (root.origins source.toList)[id]? = some here ∧
          (root.toSyntaxTree source).node? id = some node ∧ node.kind = .variableStatement) ∧
      (∀ id node, (root.toSyntaxTree source).node? id = some node → node.kind = .variableStatement →
        ∃ here statement, (root.origins source.toList)[id]? = some here ∧
          root.at? here = some statement ∧ statement.label.kind.isVariables = true ∧
          ∀ place name, statement.BindsName place name →
            ∃! child, (root.origins source.toList)[child]? = some (here ++ place) ∧
              child ∈ node.children ∧
              ∃ row, (root.toSyntaxTree source).node? child = some row ∧
                row.kind = .variableDeclaration ∧ row.span = name.label.span ∧
                row.nameSpan = some name.label.span) ∧
      ∀ child row, (root.toSyntaxTree source).node? child = some row →
        row.kind = .variableDeclaration →
        ∃ id here statement place name, row.parent = some id ∧
          (root.origins source.toList)[id]? = some here ∧ root.at? here = some statement ∧
          statement.label.kind.isVariables = true ∧ statement.BindsName place name ∧
          (root.origins source.toList)[child]? = some (here ++ place) := by
  refine ⟨fun pattern => ⟨_, pattern.namesAt_bindingPlaces⟩, fun source root => ⟨?_, ?_, ?_⟩⟩
  · intro here statement found declares outlined
    exact Node.row_of_statement found declares outlined
  · intro id node known isStatement
    obtain ⟨k, trace, statement, rfl, listed, found, declares, bindsAll⟩ :=
      Node.statement_of_row known isStatement
    refine ⟨trace.place, statement, Node.image_eq_some_iff.mp (Node.image_trace listed), found,
      declares, ?_⟩
    intro place name binds
    have isChild := bindsAll _ (Node.mem_boundPlaces_iff.mpr ⟨place, name, rfl, binds⟩)
    obtain ⟨child, row, origin, childKnown, isParent, kind, span, nameSpan⟩ :=
      Node.node_of_child listed isChild
    refine ⟨child, ⟨origin, (Node.mem_children_iff known childKnown).mpr isParent, row, childKnown,
      kind, span, nameSpan⟩, ?_⟩
    intro other alike
    have same := (Node.image_eq_some_iff.mpr alike.1).symm.trans (Node.image_eq_some_iff.mpr origin)
    exact Option.some.inj same
  · intro child row known isBinding
    cases child with
    | zero =>
        have top := known.symm.trans (Node.toSyntaxTree_root source root)
        rw [Option.some.injEq] at top
        rw [top] at isBinding
        cases isBinding
    | succ k =>
        obtain ⟨inner, listed⟩ := Node.trace_of_lt (SyntaxTree.node?_eq_some_lt _ _ known)
        obtain ⟨up, above, row', parent, hangs⟩ := Node.node_of_trace listed
        rw [known, Option.some.injEq] at row'
        subst row'
        obtain ⟨statement, found, declares, bound, member, rfl⟩ :=
          Node.statement_of_binding isBinding hangs
        obtain ⟨place, name, rfl, binds⟩ := Node.mem_boundPlaces_iff.mp member
        exact ⟨up, above, statement, place, name, rfl, Node.image_eq_some_iff.mp parent, found,
          declares, binds, Node.image_eq_some_iff.mp (Node.image_trace listed)⟩

section Sample

def nestedText : String := "let { k: [a = b, ...c], /*d*/ e = f } = o;"

def nestedPattern : Node :=
  .inner .objectPattern 4 37 (some .name)
    [.token "\x7b" 4 5,
      .inner .pairPattern 6 22 none
        [.inner .propertyIdentifier 6 7 none [], .token ":" 7 8,
          .inner .arrayPattern 9 22 (some .value)
            [.token "[" 9 10,
              .inner .assignmentPattern 10 15 none
                [.inner .identifier 10 11 (some .left) [], .token "=" 12 13,
                  .inner .identifier 14 15 none []],
              .token "," 15 16,
              .inner .restPattern 17 21 none
                [.token "..." 17 20, .inner .identifier 20 21 none []],
              .token "]" 21 22]],
      .token "," 22 23, .inner .comment 24 29 none [],
      .inner .objectAssignmentPattern 30 35 none
        [.inner .shorthandPropertyIdentifierPattern 30 31 (some .left) [], .token "=" 32 33,
          .inner .identifier 34 35 none []],
      .token "\x7d" 36 37]

def nestedProgram : Node :=
  .inner (.other "program") 0 42 none
    [.inner .lexicalDeclaration 0 42 none
      [.token "let" 0 3,
        .inner .variableDeclarator 4 41 none
          [nestedPattern, .token "=" 38 39, .inner .identifier 40 41 (some .value) []],
        .token ";" 41 42]]

theorem nestedProgram_declares_rest :
    (∃ places, nestedPattern.NamesAt places ∧ places.length = 3) ∧
    ∃ node, (nestedProgram.toSyntaxTree nestedText).node? 1 = some node ∧
      ∃! child, (nestedProgram.origins nestedText.toList)[child]? = some [0, 1, 0, 1, 2, 3, 1] ∧
        child ∈ node.children ∧
        ∃ row, (nestedProgram.toSyntaxTree nestedText).node? child = some row ∧
          row.kind = .variableDeclaration ∧ row.span = ⟨20, 1⟩ ∧ row.nameSpan = some ⟨20, 1⟩ := by
  obtain ⟨patterns, trees⟩ := reached_names_are_declared_once
  constructor
  · obtain ⟨places, names⟩ := patterns nestedPattern
    have lengths := congrArg List.length names.labels
    rw [List.length_map, List.length_map] at lengths
    exact ⟨places, names, lengths.symm.trans (by decide)⟩
  · obtain ⟨outlined, declared, _⟩ := trees nestedText nestedProgram
    obtain ⟨id, node, origin, known, isStatement⟩ := outlined [0] _ rfl rfl rfl
    have first : id = 1 := by
      have second : (nestedProgram.origins nestedText.toList)[1]? = some [0] := by decide +kernel
      rw [← Node.image_eq_some_iff] at origin second
      exact Option.some.inj (origin.symm.trans second)
    subst first
    obtain ⟨here, statement, origin', found, _, binds⟩ := declared 1 node known isStatement
    rw [origin, Option.some.injEq] at origin'
    subst origin'
    cases found
    refine ⟨node, known, binds [1, 0, 1, 2, 3, 1] (.inner .identifier 20 21 none []) ?_⟩
    have reaches : nestedPattern.Reaches [1, 2, 3, 1] (.inner .identifier 20 21 none []) :=
      .through rfl (.element (Or.inl rfl) rfl) <| .through rfl (.value rfl rfl) <|
        .through rfl (.element (Or.inr (Or.inl rfl)) rfl) <|
          .through rfl (.element (Or.inr (Or.inr rfl)) rfl) <| .here _
    exact ⟨1, 0, [1, 2, 3, 1], _, nestedPattern, rfl, rfl, rfl, rfl, rfl, reaches, Or.inl rfl⟩

end Sample

end NamingLint.Concrete
