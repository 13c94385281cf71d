import Mathlib.Tactic.MkIffOfInductiveProp
import NamingLint.Proofs.Concrete.Image
import NamingLint.Proofs.Concrete.Ranges
import NamingLint.Proofs.Convention.Reading
import NamingLint.Proofs.Text.Boundary

/-! Well-formed concrete trees give valid syntax trees whose declarations can all be read. -/

namespace NamingLint.Concrete

open Syntax (NodeId)
open Text (IsBoundary)

def Label.isKeyword (label : Label) : Bool := !label.named && label.field.isNone

/-- What the grammar promises about a node: its range starts and ends between characters and holds
those of its parts, declarations are named, and a quoted module name has a quote at both ends. -/
@[mk_iff]
structure Node.Formed (source : List Char) (n : Node) : Prop where
  forward : n.label.start ≤ n.label.stop
  first : IsBoundary source n.label.start
  last : IsBoundary source n.label.stop
  nested : ∀ part ∈ n.children,
    n.label.start ≤ part.label.start ∧ part.label.stop ≤ n.label.stop
  named : n.label.kind.needsName = true → n.label.isKeyword = false →
    ∃ part ∈ n.children, part.label.field = some .name
  quoted : n.label.kind.isModule = true → ∀ part ∈ n.children, part.label.field = some .name →
    part.label.kind = .string → 2 ≤ part.label.stop - part.label.start →
    Text.hasByteEnds (part.label.text source).toList = true

instance (source : List Char) (n : Node) : Decidable (n.Formed source) :=
  decidable_of_iff' _ (n.formed_iff source)

def WellFormed (source : List Char) (root : Node) : Prop := root.Everywhere (Node.Formed source)

instance (source : List Char) (root : Node) : Decidable (WellFormed source root) :=
  inferInstanceAs (Decidable (root.Everywhere (Node.Formed source)))

def Cuts (source : List Char) (span : Span) : Prop :=
  (Text.slice? span.offset span.width source).isSome = true

theorem Label.span_contains {outer inner : Label} (forward : inner.start ≤ inner.stop)
    (first : outer.start ≤ inner.start) (last : inner.stop ≤ outer.stop) :
    outer.span.contains inner.span = true := by
  simp only [Span.contains_iff, Label.span, Span.ofRange, Span.stop]
  omega

namespace Node.Formed

variable {source : List Char} {n : Node}

theorem cuts (formed : n.Formed source) : Cuts source n.label.span :=
  formed.first.slice? formed.last formed.forward

theorem holds_part (formed : n.Formed source) {part : Node} (member : part ∈ n.children)
    (inner : part.Formed source) : n.label.span.contains part.label.span = true :=
  Label.span_contains inner.forward (formed.nested part member).1 (formed.nested part member).2

theorem moduleName (formed : n.Formed source) (isModule : n.label.kind.isModule = true)
    {part : Node} (member : part ∈ n.children) (isName : part.label.field = some .name)
    (inner : part.Formed source) :
    n.label.span.contains (moduleNameSpan part.label) = true ∧
      Cuts source (moduleNameSpan part.label) := by
  unfold moduleNameSpan
  split
  · rename_i isQuoted
    obtain ⟨isString, long⟩ := isQuoted
    obtain ⟨first, last⟩ := formed.nested part member
    have ends := formed.quoted isModule part member isName isString long
    obtain ⟨text, cut⟩ := Option.isSome_iff_exists.mp inner.cuts
    simp only [Label.text, cut, String.toList_ofList] at ends
    constructor
    · simp only [Span.contains_iff, Label.span, Span.ofRange, Span.stop]
      omega
    · have shorter := Text.slice?_inside cut ends long
      rwa [show part.label.span.width - 2 = part.label.stop - 1 - (part.label.start + 1) by
        simp only [Label.span, Span.ofRange]; omega] at shorter
  · exact ⟨formed.holds_part member inner, inner.cuts⟩

end Node.Formed

theorem Context.isKeyword_of_role? {context : Context} {part : Label} {role : Role}
    (taken : context.role? part = some role) : part.isKeyword = false := by
  cases context with
  | declarators =>
      simp only [Context.role?, Label.isDeclarator, Option.ite_none_right_eq_some,
        Bool.and_eq_true] at taken
      simp [Label.isKeyword, taken.1.1]
  | initialValue =>
      simp only [Context.role?, Option.ite_none_right_eq_some] at taken
      simp [Label.isKeyword, taken.1]
  | nothing => cases taken
  | statements | moduleParts | globalParts | classMembers | loopParts =>
      simp only [Context.role?, Option.ite_none_right_eq_some] at taken
      simp [Label.isKeyword, taken.1]

theorem isKeyword_of_visited {source : List Char} {root n : Node} {place : Place} {role : Role}
    (inside : place ≠ []) (found : root.at? place = some n)
    (visited : root.role? source place = some role) : n.label.isKeyword = false := by
  obtain ⟨above, i, rfl⟩ : ∃ above i, place = above ++ [i] :=
    (List.eq_nil_or_concat' place).resolve_left inside
  obtain ⟨outer, around, child⟩ := Node.at?_child_inv found
  obtain ⟨_, _, _, _, taken⟩ := (Node.role?_child around child).mp visited
  rw [Context.roleOf?_of_child child] at taken
  exact Context.isKeyword_of_role? taken

namespace WellFormed

variable {source : List Char} {root n : Node} {place : Place}

theorem part (wellFormed : WellFormed source root) (found : root.at? place = some n) :
    ∀ part ∈ n.children, part.Formed source := by
  intro part member
  obtain ⟨i, child⟩ := List.mem_iff_getElem?.mp member
  exact wellFormed (place ++ [i]) part (Node.at?_child found child)

theorem nested (wellFormed : WellFormed source root) : Nested root := fun place n found =>
  (wellFormed place n found).nested

theorem name (wellFormed : WellFormed source root) (found : root.at? place = some n)
    (noKeyword : n.label.isKeyword = false) {role : Role} {made : Syntax.Kind}
    {nameSpan : Option Span} {mods : Syntax.Modifiers} {bound : List Label} {context : Context}
    (becomes : Becomes source n.children role n.label.kind made nameSpan mods bound context) :
    (∀ span, nameSpan = some span → n.label.span.contains span = true ∧ Cuts source span) ∧
      (made.requiresName = true → nameSpan.isSome = true) := by
  have formed := wellFormed place n found
  have parts := wellFormed.part found
  rcases becomes.nameSpan_cases with
    ⟨rfl, unnamed⟩ | ⟨isModule, rfl⟩ | ⟨needsName, rfl⟩ | ⟨part, member, rfl⟩
  · refine ⟨by simp, ?_⟩
    rw [unnamed]
    exact fun required => absurd required Bool.false_ne_true
  · constructor
    · intro span known
      obtain ⟨name, called, rfl⟩ := Option.map_eq_some_iff.mp known
      obtain ⟨part, member, rfl, isName⟩ := nameField?_eq_some called
      exact formed.moduleName isModule member isName (parts part member)
    · intro _
      rw [Option.isSome_map]
      exact nameField?_isSome (formed.named (Kind.needsName_of_isModule isModule) noKeyword)
  · constructor
    · intro span known
      obtain ⟨name, called, rfl⟩ := Option.map_eq_some_iff.mp known
      obtain ⟨part, member, rfl, _⟩ := nameField?_eq_some called
      exact ⟨formed.holds_part member (parts part member), (parts part member).cuts⟩
    · intro _
      rw [Option.isSome_map]
      exact nameField?_isSome (formed.named needsName noKeyword)
  · refine ⟨?_, fun _ => rfl⟩
    intro span known
    cases known
    exact ⟨formed.holds_part member (parts part member), (parts part member).cuts⟩

theorem stands (wellFormed : WellFormed source root) {trace : Trace}
    (stands : Stands source root trace) :
    Cuts source trace.label.span ∧
      (∀ span, trace.nameSpan = some span →
        trace.label.span.contains span = true ∧ Cuts source span) ∧
      (trace.kind.requiresName = true → trace.nameSpan.isSome = true) := by
  cases stands with
  | node place n role kind nameSpan mods bound context visited found shape =>
      have inside : place ≠ [] := by
        rintro rfl
        cases visited
        cases shape
      exact ⟨(wellFormed place n found).cuts, wellFormed.name found
        (isKeyword_of_visited inside found visited) (Shape.ofRole_becomes shape)⟩
  | binding place n found binds =>
      have cuts := (wellFormed place n found).cuts
      refine ⟨cuts, ?_, fun _ => rfl⟩
      intro span known
      cases known
      exact ⟨Label.span_contains (wellFormed place n found).forward (Nat.le_refl _) (Nat.le_refl _),
        cuts⟩

end WellFormed

section Tree

variable {source : String} {root : Node}

theorem nameOf?_isSome {tree : SyntaxTree} {node : Syntax.Node}
    (named : node.nameSpan.isSome = true)
    (cuts : ∀ span, node.nameSpan = some span → Cuts tree.source.toList span) :
    (tree.nameOf? node).isSome = true := by
  obtain ⟨span, known⟩ := Option.isSome_iff_exists.mp named
  rw [SyntaxTree.nameOf?, known, Option.bind_some, SyntaxTree.slice?, Option.isSome_map]
  exact cuts span known

theorem toSyntaxTree_source : (root.toSyntaxTree source).source = source := by
  rw [Node.toSyntaxTree_eq, Syntax.treeOfOutlines_source]

theorem WellFormed.root_sound (source : String) (root : Node) : ∃ node,
    (root.toSyntaxTree source).node? SyntaxTree.root = some node ∧
      (root.toSyntaxTree source).Sound node ∧ node.kind.requiresName = false := by
  refine ⟨_, Node.toSyntaxTree_root source root,
    ⟨?_, by simp, by simp, by simp [Syntax.Kind.requiresName]⟩, rfl⟩
  rw [SyntaxTree.slice?, Option.isSome_map, toSyntaxTree_source]
  exact (Text.isBoundary_zero _).slice? (Text.isBoundary_byteLength _) (Nat.zero_le _)

theorem WellFormed.contains (wellFormed : WellFormed source.toList root) {trace : Trace}
    {above : Place} {up : NodeId} (member : trace ∈ Trace.allOf (root.forest source.toList))
    (parent : root.image source.toList above = some up)
    (hangs : (above = [] ∧ trace ∈ root.forest source.toList) ∨
      ∃ outer ∈ Trace.allOf (root.forest source.toList),
        outer.place = above ∧ trace ∈ outer.children) :
    ∃ outer, (root.toSyntaxTree source).node? up = some outer ∧
      outer.span.contains trace.label.span = true := by
  obtain ⟨n, found, label⟩ := (Node.stands_forest trace member).at?_place
  have formed := wellFormed trace.place n found
  rw [← label]
  rcases hangs with ⟨rfl, _⟩ | ⟨outer, outerMember, rfl, isChild⟩
  · rw [Node.image_root, Option.some.injEq] at parent
    subst parent
    refine ⟨_, Node.toSyntaxTree_root source root, ?_⟩
    have last := formed.last.le_byteLength
    have forward := formed.forward
    simp only [Span.contains_iff, Label.span, Span.ofRange, Span.stop]
    omega
  · obtain ⟨j, listed⟩ := List.mem_iff_getElem?.mp outerMember
    rw [Node.image_trace listed, Option.some.injEq] at parent
    subst parent
    obtain ⟨_, _, row, _⟩ := Node.node_of_trace listed
    refine ⟨_, row, ?_⟩
    obtain ⟨m, around, outerLabel⟩ := (Node.stands_forest outer outerMember).at?_place
    obtain ⟨⟨rest, place⟩, _⟩ := (Node.laminar_forest source.toList root).below outer outerMember
      trace isChild
    rw [← place, Node.at?_append, around, Option.bind_some] at found
    have inside := wellFormed.nested.below around found
    rw [← outerLabel]
    exact Label.span_contains formed.forward inside.1 inside.2

/-- Every node of the tree is sound, and its name can be read if it needs one. -/
theorem WellFormed.sound (wellFormed : WellFormed source.toList root) {id : NodeId}
    (within : id < (root.toSyntaxTree source).size) :
    ∃ node, (root.toSyntaxTree source).node? id = some node ∧
      (root.toSyntaxTree source).Sound node ∧
      (node.kind.requiresName = true → ((root.toSyntaxTree source).nameOf? node).isSome = true) := by
  cases id with
  | zero =>
      obtain ⟨node, row, sound, unnamed⟩ := WellFormed.root_sound source root
      refine ⟨node, row, sound, ?_⟩
      rw [unnamed]
      exact fun required => absurd required Bool.false_ne_true
  | succ k =>
      obtain ⟨trace, listed⟩ := Node.trace_of_lt within
      have member := List.mem_of_getElem? listed
      obtain ⟨up, above, row, parent, hangs⟩ := Node.node_of_trace listed
      obtain ⟨cuts, name, named⟩ := wellFormed.stands (Node.stands_forest trace member)
      refine ⟨_, row, ⟨?_, ?_, ?_, named⟩, ?_⟩
      · rw [SyntaxTree.slice?, Option.isSome_map, toSyntaxTree_source]
        exact cuts
      · intro up' same
        cases same
        exact wellFormed.contains member parent hangs
      · intro span known
        exact (name span known).1
      · intro required
        apply nameOf?_isSome (named required)
        intro span known
        rw [toSyntaxTree_source]
        exact (name span known).2

theorem WellFormed.readable (wellFormed : WellFormed source.toList root) {id : NodeId}
    (within : id < (root.toSyntaxTree source).size) :
    ∃ node, (root.toSyntaxTree source).node? id = some node ∧
      Convention.Readable (root.toSyntaxTree source) node := by
  obtain ⟨node, row, sound, name⟩ := wellFormed.sound within
  refine ⟨node, row, name, ?_, ?_⟩
  · intro child listed
    obtain ⟨inner, known⟩ := Option.isSome_iff_exists.mp (Node.children_known row child listed)
    obtain ⟨same, again, _, childName⟩ := wellFormed.sound (Array.getElem?_eq_some_iff.mp known).1
    exact ⟨same, again, childName⟩
  · intro up isParent
    obtain ⟨outer, known, _⟩ := sound.inside up isParent
    rw [known]
    rfl

theorem mem_preorder {id : NodeId} :
    id ∈ (root.toSyntaxTree source).preorder ↔ id < (root.toSyntaxTree source).size := by
  rw [Node.toSyntaxTree_eq, Syntax.treeOfOutlines_preorder, List.mem_range]

theorem WellFormed.validate (wellFormed : WellFormed source.toList root) :
    (root.toSyntaxTree source).validate = .ok () := by
  apply SyntaxTree.validate_eq_ok_iff.mpr
  intro id member
  obtain ⟨node, row, sound, _⟩ := wellFormed.sound (mem_preorder.mp member)
  exact ⟨node, row, sound⟩

theorem WellFormed.check (wellFormed : WellFormed source.toList root) (tips : Convention.Tips) :
    ∃ findings, Convention.check tips (root.toSyntaxTree source) = .ok findings := by
  apply Convention.check_ok tips
  intro id member
  exact wellFormed.readable (mem_preorder.mp member)

end Tree

end NamingLint.Concrete
