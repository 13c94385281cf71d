import Mathlib.Data.List.Induction
import NamingLint.Proofs.Concrete.Origin

/-! Which concrete nodes are outlined, and in which role.

Every trace of a program stands for a concrete node that is outlined in some role, or for a bound
name, and every outlined node that makes a node of the tree has its trace. -/

namespace NamingLint.Concrete

open Syntax (Modifiers)

namespace Node

def roleBelow? (source : List Char) : Role → Node → Place → Option Role
  | role, _, [] => some role
  | role, n, i :: rest => do
    let context ← (Shape.ofRole source n.label.kind n.children role).context?
    let inner ← context.roleOf? n.children i
    let part ← n.children[i]?
    part.roleBelow? source inner rest

theorem roleBelow?_concat (source : List Char) (role inner : Role) (n : Node) (above : Place)
    (i : Nat) :
    n.roleBelow? source role (above ++ [i]) = some inner ↔
      ∃ outer outerRole context part, n.roleBelow? source role above = some outerRole ∧
        n.at? above = some outer ∧
        (Shape.ofRole source outer.label.kind outer.children outerRole).context? = some context ∧
        outer.children[i]? = some part ∧ context.roleOf? outer.children i = some inner := by
  induction above generalizing role n with
  | nil =>
      simp only [List.nil_append, roleBelow?, Option.bind_eq_bind, Option.bind_eq_some_iff, at?_nil,
        Option.some.injEq]
      constructor
      · rintro ⟨context, around, last, taken, part, child, rfl⟩
        exact ⟨n, role, context, part, rfl, rfl, around, child, taken⟩
      · rintro ⟨outer, outerRole, context, part, rfl, rfl, around, child, taken⟩
        exact ⟨context, around, inner, taken, part, child, rfl⟩
  | cons j above ih =>
      simp only [List.cons_append, roleBelow?, Option.bind_eq_bind, Option.bind_eq_some_iff, ih,
        at?_cons]
      constructor
      · rintro ⟨around, first, next, second, child, third, outer, outerRole, context, part, reached,
          found, rest⟩
        exact ⟨outer, outerRole, context, part, ⟨around, first, next, second, child, third, reached⟩,
          ⟨child, third, found⟩, rest⟩
      · rintro ⟨outer, outerRole, context, part, ⟨around, first, next, second, child, third, reached⟩,
          ⟨same, again, found⟩, rest⟩
        rw [third, Option.some.injEq] at again
        subst again
        exact ⟨around, first, next, second, child, third, outer, outerRole, context, part, reached,
          found, rest⟩

/-- The role of the node at a place of a program, none if it is not outlined. The root leaves its parts
to the source file. -/
def role? (source : List Char) (root : Node) : Place → Option Role :=
  root.roleBelow? source .transparent

def forest (source : List Char) (root : Node) : List Trace := root.traces source .transparent []

theorem toSyntaxTree_eq (root : Node) (source : String) :
    root.toSyntaxTree source =
      Syntax.treeOfOutlines source (Trace.outlines (root.forest source.toList)) := by
  obtain ⟨label, parts⟩ := root
  rw [toSyntaxTree, forest, traces_outlines]
  rfl

/-- A part is outlined if the node around it is, in the role that its context gives it. -/
theorem role?_concat {source : List Char} {root : Node} {above : Place} {i : Nat} {inner : Role} :
    root.role? source (above ++ [i]) = some inner ↔
      ∃ outer outerRole context part, root.role? source above = some outerRole ∧
        root.at? above = some outer ∧
        (Shape.ofRole source outer.label.kind outer.children outerRole).context? = some context ∧
        outer.children[i]? = some part ∧ context.roleOf? outer.children i = some inner :=
  roleBelow?_concat source .transparent inner root above i

theorem role?_child {source : List Char} {root outer part : Node} {above : Place} {i : Nat}
    {inner : Role} (around : root.at? above = some outer) (child : outer.children[i]? = some part) :
    root.role? source (above ++ [i]) = some inner ↔
      ∃ outerRole context, root.role? source above = some outerRole ∧
        (Shape.ofRole source outer.label.kind outer.children outerRole).context? = some context ∧
        context.roleOf? outer.children i = some inner := by
  rw [role?_concat]
  constructor
  · rintro ⟨outer', outerRole, context, part', reached, around', surrounds, child', taken⟩
    rw [around, Option.some.injEq] at around'
    subst around'
    rw [child, Option.some.injEq] at child'
    subst child'
    exact ⟨outerRole, context, reached, surrounds, taken⟩
  · rintro ⟨outerRole, context, reached, surrounds, taken⟩
    exact ⟨outer, outerRole, context, part, reached, around, surrounds, child, taken⟩

end Node

/-- What a trace stands for: an outlined node that makes a node of the tree, or a bound name. -/
inductive Stands (source : List Char) (root : Node) : Trace → Prop
  | node (place : Place) (n : Node) (role : Role) (kind : Syntax.Kind) (nameSpan : Option Span)
      (mods : Modifiers) (bound : List Label) (context : Context)
      (visited : root.role? source place = some role) (found : root.at? place = some n)
      (shape : Shape.ofRole source n.label.kind n.children role =
        .node kind nameSpan mods bound context) :
      Stands source root (.node place n.label kind nameSpan mods
        (Node.boundTraces place kind n.children ++
          Node.tracesOf source context place 0 n.children))
  | binding (place : Place) (n : Node) (found : root.at? place = some n)
      (binds : n.label.kind.isBinding = true) : Stands source root (bindingTrace (place, n.label))

def BindsBelow (n : Node) (above : Place) (bound : Place × Label) : Prop :=
  ∃ rest inner, bound.1 = above ++ rest ∧ n.at? rest = some inner ∧ bound.2 = inner.label ∧
    inner.label.kind.isBinding = true

theorem BindsBelow.child {n part : Node} {above : Place} {i : Nat} {bound : Place × Label}
    (child : n.children[i]? = some part) (binds : BindsBelow part (above ++ [i]) bound) :
    BindsBelow n above bound := by
  obtain ⟨rest, inner, place, found, label, isBinding⟩ := binds
  refine ⟨i :: rest, inner, ?_, ?_, label, isBinding⟩
  · rw [place, List.append_assoc, List.singleton_append]
  · rw [Node.at?_cons, child, Option.bind_some, found]

theorem Node.bindingPlaces_below (n : Node) (here : Place) :
    ∀ bound ∈ n.bindingPlaces here, BindsBelow n here bound := by
  induction n using Node.inductOn generalizing here with
  | step label parts ih =>
      intro bound member
      unfold Node.bindingPlaces at member
      split at member
      · rename_i isBinding
        rw [List.mem_singleton] at member
        subst member
        exact ⟨[], .mk label parts, (List.append_nil here).symm, at?_nil _, rfl, isBinding⟩
      · obtain ⟨i, part, opens, inside⟩ := Node.mem_bindingPlacesOf.mp member
        rw [Nat.zero_add] at inside
        exact .child opens.child (ih part (List.mem_of_getElem? opens.child) (here ++ [i]) bound inside)

theorem Node.boundPlaces_below (n : Node) (here : Place) :
    ∀ bound ∈ Node.boundPlaces here 0 n.children, BindsBelow n here bound := by
  intro bound member
  obtain ⟨i, declarator, found, _, inside⟩ := Node.mem_boundPlaces.mp member
  obtain ⟨j, part, _, child, deeper⟩ := Node.mem_declaredPlaces.mp inside
  rw [Nat.zero_add] at deeper
  rw [Nat.zero_add] at deeper
  exact .child found (.child child (part.bindingPlaces_below _ bound deeper))

theorem Node.mem_boundTraces {here : Place} {kind : Syntax.Kind} {parts : List Node}
    {trace : Trace} (member : trace ∈ Node.boundTraces here kind parts) :
    ∃ bound ∈ Node.boundPlaces here 0 parts, trace = bindingTrace bound := by
  unfold Node.boundTraces at member
  split at member
  · obtain ⟨bound, isBound, same⟩ := List.mem_map.mp member
    exact ⟨bound, isBound, same.symm⟩
  · simp at member

theorem Node.allOf_boundTraces (here : Place) (kind : Syntax.Kind) (parts : List Node) :
    Trace.allOf (Node.boundTraces here kind parts) = Node.boundTraces here kind parts := by
  have leaves : ∀ bound : List (Place × Label),
      Trace.allOf (bound.map bindingTrace) = bound.map bindingTrace := by
    intro bound
    induction bound with
    | nil => rfl
    | cons name bound ih =>
        rw [List.map_cons, Trace.allOf, ih]
        rfl
  unfold Node.boundTraces
  split
  · exact leaves _
  · rfl

theorem Node.stands_traces {source : List Char} {root : Node} (n : Node) (role : Role)
    (here : Place) (found : root.at? here = some n) (visited : root.role? source here = some role) :
    ∀ trace ∈ Trace.allOf (n.traces source role here), Stands source root trace := by
  induction n using Node.inductOn generalizing here role with
  | step label parts ih =>
      -- A part is visited if the node is and the shape of the node has a context.
      have inner : ∀ context, (Shape.ofRole source label.kind parts role).context? = some context →
          ∀ trace ∈ Trace.allOf (Node.tracesOf source context here 0 parts),
            Stands source root trace := by
        intro context around trace member
        obtain ⟨i, part, partRole, child, taken, deeper⟩ := Node.mem_allOf_tracesOf.mp member
        rw [Nat.zero_add] at deeper
        apply ih part (List.mem_of_getElem? child) partRole (here ++ [i]) _ _ trace deeper
        · exact at?_child found child
        · exact (role?_child found child).mpr ⟨role, context, visited, around, taken⟩
      intro trace member
      unfold Node.traces at member
      cases shape : Shape.ofRole source label.kind parts role with
      | nothing => simp [shape, Trace.allOf] at member
      | parts context =>
          rw [shape] at member inner
          exact inner context rfl trace member
      | node kind nameSpan mods bound context =>
          rw [shape] at member inner
          simp only [Trace.allOf, Trace.all, List.append_nil, List.mem_cons, Trace.allOf_append,
            List.mem_append, Node.allOf_boundTraces] at member
          rcases member with rfl | member | member
          · exact .node here (.mk label parts) role kind nameSpan mods bound context visited found
              shape
          · obtain ⟨name, isBound, rfl⟩ := Node.mem_boundTraces member
            obtain ⟨rest, pattern, place, deeper, called, binds⟩ :=
              Node.boundPlaces_below (.mk label parts) here name isBound
            obtain ⟨place', label'⟩ := name
            cases place
            cases called
            exact .binding (here ++ rest) pattern (by rw [at?_append, found, Option.bind_some, deeper])
              binds
          · exact inner context rfl trace member

theorem Node.stands_forest {source : List Char} {root : Node} :
    ∀ trace ∈ Trace.allOf (root.forest source), Stands source root trace :=
  Node.stands_traces root .transparent [] (at?_nil root) rfl

theorem Node.mem_traces_of_context {source : List Char} {n : Node} {role : Role} {here : Place}
    {context : Context}
    (around : (Shape.ofRole source n.label.kind n.children role).context? = some context) :
    ∀ trace ∈ Trace.allOf (Node.tracesOf source context here 0 n.children),
      trace ∈ Trace.allOf (n.traces source role here) := by
  obtain ⟨label, parts⟩ := n
  intro trace inside
  unfold Node.traces
  cases shape : Shape.ofRole source label.kind parts role with
  | nothing =>
      simp only [Node.label, children, shape] at around
      cases around
  | parts actual =>
      simp only [Node.label, children, shape] at around
      cases around
      exact inside
  | node kind nameSpan mods bound actual =>
      simp only [Node.label, children, shape] at around
      cases around
      simp only [Trace.allOf, Trace.all, List.append_nil, List.mem_cons, Trace.allOf_append,
        List.mem_append]
      exact Or.inr (Or.inr inside)

theorem Node.traces_subset_forest {source : List Char} {root : Node} (place : Place) (n : Node)
    (role : Role) (found : root.at? place = some n) (visited : root.role? source place = some role) :
    ∀ trace ∈ Trace.allOf (n.traces source role place), trace ∈ Trace.allOf (root.forest source) := by
  induction place using List.reverseRecOn generalizing n role with
  | nil =>
      intro trace member
      rw [at?_nil, Option.some.injEq] at found
      cases found
      cases visited
      exact member
  | append_singleton above i ih =>
      intro trace member
      obtain ⟨outer, around, child⟩ := at?_child_inv found
      obtain ⟨outerRole, context, reached, inner, taken⟩ := (role?_child around child).mp visited
      apply ih outer outerRole around reached trace
      apply Node.mem_traces_of_context inner trace
      apply Node.mem_allOf_tracesOf.mpr
      exact ⟨i, n, role, child, taken, by rwa [Nat.zero_add]⟩

theorem Node.mem_forest {source : List Char} {root n : Node} {place : Place} {role : Role}
    {kind : Syntax.Kind} {nameSpan : Option Span} {mods : Modifiers} {bound : List Label}
    {context : Context} (found : root.at? place = some n)
    (visited : root.role? source place = some role)
    (shape : Shape.ofRole source n.label.kind n.children role =
      .node kind nameSpan mods bound context) :
    .node place n.label kind nameSpan mods (Node.boundTraces place kind n.children ++
      Node.tracesOf source context place 0 n.children) ∈ Trace.allOf (root.forest source) := by
  apply Node.traces_subset_forest place n role found visited
  obtain ⟨label, parts⟩ := n
  unfold Node.traces
  simp only [Node.label, children] at shape ⊢
  rw [shape]
  exact Trace.mem_allOf_of_mem List.mem_cons_self

section Laminar

open Trace (Apart Laminar Precedes)

def BoundBefore (first second : Place × Label) : Prop := first.1.Precedes second.1

theorem BindsBelow.within {n : Node} {above : Place} {bound : Place × Label}
    (binds : BindsBelow n above bound) : above <+: bound.1 := by
  obtain ⟨rest, _, place, _⟩ := binds
  rw [place]
  exact List.prefix_append above rest

theorem Node.bindingPlacesOf_precede {kind : Kind} {above : Place} {parts : List Node}
    (each : ∀ part ∈ parts, ∀ here, (part.bindingPlaces here).Pairwise BoundBefore) (index : Nat) :
    (Node.bindingPlacesOf kind above index parts).Pairwise BoundBefore := by
  induction parts generalizing index with
  | nil => exact List.Pairwise.nil
  | cons part parts ih =>
      have later := ih (fun other member => each other (List.mem_cons_of_mem _ member)) (index + 1)
      rw [Node.bindingPlacesOf]
      split
      · rw [List.pairwise_append]
        refine ⟨each part List.mem_cons_self _, ?_, ?_⟩
        · split
          · exact List.Pairwise.nil
          · exact later
        · intro first left second right
          split at right
          · cases right
          · obtain ⟨i, other, _, inside⟩ := Node.mem_bindingPlacesOf.mp right
            have earlier : index < index + 1 + i := by omega
            exact (Place.precedes_of_index above earlier).below
              (part.bindingPlaces_below _ first left).within
              (other.bindingPlaces_below _ second inside).within
      · exact later

theorem Node.bindingPlaces_precede (n : Node) (here : Place) :
    (n.bindingPlaces here).Pairwise BoundBefore := by
  induction n using Node.inductOn generalizing here with
  | step label parts ih =>
      unfold Node.bindingPlaces
      split
      · exact List.pairwise_singleton _ _
      · exact Node.bindingPlacesOf_precede ih 0

theorem Node.declaredPlaces_precede (above : Place) (index : Nat) (parts : List Node) :
    (Node.declaredPlaces above index parts).Pairwise BoundBefore := by
  induction parts generalizing index with
  | nil => exact List.Pairwise.nil
  | cons part parts ih =>
      unfold Node.declaredPlaces
      split
      · exact part.bindingPlaces_precede _
      · exact ih (index + 1)

theorem Node.declaredPlaces_within {above : Place} {parts : List Node} {bound : Place × Label}
    (member : bound ∈ Node.declaredPlaces above 0 parts) : above <+: bound.1 := by
  obtain ⟨i, part, _, _, inside⟩ := Node.mem_declaredPlaces.mp member
  exact Place.prefix_of_child (part.bindingPlaces_below _ bound inside).within

theorem Node.boundPlaces_precede (above : Place) (index : Nat) (parts : List Node) :
    (Node.boundPlaces above index parts).Pairwise BoundBefore := by
  induction parts generalizing index with
  | nil => exact List.Pairwise.nil
  | cons part parts ih =>
      rw [Node.boundPlaces, List.pairwise_append]
      refine ⟨?_, ih (index + 1), ?_⟩
      · split
        · exact Node.declaredPlaces_precede _ 0 part.children
        · exact List.Pairwise.nil
      · intro first left second right
        split at left
        · obtain ⟨i, other, _, _, inside⟩ := Node.mem_boundPlaces.mp right
          have earlier : index < index + 1 + i := by omega
          exact (Place.precedes_of_index above earlier).below (Node.declaredPlaces_within left)
            (Node.declaredPlaces_within inside)
        · simp at left

theorem Node.boundTraces_precede (here : Place) (kind : Syntax.Kind) (parts : List Node) :
    (Node.boundTraces here kind parts).Pairwise Precedes := by
  unfold Node.boundTraces
  split
  · exact (Node.boundPlaces_precede here 0 parts).map bindingTrace fun _ _ before => before
  · exact List.Pairwise.nil

theorem Node.mem_tracesOf {source : List Char} {context : Context} {above : Place} {index : Nat}
    {parts : List Node} {trace : Trace}
    (member : trace ∈ Node.tracesOf source context above index parts) :
    ∃ (i : Nat) (part : Node) (role : Role), parts[i]? = some part ∧
      context.roleOf? parts i = some role ∧
        trace ∈ part.traces source role (above ++ [index + i]) := by
  induction parts generalizing index context with
  | nil => simp [Node.tracesOf] at member
  | cons part parts ih =>
      rw [Node.tracesOf, List.mem_append] at member
      rcases member with first | later
      · cases taken : context.role? part.label with
        | none => simp [taken] at first
        | some role => exact ⟨0, part, role, rfl, taken, by simpa [taken] using first⟩
      · obtain ⟨i, other, role, found, taken, inside⟩ := ih later
        exact ⟨i + 1, other, role, found, taken, by rwa [Nat.add_assoc, Nat.add_comm 1] at inside⟩

theorem Node.traces_within {source : List Char} (n : Node) (role : Role) (here : Place) :
    ∀ trace ∈ n.traces source role here, here <+: trace.place := by
  induction n using Node.inductOn generalizing here role with
  | step label parts ih =>
      intro trace member
      unfold Node.traces at member
      split at member
      · simp at member
      · obtain ⟨i, part, partRole, child, _, inside⟩ := Node.mem_tracesOf member
        exact Place.prefix_of_child
          (ih part (List.mem_of_getElem? child) partRole _ trace inside)
      · rw [List.mem_singleton] at member
        subst member
        exact List.prefix_rfl

theorem Node.tracesOf_precede {source : List Char} {context : Context} {above : Place}
    {parts : List Node}
    (each : ∀ part ∈ parts, ∀ role here, (part.traces source role here).Pairwise Precedes)
    (index : Nat) : (Node.tracesOf source context above index parts).Pairwise Precedes := by
  induction parts generalizing index context with
  | nil => exact List.Pairwise.nil
  | cons part parts ih =>
      rw [Node.tracesOf, List.pairwise_append]
      refine ⟨?_, ih (fun other member => each other (List.mem_cons_of_mem _ member)) (index + 1), ?_⟩
      · split
        · exact each part List.mem_cons_self _ _
        · exact List.Pairwise.nil
      · intro first left second right
        split at left
        · obtain ⟨i, other, role, _, _, inside⟩ := Node.mem_tracesOf right
          have earlier : index < index + 1 + i := by omega
          exact (Place.precedes_of_index above earlier).below (part.traces_within _ _ first left)
            (other.traces_within _ _ second inside)
        · simp at left

theorem Node.traces_precede {source : List Char} (n : Node) (role : Role) (here : Place) :
    (n.traces source role here).Pairwise Precedes := by
  induction n using Node.inductOn generalizing here role with
  | step label parts ih =>
      unfold Node.traces
      split
      · exact List.Pairwise.nil
      · exact Node.tracesOf_precede ih 0
      · exact List.pairwise_singleton _ _

theorem Node.childTraces_precede (source : List Char) (context : Context) (here : Place)
    (parts : List Node) : (Node.tracesOf source context here 0 parts).Pairwise Precedes :=
  Node.tracesOf_precede (fun part _ role here => part.traces_precede role here) 0

theorem Node.bound_apart_values {source : List Char} {here : Place} {parts : List Node}
    {bound : Place × Label} {trace : Trace} (left : bound ∈ Node.boundPlaces here 0 parts)
    (right : trace ∈ Node.tracesOf source .declarators here 0 parts) :
    bound.1.Apart trace.place := by
  obtain ⟨i, declarator, found, _, declared⟩ := Node.mem_boundPlaces.mp left
  obtain ⟨j, pattern, first, child, deeper⟩ := Node.mem_declaredPlaces.mp declared
  have isName := Node.field_of_fieldAt? first child
  obtain ⟨i', declarator', role, found', taken, inside⟩ := Node.mem_tracesOf right
  have boundWithin := (pattern.bindingPlaces_below _ bound deeper).within
  have traceWithin := declarator'.traces_within _ _ trace inside
  by_cases same : i = i'
  · subst same
    rw [found, Option.some.injEq] at found'
    subst found'
    obtain ⟨label, inner⟩ := declarator
    cases Context.takes_of_roleOf? found taken with
    | statement =>
        rw [Context.roleOf?_of_free rfl found] at taken
        simp [Context.role?] at taken
    | declarator _ =>
        obtain ⟨j', value, _, child', isValue, deeper'⟩ := Node.mem_tracesOf inside
        have differ : j ≠ j' := by
          rintro rfl
          have same := child.symm.trans child'
          cases same
          have asValue := Node.field_of_fieldAt? (Context.first_of_initialValue child isValue) child
          rw [isName] at asValue
          cases asValue
        simp only [Nat.zero_add] at boundWithin deeper'
        exact (Place.apart_of_index _ differ).below boundWithin (value.traces_within _ _ trace deeper')
  · have differ : 0 + i ≠ 0 + i' := by omega
    exact (Place.apart_of_index here differ).below (Place.prefix_of_child boundWithin) traceWithin

theorem Stands.below {source : List Char} {root : Node} {outer inner : Trace}
    (stands : Stands source root outer) (isChild : inner ∈ outer.children) :
    ∃ i, outer.place ++ [i] <+: inner.place := by
  cases stands with
  | binding place n found binds => simp [bindingTrace, Trace.children] at isChild
  | node place n role kind nameSpan mods bound context visited found shape =>
      rcases List.mem_append.mp isChild with isBound | isPart
      · obtain ⟨name, member, rfl⟩ := Node.mem_boundTraces isBound
        obtain ⟨i, declarator, _, _, inside⟩ := Node.mem_boundPlaces.mp member
        exact ⟨0 + i, Node.declaredPlaces_within inside⟩
      · obtain ⟨i, part, partRole, _, _, inside⟩ := Node.mem_tracesOf isPart
        exact ⟨0 + i, part.traces_within _ _ inner inside⟩

theorem Stands.apart {source : List Char} {root : Node} {outer : Trace}
    (stands : Stands source root outer) : outer.children.Pairwise Apart := by
  cases stands with
  | binding place n found binds => exact List.Pairwise.nil
  | node place n role kind nameSpan mods bound context visited found shape =>
      refine List.pairwise_append.mpr ⟨?_, ?_, ?_⟩
      · exact (Node.boundTraces_precede place kind n.children).imp Precedes.apart
      · exact (Node.childTraces_precede source context place n.children).imp Precedes.apart
      · intro first left second right
        obtain ⟨name, member, rfl⟩ := Node.mem_boundTraces left
        -- Only a variable statement binds names, and its parts are declarators.
        have isStatement : kind = .variableStatement := by
          by_contra other
          simp [Node.boundTraces, other] at left
        obtain ⟨_, _, isDeclarators⟩ := (Shape.ofRole_becomes shape).of_variableStatement isStatement
        subst isDeclarators
        exact Node.bound_apart_values member right

theorem Node.laminar_forest (source : List Char) (root : Node) : Laminar (root.forest source) := by
  constructor
  · exact (root.traces_precede .transparent []).imp Precedes.apart
  · intro outer member inner isChild
    obtain ⟨i, within⟩ := (Node.stands_forest outer member).below isChild
    exact ⟨Place.prefix_of_child within, Place.ne_of_child within⟩
  · intro outer member
    exact (Node.stands_forest outer member).apart

end Laminar

end NamingLint.Concrete
