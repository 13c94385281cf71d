import NamingLint.Proofs.Syntax.Nesting
import NamingLint.Proofs.Syntax.Resemblance
import NamingLint.Proofs.Syntax.Subtrees

/-! Validation as a search for the first node at fault.

A node is at fault if one of its spans is out of bounds, or else if it lacks a name that its kind
requires. The walk stops at the first such node and says which of the two it is. An end out of bounds
may not fit a machine word, and then the sum stops the walk before the bounds are compared. -/

namespace NamingLint.SyntaxTree

open Syntax
open Text (IsBoundary)

/-- No character crosses an end of the span of a node, which lies inside that of the parent, and the name
span lies inside that of the node. -/
structure InBounds (tree : SyntaxTree) (n : Node) : Prop where
  cuts : IsBoundary tree.source.toList n.span.offset ∧ IsBoundary tree.source.toList n.span.stop
  inside : ∀ up outer, n.parent = some up → tree.node? up = some outer →
    outer.span.contains n.span = true
  holds : ∀ span, n.nameSpan = some span → n.span.contains span = true

/-- An end that the check adds up leaves the machine word: that of the node, or that of a name span
that does not start before the node. -/
def Overflows (n : Node) : Prop :=
  UInt64.size ≤ n.span.stop ∨
    ∃ name, n.nameSpan = some name ∧ n.span.offset ≤ name.offset ∧ UInt64.size ≤ name.stop

inductive Fault (tree : SyntaxTree) (n : Node) : TreeError → Prop
  | overflow (outside : ¬ tree.InBounds n) (far : Overflows n) : Fault tree n .overflow
  | bounds (outside : ¬ tree.InBounds n) (near : ¬ Overflows n) :
      Fault tree n (.spanOutOfBounds n.kind n.span.offset)
  | name (within : tree.InBounds n) (required : n.kind.requiresName = true)
      (absent : n.nameSpan = none) : Fault tree n (.missingName n.kind n.span.offset)

def Passes (tree : SyntaxTree) (n : Node) : Prop :=
  tree.InBounds n ∧ (n.kind.requiresName = true → ∃ span, n.nameSpan = some span)

variable {tree : SyntaxTree} {id : NodeId} {n : Node}

theorem overflows_iff : overflows n = true ↔ Overflows n := by
  simp only [overflows, Span.overflows, Overflows, Bool.or_eq_true, decide_eq_true_eq,
    Option.any_eq_true, Bool.and_eq_true]

theorem Legible.inBounds_iff (legible : tree.Legible n) (row : tree.node? id = some n) :
    ((tree.slice? n.span).isSome && (tree.around? id).all (fun outer => outer.2.contains n.span) &&
      holdsName n) = true ↔ tree.InBounds n := by
  have inside : (tree.around? id).all (fun outer => outer.2.contains n.span) = true ↔
      ∀ up outer, n.parent = some up → tree.node? up = some outer →
        outer.span.contains n.span = true := by
    cases isParent : n.parent with
    | none => simp [around?_of_noParent row isParent]
    | some up =>
        obtain ⟨outer, outerRow⟩ := legible.parent up isParent
        rw [around?_of_parent row isParent outerRow, Option.all_some]
        constructor
        · intro holds up' outer' isUp isOuter
          cases isUp
          rw [outerRow, Option.some.injEq] at isOuter
          exact isOuter ▸ holds
        · intro each
          exact each up outer rfl outerRow
  rw [Bool.and_eq_true, Bool.and_eq_true, slice?_isSome_iff, inside, holdsName_iff]
  constructor
  · intro parts
    exact ⟨parts.1.1, parts.1.2, parts.2⟩
  · intro bounds
    exact ⟨⟨bounds.cuts, bounds.inside⟩, bounds.holds⟩

theorem fault_iff_of_inBounds (within : tree.InBounds n) {error : TreeError} :
    tree.Fault n error ↔ error = .missingName n.kind n.span.offset ∧
      n.kind.requiresName = true ∧ n.nameSpan = none := by
  constructor
  · intro fault
    cases fault with
    | overflow outside => exact absurd within outside
    | bounds outside => exact absurd within outside
    | name _ required absent => exact ⟨rfl, required, absent⟩
  · rintro ⟨rfl, required, absent⟩
    exact .name within required absent

theorem fault_iff_of_outside (outside : ¬ tree.InBounds n) {error : TreeError} :
    tree.Fault n error ↔
      error = if overflows n then .overflow else .spanOutOfBounds n.kind n.span.offset := by
  constructor
  · intro fault
    cases fault with
    | overflow _ far => rw [if_pos (overflows_iff.mpr far)]
    | bounds _ near => rw [if_neg (fun far => near (overflows_iff.mp far))]
    | name within => exact absurd within outside
  · rintro rfl
    split
    · rename_i far
      exact .overflow outside (overflows_iff.mp far)
    · rename_i near
      exact .bounds outside (fun far => near (overflows_iff.mpr far))

theorem Legible.validateNode_eq_error_iff (legible : tree.Legible n) (row : tree.node? id = some n)
    {error : TreeError} : tree.validateNode id = .error error ↔ tree.Fault n error := by
  rw [validateNode_eq row (legible.insideParent_eq row)]
  by_cases within : tree.InBounds n
  · rw [if_pos ((legible.inBounds_iff row).mpr within), fault_iff_of_inBounds within,
      ← Option.isNone_iff_eq_none, ← Bool.and_eq_true]
    split
    · rename_i nameless
      simp [nameless, eq_comm]
    · rename_i named
      simp [named]
  · rw [if_neg (fun spans => within ((legible.inBounds_iff row).mp spans)),
      fault_iff_of_outside within]
    split <;> simp [eq_comm]

theorem passes_iff_no_fault : tree.Passes n ↔ ∀ error, ¬ tree.Fault n error := by
  by_cases within : tree.InBounds n
  · simp only [Passes, within, true_and, fault_iff_of_inBounds within, ← Option.ne_none_iff_exists']
    constructor
    · intro named error fault
      exact named fault.2.1 fault.2.2
    · intro faultless required absent
      exact faultless _ ⟨rfl, required, absent⟩
  · constructor
    · intro passes
      exact absurd passes.1 within
    · intro faultless
      exact absurd ((fault_iff_of_outside within).mpr rfl) (faultless _)

namespace Linked

variable (linked : Linked tree)
include linked

theorem validateNode_eq_error_iff (connected : tree.Connected id) {error : TreeError} :
    tree.validateNode id = .error error ↔ ∃ n, tree.node? id = some n ∧ tree.Fault n error := by
  obtain ⟨n, row⟩ := connected.known linked
  rw [(linked.legible connected row).validateNode_eq_error_iff row, row]
  simp only [Option.some.injEq, exists_eq_left']

theorem validateNode_eq_ok_iff_passes (connected : tree.Connected id) :
    tree.validateNode id = .ok () ↔ ∃ n, tree.node? id = some n ∧ tree.Passes n := by
  obtain ⟨n, row⟩ := connected.known linked
  have legible := linked.legible connected row
  simp only [eq_ok_unit_iff, ne_eq, legible.validateNode_eq_error_iff row, row, Option.some.injEq,
    exists_eq_left', passes_iff_no_fault]

theorem validate_eq_error_iff {error : TreeError} :
    tree.validate = .error error ↔
      ∃ before id after, tree.preorder = before ++ id :: after ∧
        (∀ other ∈ before, ∃ m, tree.node? other = some m ∧ tree.Passes m) ∧
        ∃ n, tree.node? id = some n ∧ tree.Fault n error := by
  rw [validate, List.forM_eq_forM, forM_eq_error_iff]
  apply exists_first_congr
  · intro id member
    exact linked.validateNode_eq_ok_iff_passes ((linked.mem_preorder_iff id).mp member)
  · intro id member
    exact linked.validateNode_eq_error_iff ((linked.mem_preorder_iff id).mp member)

end Linked

end NamingLint.SyntaxTree
