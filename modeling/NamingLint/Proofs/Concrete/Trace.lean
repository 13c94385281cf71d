import Mathlib.Data.List.Pairwise
import NamingLint.Proofs.Concrete.Place
import NamingLint.Proofs.Syntax.Layout

/-! Traces: outlines that remember which concrete node each of their nodes stands for.

In a laminar list of traces the places alone decide what lies below what: no place occurs twice, and
the nearest place above that of a trace is that of its parent. -/

namespace NamingLint.Concrete

open Syntax (Outline Modifiers NodeId)

inductive Trace where
  | node (place : Place) (label : Label) (kind : Syntax.Kind) (nameSpan : Option Span)
      (modifiers : Modifiers) (children : List Trace)

namespace Trace

def place : Trace → Place
  | .node place _ _ _ _ _ => place

def label : Trace → Label
  | .node _ label _ _ _ _ => label

def kind : Trace → Syntax.Kind
  | .node _ _ kind _ _ _ => kind

def nameSpan : Trace → Option Span
  | .node _ _ _ nameSpan _ _ => nameSpan

def modifiers : Trace → Modifiers
  | .node _ _ _ _ modifiers _ => modifiers

def children : Trace → List Trace
  | .node _ _ _ _ _ children => children

mutual

def outline : Trace → Outline
  | .node _ label kind nameSpan modifiers children =>
    .node kind label.span nameSpan modifiers (outlines children)

def outlines : List Trace → List Outline
  | [] => []
  | trace :: traces => outline trace :: outlines traces

end

mutual

def all : Trace → List Trace
  | .node place label kind nameSpan modifiers children =>
    .node place label kind nameSpan modifiers children :: allOf children

def allOf : List Trace → List Trace
  | [] => []
  | trace :: traces => all trace ++ allOf traces

end

theorem outlines_append (front back : List Trace) :
    outlines (front ++ back) = outlines front ++ outlines back := by
  induction front with
  | nil => rfl
  | cons trace front ih => simp only [List.cons_append, outlines, ih]

theorem allOf_append (front back : List Trace) :
    allOf (front ++ back) = allOf front ++ allOf back := by
  induction front with
  | nil => rfl
  | cons trace front ih => simp only [List.cons_append, allOf, ih, List.append_assoc]

theorem all_eq (trace : Trace) : trace.all = trace :: allOf trace.children := by
  cases trace
  rfl

theorem mem_all_self (trace : Trace) : trace ∈ trace.all := by
  rw [all_eq]
  exact List.mem_cons_self

theorem mem_allOf {traces : List Trace} {inner : Trace} :
    inner ∈ allOf traces ↔ ∃ trace ∈ traces, inner ∈ trace.all := by
  induction traces with
  | nil => simp [allOf]
  | cons trace traces ih => simp [allOf, ih]

mutual

theorem length_all : (trace : Trace) → trace.all.length = trace.outline.size
  | .node _ _ _ _ _ children => by
      rw [all, outline, Outline.size, List.length_cons, length_allOf children]

theorem length_allOf :
    (traces : List Trace) → (allOf traces).length = Outline.sizeAll (outlines traces)
  | [] => rfl
  | trace :: traces => by
      rw [allOf, outlines, Outline.sizeAll, List.length_append, length_all trace,
        length_allOf traces]

end

/-- Where the traces of a list that lies at `id` hang: the first ones below `parent`, each other one
below the trace that it is a child of. -/
def Hangs (parent id : Nat) (tops listing : List Trace) (up : Nat) (inner : Trace) : Prop :=
  (up = parent ∧ inner ∈ tops) ∨
    ∃ j outer, listing[j]? = some outer ∧ up = id + j ∧ inner ∈ outer.children

mutual

theorem lies_all (tree : SyntaxTree) (parent id : Nat) :
    (trace : Trace) → trace.outline.Lies tree parent id →
      ∀ i inner, trace.all[i]? = some inner →
        ∃ up, inner.outline.Lies tree up (id + i) ∧ Hangs parent id [trace] trace.all up inner
  | .node place label kind nameSpan modifiers children => by
      intro lies i inner found
      cases i with
      | zero =>
          cases found
          exact ⟨parent, lies, Or.inl ⟨rfl, List.mem_singleton_self _⟩⟩
      | succ i =>
          obtain ⟨up, below, hangs⟩ := lieAll_allOf tree id (id + 1) children lies.2 i inner found
          refine ⟨up, by rwa [Nat.add_assoc, Nat.add_comm 1] at below, Or.inr ?_⟩
          rcases hangs with ⟨atTop, member⟩ | ⟨j, outer, listed, position, member⟩
          · exact ⟨0, _, rfl, atTop, member⟩
          · exact ⟨j + 1, outer, listed, by omega, member⟩

theorem lieAll_allOf (tree : SyntaxTree) (parent id : Nat) :
    (traces : List Trace) → Outline.LieAll tree parent id (outlines traces) →
      ∀ i inner, (allOf traces)[i]? = some inner →
        ∃ up, inner.outline.Lies tree up (id + i) ∧ Hangs parent id traces (allOf traces) up inner
  | [] => by
      intro _ i inner found
      simp [allOf] at found
  | trace :: traces => by
      intro lie i inner found
      by_cases first : i < trace.all.length
      · rw [allOf, List.getElem?_append_left first] at found
        obtain ⟨up, below, hangs⟩ := lies_all tree parent id trace lie.1 i inner found
        refine ⟨up, below, ?_⟩
        rcases hangs with ⟨atTop, member⟩ | ⟨j, outer, listed, position, member⟩
        · exact Or.inl ⟨atTop, by simp [List.mem_singleton.mp member]⟩
        · obtain ⟨bound, _⟩ := List.getElem?_eq_some_iff.mp listed
          exact Or.inr ⟨j, outer, by rw [allOf, List.getElem?_append_left bound, listed], position,
            member⟩
      · have behind : trace.all.length ≤ i := Nat.le_of_not_lt first
        rw [allOf, List.getElem?_append_right behind] at found
        obtain ⟨up, below, hangs⟩ :=
          lieAll_allOf tree parent (id + trace.outline.size) traces lie.2 _ inner found
        rw [length_all] at behind below
        have position : id + trace.outline.size + (i - trace.outline.size) = id + i := by omega
        refine ⟨up, by rwa [position] at below, ?_⟩
        rcases hangs with ⟨atTop, member⟩ | ⟨j, outer, listed, position, member⟩
        · exact Or.inl ⟨atTop, List.mem_cons_of_mem _ member⟩
        · refine Or.inr ⟨trace.outline.size + j, outer, ?_, by omega, member⟩
          rw [allOf, List.getElem?_append_right (by rw [length_all]; omega), length_all,
            Nat.add_sub_cancel_left, listed]

end

def Apart (first second : Trace) : Prop := first.place.Apart second.place

def Precedes (first second : Trace) : Prop := first.place.Precedes second.place

theorem Precedes.apart {first second : Trace} (precedes : Precedes first second) :
    Apart first second := Place.Precedes.apart precedes

instance : Std.Symm Apart := ⟨fun _ _ apart => Place.Apart.symm apart⟩

/-- A list of traces is laminar if none of its places lies at or below another one, the children of a
trace lie below it, and they are laminar as well. -/
structure Laminar (traces : List Trace) : Prop where
  apart : traces.Pairwise Apart
  below : ∀ outer ∈ allOf traces, ∀ inner ∈ outer.children,
    outer.place <+: inner.place ∧ outer.place ≠ inner.place
  apartBelow : ∀ outer ∈ allOf traces, outer.children.Pairwise Apart

mutual

theorem all_subset : (trace : Trace) → ∀ outer ∈ trace.all, ∀ inner ∈ outer.all, inner ∈ trace.all
  | .node place label kind nameSpan modifiers children => by
      intro outer member inner below
      rw [all, List.mem_cons] at member
      rcases member with rfl | member
      · exact below
      · exact List.mem_cons_of_mem _ (allOf_subset children outer member inner below)

theorem allOf_subset :
    (traces : List Trace) → ∀ outer ∈ allOf traces, ∀ inner ∈ outer.all, inner ∈ allOf traces
  | [] => by
      intro outer member
      simp [allOf] at member
  | trace :: traces => by
      intro outer member inner below
      rw [allOf, List.mem_append] at member ⊢
      rcases member with member | member
      · exact Or.inl (all_subset trace outer member inner below)
      · exact Or.inr (allOf_subset traces outer member inner below)

end

theorem mem_allOf_of_mem {traces : List Trace} {trace : Trace} (member : trace ∈ traces) :
    trace ∈ allOf traces := mem_allOf.mpr ⟨trace, member, mem_all_self trace⟩

namespace Laminar

theorem children {traces : List Trace} {outer : Trace} (laminar : Laminar traces)
    (member : outer ∈ allOf traces) : Laminar outer.children := by
  have within : ∀ inner ∈ allOf outer.children, inner ∈ allOf traces := by
    intro inner below
    apply allOf_subset traces outer member inner
    rw [all_eq]
    exact List.mem_cons_of_mem _ below
  constructor
  · exact laminar.apartBelow outer member
  · intro inner below
    exact laminar.below inner (within inner below)
  · intro inner below
    exact laminar.apartBelow inner (within inner below)

theorem tail {trace : Trace} {traces : List Trace} (laminar : Laminar (trace :: traces)) :
    Laminar traces := by
  have within : ∀ inner ∈ allOf traces, inner ∈ allOf (trace :: traces) := by
    intro inner member
    exact List.mem_append_right _ member
  constructor
  · exact (List.pairwise_cons.mp laminar.apart).2
  · intro inner member
    exact laminar.below inner (within inner member)
  · intro inner member
    exact laminar.apartBelow inner (within inner member)

theorem eq_of_common {traces : List Trace} {first second : Trace} {place : Place}
    (laminar : Laminar traces) (left : first ∈ traces) (right : second ∈ traces)
    (above : first.place <+: place) (other : second.place <+: place) : first = second := by
  by_contra differ
  have apart := laminar.apart.forall left right differ
  rcases List.prefix_or_prefix_of_prefix above other with under | beyond
  · exact apart.1 under
  · exact apart.2 beyond

end Laminar

mutual

theorem prefix_all : (trace : Trace) → Laminar trace.children →
    (∀ inner ∈ trace.children, trace.place <+: inner.place) →
    ∀ inner ∈ trace.all, trace.place <+: inner.place
  | .node place label kind nameSpan modifiers children => by
      intro laminar below inner member
      rw [all, List.mem_cons] at member
      rcases member with rfl | member
      · exact List.prefix_rfl
      · obtain ⟨child, isChild, deeper⟩ := prefix_allOf children laminar inner member
        exact (below child isChild).trans deeper

theorem prefix_allOf : (traces : List Trace) → Laminar traces → ∀ inner ∈ allOf traces,
    ∃ trace ∈ traces, trace.place <+: inner.place
  | [] => by
      intro _ inner member
      simp [allOf] at member
  | trace :: traces => by
      intro laminar inner member
      rw [allOf, List.mem_append] at member
      rcases member with member | member
      · have first : trace ∈ allOf (trace :: traces) := mem_allOf_of_mem List.mem_cons_self
        have below : ∀ child ∈ trace.children, trace.place <+: child.place := by
          intro child isChild
          exact (laminar.below trace first child isChild).1
        exact ⟨trace, List.mem_cons_self,
          prefix_all trace (laminar.children first) below inner member⟩
      · obtain ⟨other, isOther, deeper⟩ := prefix_allOf traces laminar.tail inner member
        exact ⟨other, List.mem_cons_of_mem _ isOther, deeper⟩

end

namespace Laminar

variable {traces : List Trace}

theorem prefix_of_mem_all (laminar : Laminar traces) {outer inner : Trace}
    (member : outer ∈ allOf traces) (below : inner ∈ outer.all) : outer.place <+: inner.place := by
  apply prefix_all outer (laminar.children member) _ inner below
  intro child isChild
  exact (laminar.below outer member child isChild).1

theorem strict_of_mem_allOf (laminar : Laminar traces) {outer inner : Trace}
    (member : outer ∈ allOf traces) (below : inner ∈ allOf outer.children) :
    ¬ inner.place <+: outer.place := by
  intro above
  obtain ⟨child, isChild, deeper⟩ :=
    prefix_allOf outer.children (laminar.children member) inner below
  obtain ⟨under, differ⟩ := laminar.below outer member child isChild
  have back : child.place <+: outer.place := deeper.trans above
  exact differ (under.eq_of_length_le back.length_le)

theorem head {trace : Trace} (laminar : Laminar (trace :: traces)) : Laminar [trace] := by
  have within : ∀ inner ∈ allOf [trace], inner ∈ allOf (trace :: traces) := by
    intro inner member
    rw [allOf, allOf, List.append_nil] at member
    exact List.mem_append_left _ member
  constructor
  · exact List.pairwise_singleton _ _
  · intro inner member
    exact laminar.below inner (within inner member)
  · intro inner member
    exact laminar.apartBelow inner (within inner member)

theorem head_apart {trace first second : Trace} (laminar : Laminar (trace :: traces))
    (left : first ∈ trace.all) (right : second ∈ allOf traces) : first.Apart second := by
  have above := laminar.prefix_of_mem_all (mem_allOf_of_mem List.mem_cons_self) left
  obtain ⟨other, isOther, beyond⟩ := prefix_allOf traces laminar.tail second right
  have apart : trace.Apart other := (List.pairwise_cons.mp laminar.apart).1 other isOther
  exact Place.Apart.below apart above beyond

end Laminar

mutual

/-- In a laminar list the place decides what lies below what. -/
theorem mem_all_of_within : (trace : Trace) → Laminar [trace] → ∀ outer ∈ trace.all,
    ∀ inner ∈ trace.all, outer.place <+: inner.place → inner ∈ outer.all
  | .node place label kind nameSpan modifiers children => by
      intro laminar outer member inner below within
      have top : .node place label kind nameSpan modifiers children ∈
          allOf [.node place label kind nameSpan modifiers children] :=
        mem_allOf_of_mem List.mem_cons_self
      rw [all, List.mem_cons] at member below
      rcases member with rfl | member
      · exact List.mem_cons.mpr below
      · rcases below with rfl | below
        · exact absurd within (laminar.strict_of_mem_allOf top member)
        · exact mem_allOf_of_within children (laminar.children top) outer member inner below within

theorem mem_allOf_of_within : (traces : List Trace) → Laminar traces → ∀ outer ∈ allOf traces,
    ∀ inner ∈ allOf traces, outer.place <+: inner.place → inner ∈ outer.all
  | [] => by
      intro _ outer member
      simp [allOf] at member
  | trace :: traces => by
      intro laminar outer member inner below within
      rw [allOf, List.mem_append] at member below
      rcases member with member | member
      · rcases below with below | below
        · exact mem_all_of_within trace laminar.head outer member inner below within
        · exact absurd within (laminar.head_apart member below).1
      · rcases below with below | below
        · exact absurd within (laminar.head_apart below member).2
        · exact mem_allOf_of_within traces laminar.tail outer member inner below within

end

mutual

theorem places_nodup_all : (trace : Trace) → Laminar [trace] → (trace.all.map place).Nodup
  | .node here label kind nameSpan modifiers children => by
      intro laminar
      have top : .node here label kind nameSpan modifiers children ∈
          allOf [.node here label kind nameSpan modifiers children] :=
        mem_allOf_of_mem List.mem_cons_self
      rw [all, List.map_cons, List.nodup_cons]
      refine ⟨?_, places_nodup children (laminar.children top)⟩
      intro repeated
      obtain ⟨inner, member, same⟩ := List.mem_map.mp repeated
      apply laminar.strict_of_mem_allOf top member
      exact ⟨[], by rw [List.append_nil, same]⟩

theorem places_nodup : (traces : List Trace) → Laminar traces → ((allOf traces).map place).Nodup
  | [] => fun _ => List.nodup_nil
  | trace :: traces => by
      intro laminar
      rw [allOf, List.map_append, List.nodup_append]
      refine ⟨places_nodup_all trace laminar.head, places_nodup traces laminar.tail, ?_⟩
      intro first left second right same
      obtain ⟨inner, member, rfl⟩ := List.mem_map.mp left
      obtain ⟨other, further, rfl⟩ := List.mem_map.mp right
      apply (laminar.head_apart member further).1
      exact ⟨[], by rw [List.append_nil, same]⟩

end

theorem Laminar.nearest {traces : List Trace} (laminar : Laminar traces) {outer inner other : Trace}
    (member : outer ∈ allOf traces) (isChild : inner ∈ outer.children)
    (further : other ∈ allOf traces) (within : other.place <+: inner.place) :
    other.place = inner.place ∨ other.place <+: outer.place := by
  obtain ⟨under, _⟩ := laminar.below outer member inner isChild
  rcases List.prefix_or_prefix_of_prefix within under with above | below
  · exact Or.inr above
  · have inside := mem_allOf_of_within traces laminar outer member other further below
    rw [all_eq, List.mem_cons] at inside
    rcases inside with rfl | inside
    · exact Or.inr List.prefix_rfl
    · obtain ⟨child, isOther, deeper⟩ := mem_allOf.mp inside
      have childMember := mem_allOf_of_mem isOther
      have beyond := (laminar.children member).prefix_of_mem_all childMember deeper
      have same := (laminar.children member).eq_of_common isOther isChild
        (beyond.trans within) List.prefix_rfl
      subst same
      exact Or.inl (within.eq_of_length_le beyond.length_le)

theorem Laminar.top {traces : List Trace} (laminar : Laminar traces) {trace other : Trace}
    (member : trace ∈ traces) (further : other ∈ allOf traces)
    (within : other.place <+: trace.place) : other.place = trace.place := by
  obtain ⟨first, isFirst, beyond⟩ := prefix_allOf traces laminar other further
  have same := laminar.eq_of_common isFirst member (beyond.trans within) List.prefix_rfl
  subst same
  exact within.eq_of_length_le beyond.length_le

end Trace

end NamingLint.Concrete
