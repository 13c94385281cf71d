import NamingLint.Proofs.Syntax.Layout

/-! Parents and children in trees that are built call by call.

Calls may name any id. A node that is pushed below a later id stays out of every list of children, and
one that is pushed below itself is its own child, so a tree need not be one piece. What every call keeps
is that a child records the node that lists it, and that lists of children grow at their end. -/

namespace NamingLint.SyntaxTree

open Syntax

/-- The trees over a source text that calls can build, whatever ids they name. -/
inductive Built (source : String) : SyntaxTree → Prop
  | fresh : Built source (.ofSource source)
  | push {tree : SyntaxTree} (built : Built source tree) (parent : NodeId) (kind : Kind) (span : Span) :
      Built source (tree.push parent kind span)
  | setName {tree : SyntaxTree} (built : Built source tree) (id : NodeId) (span : Span) :
      Built source (tree.setName id span)
  | setModifiers {tree : SyntaxTree} (built : Built source tree) (id : NodeId)
      (modifiers : Modifiers) : Built source (tree.setModifiers id modifiers)

def parentOf? (tree : SyntaxTree) (id : NodeId) : Option NodeId := (tree.node? id).bind Node.parent

section Calls

variable (tree : SyntaxTree) (parent id : Nat) (kind : Kind) (span : Span)

theorem node?_eq_some_lt {n : Node} (row : tree.node? id = some n) : id < tree.size := by
  simp only [node?, Array.getElem?_eq_some_iff] at row
  exact row.1

theorem node?_isSome_iff : (tree.node? id).isSome = true ↔ id < tree.size := by
  simp [node?, size]

theorem size_update (target : Nat) (f : Node → Node) : (tree.update target f).size = tree.size := by
  have lengths := congrArg List.length (update_nodes tree target f)
  simpa [size] using lengths

theorem node?_update (target : Nat) (f : Node → Node) :
    (tree.update target f).node? id =
      if id = target then (tree.node? id).map f else tree.node? id := by
  simp only [node?, ← Array.getElem?_toList, update_nodes, List.getElem?_modify]
  by_cases same : id = target
  · simp [same]
  · simp [same, Ne.symm same]

theorem size_push : (tree.push parent kind span).size = tree.size + 1 := by
  rw [push, size_update]
  simp [size]

theorem push_source : (tree.push parent kind span).source = tree.source := by
  rw [push, update_source]

theorem node?_push :
    (tree.push parent kind span).node? id =
      if id = parent then
        (if id = tree.size then some ⟨kind, some parent, span, none, .empty, []⟩
          else tree.node? id).map (adopt [tree.size])
      else if id = tree.size then some ⟨kind, some parent, span, none, .empty, []⟩
      else tree.node? id := by
  rw [push, node?_update]
  simp only [node?, Array.getElem?_push, size]
  rfl

theorem node?_push_of_ne (notParent : id ≠ parent) (known : id < tree.size) :
    (tree.push parent kind span).node? id = tree.node? id := by
  rw [node?_push, if_neg notParent, if_neg (by omega)]

theorem parentOf?_push :
    (tree.push parent kind span).parentOf? id =
      if id = tree.size then some parent else tree.parentOf? id := by
  rw [parentOf?, node?_push]
  by_cases isNew : id = tree.size
  · simp only [if_pos isNew]
    split <;> rfl
  · simp only [if_neg isNew, parentOf?]
    split
    · rw [Option.bind_map]
      rfl
    · rfl

theorem childrenOf_push :
    (tree.push parent kind span).childrenOf id =
      tree.childrenOf id ++ if id = parent ∧ id ≤ tree.size then [tree.size] else [] := by
  have outside : tree.node? tree.size = none := by simp [node?, size]
  simp only [childrenOf, node?_push]
  by_cases isParent : id = parent
  · by_cases isNew : id = tree.size
    · simp [← isParent, isNew, outside, adopt]
    · simp only [if_pos isParent, if_neg isNew]
      cases row : tree.node? id with
      | none =>
          have beyond : ¬ id ≤ tree.size := by
            have absent := node?_isSome_iff tree id
            simp only [row, Option.isSome_none, Bool.false_eq_true, false_iff] at absent
            omega
          simp [beyond]
      | some n =>
          have within := node?_eq_some_lt tree id row
          simp [isParent ▸ Nat.le_of_lt within, isParent, adopt]
  · have notParent : ¬ (id = parent ∧ id ≤ tree.size) := fun both => isParent both.1
    rw [if_neg isParent, if_neg notParent, List.append_nil]
    by_cases isNew : id = tree.size
    · rw [if_pos isNew, isNew, outside]
    · rw [if_neg isNew]

variable {tree id}

theorem parentOf?_update {target : Nat} {f : Node → Node} (keeps : ∀ n, (f n).parent = n.parent) :
    (tree.update target f).parentOf? id = tree.parentOf? id := by
  simp only [parentOf?, node?_update]
  split
  · cases tree.node? id with
    | none => rfl
    | some n => exact keeps n
  · rfl

theorem childrenOf_update {target : Nat} {f : Node → Node}
    (keeps : ∀ n, (f n).children = n.children) :
    (tree.update target f).childrenOf id = tree.childrenOf id := by
  simp only [childrenOf, node?_update]
  by_cases same : id = target
  · cases row : tree.node? id with
    | none => simp [same]
    | some n => simp [same, keeps]
  · simp [same]

end Calls

/-- How parents and children of a tree go together. -/
structure Linked (tree : SyntaxTree) : Prop where
  root : 0 < tree.size ∧ tree.parentOf? root = none
  child : ∀ id c : Nat, c ∈ tree.childrenOf id → id ≤ c ∧ tree.parentOf? c = some id
  listed : ∀ id up : Nat, tree.parentOf? id = some up → up < id → id ∈ tree.childrenOf up
  ordered : ∀ id, (tree.childrenOf id).Pairwise (· < ·)

theorem parentOf?_eq_some_lt {tree : SyntaxTree} {id up : Nat}
    (isParent : tree.parentOf? id = some up) : id < tree.size := by
  obtain ⟨n, row, _⟩ := Option.bind_eq_some_iff.mp isParent
  exact node?_eq_some_lt tree id row

theorem linked_ofSource (source : String) : Linked (.ofSource source) := by
  have rows : ∀ id, (ofSource source).childrenOf id = [] ∧ (ofSource source).parentOf? id = none := by
    intro id
    cases id with
    | zero => exact ⟨rfl, rfl⟩
    | succ id => simp [childrenOf, parentOf?, node?, ofSource]
  refine ⟨⟨by simp [size, ofSource], (rows _).2⟩, ?_, ?_, ?_⟩
  · intro id c member
    simp [(rows id).1] at member
  · intro id up isParent
    simp [(rows id).2] at isParent
  · intro id
    simp [(rows id).1]

theorem Linked.update {tree : SyntaxTree} (linked : Linked tree) (target : Nat) (f : Node → Node)
    (keepsParent : ∀ n, (f n).parent = n.parent)
    (keepsChildren : ∀ n, (f n).children = n.children) : Linked (tree.update target f) := by
  constructor
  · rw [size_update, parentOf?_update keepsParent]
    exact linked.root
  · intro id c
    rw [childrenOf_update keepsChildren, parentOf?_update keepsParent]
    exact linked.child id c
  · intro id up
    rw [childrenOf_update keepsChildren, parentOf?_update keepsParent]
    exact linked.listed id up
  · intro id
    rw [childrenOf_update keepsChildren]
    exact linked.ordered id

theorem Linked.push {tree : SyntaxTree} (linked : Linked tree) (parent : Nat) (kind : Kind)
    (span : Span) : Linked (tree.push parent kind span) := by
  -- A node that is listed already records its parent, so it is not the one that is added now.
  have earlier : ∀ id c : Nat, c ∈ tree.childrenOf id → c < tree.size := by
    intro id c member
    exact parentOf?_eq_some_lt (linked.child id c member).2
  constructor
  · have notNew : SyntaxTree.root ≠ tree.size := Nat.ne_of_lt linked.root.1
    rw [size_push, parentOf?_push, if_neg notNew]
    exact ⟨Nat.succ_pos _, linked.root.2⟩
  · intro id c member
    rw [childrenOf_push, List.mem_append] at member
    rw [parentOf?_push]
    rcases member with old | new
    · have before := earlier id c old
      rw [if_neg (by omega)]
      exact linked.child id c old
    · split at new
      · rename_i added
        rw [List.mem_singleton] at new
        rw [if_pos new, added.1]
        exact ⟨by omega, rfl⟩
      · simp at new
  · intro id up isParent above
    rw [parentOf?_push] at isParent
    rw [childrenOf_push, List.mem_append]
    by_cases isNew : id = tree.size
    · rw [if_pos isNew, Option.some.injEq] at isParent
      right
      rw [if_pos ⟨isParent.symm, by omega⟩, isNew]
      exact List.mem_singleton_self _
    · rw [if_neg isNew] at isParent
      left
      exact linked.listed id up isParent above
  · intro id
    rw [childrenOf_push, List.pairwise_append]
    refine ⟨linked.ordered id, by split <;> simp, ?_⟩
    intro first old second new
    have before := earlier id first old
    split at new
    · rw [List.mem_singleton.mp new]
      exact before
    · simp at new

theorem Built.linked {source : String} {tree : SyntaxTree} (built : Built source tree) :
    Linked tree := by
  induction built with
  | fresh => exact linked_ofSource source
  | push built parent kind span ih => exact ih.push parent kind span
  | setName built id span ih => exact ih.update id _ (fun _ => rfl) (fun _ => rfl)
  | setModifiers built id modifiers ih => exact ih.update id _ (fun _ => rfl) (fun _ => rfl)

theorem Built.source_eq {source : String} {tree : SyntaxTree} (built : Built source tree) :
    tree.source = source := by
  induction built with
  | fresh => rfl
  | push built parent kind span ih => rw [push_source, ih]
  | setName built id span ih => rw [SyntaxTree.setName, update_source, ih]
  | setModifiers built id modifiers ih => rw [SyntaxTree.setModifiers, update_source, ih]

end NamingLint.SyntaxTree
