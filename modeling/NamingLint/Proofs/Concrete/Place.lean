import NamingLint.Concrete.Node

/-! Places in a concrete tree.

A place lists the indices of the children on the way down from the root. One place is a prefix of
another if its node is an ancestor of the other's, or the same. -/

namespace NamingLint.Concrete

abbrev Place := List Nat

namespace Place

def Apart (first second : Place) : Prop := ¬ first <+: second ∧ ¬ second <+: first

theorem Apart.symm {first second : Place} (apart : Apart first second) : Apart second first :=
  ⟨apart.2, apart.1⟩

theorem Apart.below {first second deeper other : Place} (apart : Apart first second)
    (left : first <+: deeper) (right : second <+: other) : Apart deeper other := by
  constructor
  · intro within
    rcases List.prefix_or_prefix_of_prefix (left.trans within) right with under | beyond
    · exact apart.1 under
    · exact apart.2 beyond
  · intro within
    rcases List.prefix_or_prefix_of_prefix (right.trans within) left with under | beyond
    · exact apart.2 under
    · exact apart.1 beyond

theorem apart_of_index (above : Place) {i j : Nat} (differ : i ≠ j) :
    Apart (above ++ [i]) (above ++ [j]) := by
  have unrelated : ∀ {i j : Nat}, i ≠ j → ¬ above ++ [i] <+: above ++ [j] := by
    intro i j differ within
    rw [List.prefix_append_right_inj, List.cons_prefix_cons] at within
    exact differ within.1
  exact ⟨unrelated differ, unrelated differ.symm⟩

/-- The places part at some node, and the first goes on to an earlier part of it. -/
def Precedes (first second : Place) : Prop :=
  ∃ (above : Place) (i j : Nat) (left right : Place), i < j ∧
    first = above ++ i :: left ∧ second = above ++ j :: right

theorem precedes_of_index (above : Place) {i j : Nat} (earlier : i < j) :
    Precedes (above ++ [i]) (above ++ [j]) := ⟨above, i, j, [], [], earlier, rfl, rfl⟩

theorem Precedes.below {first second deeper other : Place} (precedes : Precedes first second)
    (left : first <+: deeper) (right : second <+: other) : Precedes deeper other := by
  obtain ⟨above, i, j, front, back, earlier, rfl, rfl⟩ := precedes
  obtain ⟨rest, rfl⟩ := left
  obtain ⟨more, rfl⟩ := right
  refine ⟨above, i, j, front ++ rest, back ++ more, earlier, ?_, ?_⟩
  · rw [List.append_assoc, List.cons_append]
  · rw [List.append_assoc, List.cons_append]

theorem Precedes.apart {first second : Place} (precedes : Precedes first second) :
    Apart first second := by
  obtain ⟨above, i, j, left, right, earlier, rfl, rfl⟩ := precedes
  apply (apart_of_index above (Nat.ne_of_lt earlier)).below
  · exact ⟨left, by rw [List.append_assoc, List.singleton_append]⟩
  · exact ⟨right, by rw [List.append_assoc, List.singleton_append]⟩

/-- Two places lie on one path from the root, or one of them precedes the other. -/
theorem diverge (first second : Place) :
    first <+: second ∨ second <+: first ∨ Precedes first second ∨ Precedes second first := by
  induction first generalizing second with
  | nil => exact Or.inl List.nil_prefix
  | cons i left ih =>
      cases second with
      | nil => exact Or.inr (Or.inl List.nil_prefix)
      | cons j right =>
          rcases Nat.lt_trichotomy i j with earlier | same | later
          · exact Or.inr (Or.inr (Or.inl ⟨[], i, j, left, right, earlier, rfl, rfl⟩))
          · subst same
            -- Both places go through one part, below which they part or do not.
            have onward : ∀ {a b : Place}, Precedes a b → Precedes (i :: a) (i :: b) := by
              intro a b precedes
              obtain ⟨above, k, l, deeper, other, earlier, rfl, rfl⟩ := precedes
              exact ⟨i :: above, k, l, deeper, other, earlier, rfl, rfl⟩
            rcases ih right with within | within | precedes | precedes
            · exact Or.inl (List.cons_prefix_cons.mpr ⟨rfl, within⟩)
            · exact Or.inr (Or.inl (List.cons_prefix_cons.mpr ⟨rfl, within⟩))
            · exact Or.inr (Or.inr (Or.inl (onward precedes)))
            · exact Or.inr (Or.inr (Or.inr (onward precedes)))
          · exact Or.inr (Or.inr (Or.inr ⟨[], j, i, right, left, later, rfl, rfl⟩))

theorem prefix_of_child {above place : Place} {i : Nat} (within : above ++ [i] <+: place) :
    above <+: place := (List.prefix_append above [i]).trans within

theorem ne_of_child {above place : Place} {i : Nat} (within : above ++ [i] <+: place) :
    above ≠ place := by
  intro same
  have lengths := within.length_le
  rw [← same, List.length_append] at lengths
  exact absurd lengths (Nat.not_succ_le_self _)

end Place

namespace Node

mutual

/-- Induction over a concrete tree: what holds of a node if it holds of its parts holds everywhere. -/
@[elab_as_elim]
theorem inductOn {motive : Node → Prop} (n : Node)
    (step : ∀ label parts, (∀ part ∈ parts, motive part) → motive (.mk label parts)) : motive n :=
  match n with
  | .mk label parts => step label parts (inductOnAll parts step)

theorem inductOnAll {motive : Node → Prop} (parts : List Node)
    (step : ∀ label parts, (∀ part ∈ parts, motive part) → motive (.mk label parts)) :
    ∀ part ∈ parts, motive part :=
  match parts with
  | [] => fun _ member => nomatch member
  | part :: parts => by
      have first : motive part := inductOn part step
      have others := inductOnAll parts step
      intro other member
      rcases List.mem_cons.mp member with rfl | member
      · exact first
      · exact others other member

end

def at? : Node → Place → Option Node
  | n, [] => some n
  | .mk _ parts, i :: rest =>
    match parts[i]? with
    | some part => part.at? rest
    | none => none

@[simp] theorem at?_nil (n : Node) : n.at? [] = some n := by
  cases n
  rfl

theorem at?_cons (n : Node) (i : Nat) (rest : Place) :
    n.at? (i :: rest) = n.children[i]?.bind fun part => part.at? rest := by
  obtain ⟨label, parts⟩ := n
  simp only [at?, children]
  cases parts[i]? <;> rfl

theorem at?_append (n : Node) (above rest : Place) :
    n.at? (above ++ rest) = (n.at? above).bind fun inner => inner.at? rest := by
  induction above generalizing n with
  | nil => simp
  | cons i above ih =>
      rw [List.cons_append, at?_cons, at?_cons]
      cases n.children[i]? with
      | none => rfl
      | some part => exact ih part

theorem at?_child {n inner part : Node} {above : Place} {i : Nat} (found : n.at? above = some inner)
    (child : inner.children[i]? = some part) : n.at? (above ++ [i]) = some part := by
  rw [at?_append, found, Option.bind_some, at?_cons, child, Option.bind_some, at?_nil]

theorem at?_child_inv {n part : Node} {above : Place} {i : Nat}
    (found : n.at? (above ++ [i]) = some part) :
    ∃ inner, n.at? above = some inner ∧ inner.children[i]? = some part := by
  rw [at?_append] at found
  obtain ⟨inner, first, second⟩ := Option.bind_eq_some_iff.mp found
  rw [at?_cons] at second
  obtain ⟨child, third, same⟩ := Option.bind_eq_some_iff.mp second
  rw [at?_nil, Option.some.injEq] at same
  exact ⟨inner, first, by rw [third, same]⟩

def Everywhere (holds : Node → Prop) (root : Node) : Prop :=
  ∀ place n, root.at? place = some n → holds n

mutual

def all (test : Node → Bool) : Node → Bool
  | .mk label parts => test (.mk label parts) && allOf test parts

def allOf (test : Node → Bool) : List Node → Bool
  | [] => true
  | part :: parts => all test part && allOf test parts

end

theorem allOf_iff (test : Node → Bool) (parts : List Node) :
    allOf test parts = true ↔ ∀ part ∈ parts, all test part = true := by
  induction parts with
  | nil => simp [allOf]
  | cons part parts ih => simp [allOf, ih]

theorem all_of_at? (test : Node → Bool) {root n : Node} {place : Place}
    (checked : root.all test = true) (found : root.at? place = some n) : n.all test = true := by
  induction place generalizing root with
  | nil =>
      rw [at?_nil, Option.some.injEq] at found
      subst found
      exact checked
  | cons i rest ih =>
      obtain ⟨label, parts⟩ := root
      rw [at?_cons] at found
      obtain ⟨part, member, below⟩ := Option.bind_eq_some_iff.mp found
      rw [all, Bool.and_eq_true] at checked
      exact ih ((allOf_iff test parts).mp checked.2 part (List.mem_of_getElem? member)) below

theorem all_of_everywhere (test : Node → Bool) (root : Node)
    (holds : root.Everywhere fun n => test n = true) : root.all test = true := by
  induction root using Node.inductOn with
  | step label parts ih =>
      rw [all, Bool.and_eq_true]
      refine ⟨holds [] (.mk label parts) (at?_nil _), (allOf_iff test parts).mpr ?_⟩
      intro part member
      apply ih part member
      intro place n found
      obtain ⟨i, child⟩ := List.mem_iff_getElem?.mp member
      apply holds (i :: place) n
      rw [at?_cons, show (Node.mk label parts).children[i]? = some part from child]
      exact found

theorem everywhere_iff_all (test : Node → Bool) (root : Node) :
    (root.Everywhere fun n => test n = true) ↔ root.all test = true := by
  constructor
  · exact all_of_everywhere test root
  · intro checked place n found
    have here := all_of_at? test checked found
    obtain ⟨label, parts⟩ := n
    rw [all, Bool.and_eq_true] at here
    exact here.1

instance (holds : Node → Prop) [DecidablePred holds] (root : Node) :
    Decidable (root.Everywhere holds) :=
  decidable_of_iff (root.all fun n => decide (holds n)) <| by
    rw [← everywhere_iff_all]
    simp only [decide_eq_true_eq]

end Node

end NamingLint.Concrete
