import NamingLint.Proofs.Concrete.Place

/-! Byte ranges of a concrete tree. Where siblings do not overlap and no part fills its declaration,
declarations are told apart by their ranges. -/

namespace NamingLint.Concrete

def Nested (root : Node) : Prop := root.Everywhere fun n => ∀ part ∈ n.children,
  n.label.start ≤ part.label.start ∧ part.label.stop ≤ n.label.stop

instance (root : Node) : Decidable (Nested root) :=
  inferInstanceAs (Decidable (root.Everywhere fun n => ∀ part ∈ n.children,
    n.label.start ≤ part.label.start ∧ part.label.stop ≤ n.label.stop))

theorem Nested.below {root n inner : Node} {place rest : Place} (nested : Nested root)
    (found : root.at? place = some n) (deeper : n.at? rest = some inner) :
    n.label.start ≤ inner.label.start ∧ inner.label.stop ≤ n.label.stop := by
  induction rest generalizing n place with
  | nil =>
      rw [Node.at?_nil, Option.some.injEq] at deeper
      subst deeper
      exact ⟨Nat.le_refl _, Nat.le_refl _⟩
  | cons i rest ih =>
      rw [Node.at?_cons] at deeper
      obtain ⟨part, child, deeper⟩ := Option.bind_eq_some_iff.mp deeper
      have here := nested place n found part (List.mem_of_getElem? child)
      have further := ih (Node.at?_child found child) deeper
      exact ⟨Nat.le_trans here.1 further.1, Nat.le_trans further.2 here.2⟩

theorem Nested.before {root n m : Node} {place other : Place} (nested : Nested root)
    (ordered : root.Everywhere fun outer =>
      outer.children.Pairwise fun first second => first.label.stop ≤ second.label.start)
    (precedes : place.Precedes other) (found : root.at? place = some n)
    (found' : root.at? other = some m) : n.label.stop ≤ m.label.start := by
  obtain ⟨above, i, j, left, right, earlier, rfl, rfl⟩ := precedes
  rw [Node.at?_append] at found found'
  obtain ⟨outer, around, below⟩ := Option.bind_eq_some_iff.mp found
  rw [around, Option.bind_some] at found'
  rw [Node.at?_cons] at below found'
  obtain ⟨first, leftChild, below⟩ := Option.bind_eq_some_iff.mp below
  obtain ⟨second, rightChild, below'⟩ := Option.bind_eq_some_iff.mp found'
  have inFirst := nested.below (Node.at?_child around leftChild) below
  have inSecond := nested.below (Node.at?_child around rightChild) below'
  have apart : first.label.stop ≤ second.label.start := by
    obtain ⟨inside, rfl⟩ := List.getElem?_eq_some_iff.mp leftChild
    obtain ⟨inside', rfl⟩ := List.getElem?_eq_some_iff.mp rightChild
    exact List.pairwise_iff_getElem.mp (ordered above outer around) i j inside inside' earlier
  omega

/-- Kinds whose nodes hold a keyword or a name beside their longest part. -/
def Kind.isSolid : Kind → Bool
  | .classDeclaration | .abstractClassDeclaration | .interfaceDeclaration | .enumDeclaration
  | .moduleNode | .internalModule | .ambientDeclaration | .methodDefinition | .methodSignature
  | .abstractMethodSignature | .lexicalDeclaration | .variableDeclaration => true
  | _ => false

/-- Trees whose ranges tell declarations apart. -/
structure Sharp (root : Node) : Prop where
  nested : Nested root
  ordered : root.Everywhere fun n =>
    n.children.Pairwise fun first second => first.label.stop ≤ second.label.start
  solid : root.Everywhere fun n => n.label.kind.isSolid = true → n.label.start < n.label.stop ∧
    ∀ part ∈ n.children, part.label.stop - part.label.start < n.label.stop - n.label.start

namespace Sharp

variable {root n m : Node} {place other : Place}

theorem eq_of_within (sharp : Sharp root) (found : root.at? place = some n)
    (found' : root.at? other = some m) (isSolid : n.label.kind.isSolid = true)
    (start : m.label.start = n.label.start) (stop : m.label.stop = n.label.stop)
    (within : place <+: other) : place = other := by
  obtain ⟨rest, rfl⟩ := within
  cases rest with
  | nil => rw [List.append_nil]
  | cons i rest =>
      exfalso
      rw [Node.at?_append, found, Option.bind_some, Node.at?_cons] at found'
      obtain ⟨part, child, deeper⟩ := Option.bind_eq_some_iff.mp found'
      have shorter := (sharp.solid place n found isSolid).2 part (List.mem_of_getElem? child)
      have inside := sharp.nested.below (Node.at?_child found child) deeper
      have filled := (sharp.solid place n found isSolid).1
      omega

theorem eq_of_range (sharp : Sharp root) (found : root.at? place = some n)
    (found' : root.at? other = some m) (isSolid : n.label.kind.isSolid = true)
    (isSolid' : m.label.kind.isSolid = true) (start : m.label.start = n.label.start)
    (stop : m.label.stop = n.label.stop) : place = other := by
  have filled := (sharp.solid place n found isSolid).1
  rcases Place.diverge place other with within | within | before | behind
  · exact sharp.eq_of_within found found' isSolid start stop within
  · exact (sharp.eq_of_within found' found isSolid' start.symm stop.symm within).symm
  · have apart := sharp.nested.before sharp.ordered before found found'
    omega
  · have apart := sharp.nested.before sharp.ordered behind found' found
    omega

end Sharp

end NamingLint.Concrete
