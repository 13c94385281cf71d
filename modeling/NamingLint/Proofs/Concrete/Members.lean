import Mathlib.Data.Nat.Bitwise
import NamingLint.Proofs.Concrete.Image
import NamingLint.Proofs.Convention.Prescription

/-! Modifiers of class members.

A member takes its modifiers from its direct parts, each for itself, and collects them in a set. So neither
the order of the parts nor their number matters, and what is inside of them is not looked at. -/

namespace NamingLint.Syntax

namespace Modifier

theorem ofKeyword?_eq_some_iff {word : String} {m : Modifier} :
    ofKeyword? word = some m ↔ word = m.keyword := by
  constructor
  · intro found
    have spelled := List.find?_some found
    exact (beq_iff_eq.mp spelled).symm
  · intro spelled
    rw [spelled]
    cases m <;> decide

theorem keyword_inj {first second : Modifier} (same : first.keyword = second.keyword) :
    first = second := by
  have read := ofKeyword?_eq_some_iff.mpr same
  rwa [ofKeyword?_eq_some_iff.mpr rfl, Option.some.injEq] at read

def index : Modifier → Nat
  | publicAccess => 0
  | privateAccess => 1
  | protectedAccess => 2
  | static => 3
  | readonly => 4

theorem toNat_bit (m : Modifier) : m.bit.toNat = 2 ^ m.index := by
  cases m <;> rfl

theorem exists_index {i : Nat} (low : i < 5) : ∃ m : Modifier, m.index = i := by
  have all : ∀ i < 5, ∃ m ∈ Modifier.all, m.index = i := by decide
  obtain ⟨m, _, isIndex⟩ := all i low
  exact ⟨m, isIndex⟩

theorem index_inj {first second : Modifier} (same : first.index = second.index) : first = second := by
  cases first <;> cases second <;> first | rfl | cases same

end Modifier

namespace Modifiers

theorem has_eq_testBit (s : Modifiers) (m : Modifier) : s.has m = s.mask.toNat.testBit m.index := by
  have word : s.mask &&& m.bit = 0 ↔ s.mask.toNat &&& 2 ^ m.index = 0 := by
    rw [← UInt8.toNat_inj, UInt8.toNat_and, Modifier.toNat_bit, UInt8.toNat_zero]
  rw [Bool.eq_iff_iff, has, bne_iff_ne, ne_eq, word, Nat.and_two_pow]
  cases s.mask.toNat.testBit m.index <;> simp

theorem has_insert (s : Modifiers) (m other : Modifier) :
    (s.insert m).has other = (s.has other || decide (other = m)) := by
  have isBit : (2 ^ m.index).testBit other.index = decide (other = m) := by
    rw [Nat.testBit_two_pow, decide_eq_decide]
    exact ⟨fun same => (Modifier.index_inj same).symm, fun same => by rw [same]⟩
  rw [has_eq_testBit, insert, UInt8.toNat_or, Nat.testBit_or, Modifier.toNat_bit, isBit,
    ← has_eq_testBit]

theorem has_foldl_insert (members : List Modifier) (s : Modifiers) (m : Modifier) :
    (members.foldl insert s).has m = true ↔ s.has m = true ∨ m ∈ members := by
  induction members generalizing s with
  | nil => simp
  | cons member members ih => simp [ih, has_insert, or_assoc]

theorem has_ofList_iff {members : List Modifier} {m : Modifier} :
    (ofList members).has m = true ↔ m ∈ members := by
  have nothing : empty.has m = false := by cases m <;> rfl
  rw [ofList, has_foldl_insert, nothing]
  simp

theorem testBit_of_high (s : Modifiers) {i : Nat} (high : 5 ≤ i) : s.mask.toNat.testBit i = false := by
  apply Nat.testBit_lt_two_pow
  have low : s.mask.toNat < 2 ^ 5 := UInt8.lt_iff_toNat_lt.mp s.known
  exact Nat.lt_of_lt_of_le low (Nat.pow_le_pow_right (by decide) high)

theorem eq_of_has {s t : Modifiers} (same : ∀ m, s.has m = true ↔ t.has m = true) : s = t := by
  have masks : s.mask = t.mask := by
    apply UInt8.toNat_inj.mp
    apply Nat.eq_of_testBit_eq
    intro i
    by_cases low : i < 5
    · obtain ⟨m, rfl⟩ := Modifier.exists_index low
      rw [← has_eq_testBit, ← has_eq_testBit]
      exact Bool.eq_iff_iff.mpr (same m)
    · rw [testBit_of_high s (Nat.not_lt.mp low), testBit_of_high t (Nat.not_lt.mp low)]
  cases s
  cases t
  rw [Modifiers.mk.injEq]
  exact masks

end Modifiers

end NamingLint.Syntax

namespace NamingLint.Convention

open Syntax

/-- One check judges the name of a node: a name that fails it is reported, at its own place. -/
def JudgedBy (tip : Tip) (tree : SyntaxTree) (id : NodeId) : Prop :=
  ∃ node span, tree.node? id = some node ∧ node.nameSpan = some span ∧
    ∀ (tips : Tips) (word : String), tree.nameOf? node = some word →
      findingsAt tips tree id = .ok (if Misnamed word.toList tip then [tips.finding (tip, span)] else [])

theorem judgedBy_of_memberCheck {tree : SyntaxTree} {id : NodeId} {node : Node} {span : Span} {tip : Tip}
    (row : tree.node? id = some node) (placed : node.nameSpan = some span)
    (isMember : memberCheck node.modifiers node.kind = some tip) : JudgedBy tip tree id := by
  refine ⟨node, span, row, placed, ?_⟩
  intro tips word called
  have obliges := Obliges.member tip word span isMember called placed
  apply findingsAt_eq_ok_iff.mpr
  refine ⟨reports [⟨[tip], word, span⟩], ⟨node, _, row, obliges, rfl⟩, ?_⟩
  rw [reports_singleton]
  by_cases passed : follows word tip = true
  · rw [if_pos passed, if_neg (follows_iff.mp passed), List.map_nil]
  · have fails : Misnamed word.toList tip := by
      rw [follows_iff, Classical.not_not] at passed
      exact passed
    rw [if_neg passed, if_pos fails, List.map_singleton]

end NamingLint.Convention

namespace NamingLint.Concrete

open Convention (JudgedBy PropertyClass judgedBy_of_memberCheck memberCheck)
open Syntax (Modifier Modifiers NodeId)

def accessModifiers : List Modifier := [.publicAccess, .privateAccess, .protectedAccess]

def tokenModifiers : List (Modifier × Kind) := [(.static, .static), (.readonly, .readonly)]

/-- What a part of a member stands for: the modifier that an accessibility modifier spells, or that of an
anonymous token. -/
inductive Marks (source : List Char) (part : Label) (m : Modifier) : Prop
  | access (isAccess : part.kind = .accessibilityModifier) (spelled : part.text source = m.keyword)
  | token (kind : Kind) (listed : (m, kind) ∈ tokenModifiers) (isToken : part.isToken kind = true)

def SpellsAccess (source : List Char) (parts : List Node) : Prop :=
  ∀ part ∈ parts, part.label.kind = .accessibilityModifier →
    ∃ m ∈ accessModifiers, part.label.text source = m.keyword

theorem mem_tokenModifiers_iff {m : Modifier} {kind : Kind} :
    (m, kind) ∈ tokenModifiers ↔ m = .static ∧ kind = .static ∨ m = .readonly ∧ kind = .readonly := by
  simp only [tokenModifiers, List.mem_cons, Prod.mk.injEq, List.not_mem_nil, or_false]

theorem not_access_of_token {m : Modifier} {kind : Kind} (listed : (m, kind) ∈ tokenModifiers) :
    m ∉ accessModifiers := by
  rcases mem_tokenModifiers_iff.mp listed with ⟨rfl, _⟩ | ⟨rfl, _⟩ <;> decide

section Parts

variable {source : List Char} {parts : List Node} {part : Label} {m : Modifier}

theorem Label.isToken_iff {kind : Kind} :
    part.isToken kind = true ↔ part.named = false ∧ part.kind = kind := by
  rw [isToken, Bool.and_eq_true, Bool.not_eq_true', beq_iff_eq]

theorem modifier?_eq_some_iff : modifier? source part = some m ↔ Marks source part m := by
  constructor
  · intro found
    rw [modifier?] at found
    split at found
    case h_1 isAccess => exact .access isAccess (Modifier.ofKeyword?_eq_some_iff.mp found)
    case h_2 isStatic =>
        rw [Option.ite_none_left_eq_some, Bool.not_eq_true] at found
        cases found.2
        exact .token .static (by decide) (Label.isToken_iff.mpr ⟨found.1, isStatic⟩)
    case h_3 isReadonly =>
        rw [Option.ite_none_left_eq_some, Bool.not_eq_true] at found
        cases found.2
        exact .token .readonly (by decide) (Label.isToken_iff.mpr ⟨found.1, isReadonly⟩)
    case h_4 => cases found
  · intro marks
    cases marks with
    | access isAccess spelled =>
        simp only [modifier?, isAccess]
        exact Modifier.ofKeyword?_eq_some_iff.mpr spelled
    | token kind listed isToken =>
        obtain ⟨unnamed, isKind⟩ := Label.isToken_iff.mp isToken
        rcases mem_tokenModifiers_iff.mp listed with ⟨rfl, rfl⟩ | ⟨rfl, rfl⟩ <;>
          simp [modifier?, isKind, unnamed]

theorem has_modifiers_iff :
    (modifiers source parts).has m = true ↔ ∃ part ∈ parts, Marks source part.label m := by
  rw [modifiers, Modifiers.has_ofList_iff, List.mem_filterMap]
  simp only [modifier?_eq_some_iff]

theorem has_access_iff (isAccess : m ∈ accessModifiers) :
    (modifiers source parts).has m = true ↔ ∃ part ∈ parts,
      part.label.kind = .accessibilityModifier ∧ part.label.text source = m.keyword := by
  rw [has_modifiers_iff]
  constructor
  · intro found
    obtain ⟨part, member, marks⟩ := found
    cases marks with
    | access isKind spelled => exact ⟨part, member, isKind, spelled⟩
    | token kind listed _ => exact absurd isAccess (not_access_of_token listed)
  · intro found
    obtain ⟨part, member, isKind, spelled⟩ := found
    exact ⟨part, member, .access isKind spelled⟩

theorem SpellsAccess.has_token_iff (spells : SpellsAccess source parts) {kind : Kind}
    (listed : (m, kind) ∈ tokenModifiers) :
    (modifiers source parts).has m = true ↔ ∃ part ∈ parts, part.label.isToken kind = true := by
  rw [has_modifiers_iff]
  constructor
  · intro found
    obtain ⟨part, member, marks⟩ := found
    cases marks with
    | access isKind spelled =>
        obtain ⟨other, isAccess, again⟩ := spells part member isKind
        have same : other = m := Modifier.keyword_inj (again.symm.trans spelled)
        exact absurd (same ▸ isAccess) (not_access_of_token listed)
    | token other again isToken =>
        have same : other = kind := by
          rw [mem_tokenModifiers_iff] at listed again
          grind
        exact ⟨part, member, same ▸ isToken⟩
  · intro found
    obtain ⟨part, member, isToken⟩ := found
    exact ⟨part, member, .token kind listed isToken⟩

def Label.isModifier (label : Label) : Bool :=
  label.kind == .accessibilityModifier || tokenModifiers.any fun entry => label.isToken entry.2

def readings (source : List Char) (parts : List Node) : List (Kind × Bool × String) :=
  ((parts.map Node.label).filter Label.isModifier).map fun label =>
    (label.kind, label.named, label.text source)

theorem Marks.isModifier (marks : Marks source part m) : part.isModifier = true := by
  rw [Label.isModifier, Bool.or_eq_true, beq_iff_eq, List.any_eq_true]
  cases marks with
  | access isAccess _ => exact Or.inl isAccess
  | token kind listed isToken => exact Or.inr ⟨_, listed, isToken⟩

theorem Marks.of_reading {source' : List Char} {other : Label} (marks : Marks source part m)
    (same : (other.kind, other.named, other.text source') = (part.kind, part.named, part.text source)) :
    Marks source' other m := by
  simp only [Prod.mk.injEq] at same
  obtain ⟨sameKind, sameNamed, sameText⟩ := same
  cases marks with
  | access isAccess spelled => exact .access (sameKind.trans isAccess) (sameText.trans spelled)
  | token kind listed isToken =>
      obtain ⟨unnamed, isKind⟩ := Label.isToken_iff.mp isToken
      exact .token kind listed (Label.isToken_iff.mpr ⟨sameNamed.trans unnamed, sameKind.trans isKind⟩)

theorem has_modifiers_of_subset {source' : List Char} {others : List Node}
    (within : ∀ reading ∈ readings source parts, reading ∈ readings source' others)
    (has : (modifiers source parts).has m = true) : (modifiers source' others).has m = true := by
  obtain ⟨part, member, marks⟩ := has_modifiers_iff.mp has
  have listed : part.label ∈ (parts.map Node.label).filter Label.isModifier :=
    List.mem_filter.mpr ⟨List.mem_map_of_mem member, marks.isModifier⟩
  obtain ⟨label, again, same⟩ := List.mem_map.mp (within _ (List.mem_map_of_mem listed))
  obtain ⟨other, otherMember, rfl⟩ := List.mem_map.mp (List.mem_filter.mp again).1
  exact has_modifiers_iff.mpr ⟨other, otherMember, marks.of_reading same⟩

/-- Two lists of parts have the same modifiers, up to their order and their number. Parts that are no
modifiers do not count, and neither do places and what is inside of the parts. -/
def SameModifiers (source : List Char) (parts : List Node) (source' : List Char) (others : List Node) :
    Prop :=
  (∀ reading ∈ readings source parts, reading ∈ readings source' others) ∧
    ∀ reading ∈ readings source' others, reading ∈ readings source parts

theorem SameModifiers.modifiers_eq {source' : List Char} {others : List Node}
    (same : SameModifiers source parts source' others) :
    modifiers source' others = modifiers source parts := by
  apply Modifiers.eq_of_has
  intro m
  exact ⟨has_modifiers_of_subset same.2, has_modifiers_of_subset same.1⟩

end Parts

inductive Node.IsMember (source : List Char) (root : Node) (place : Place) (n : Node) :
    Syntax.Kind → Label → Prop
  | method (role : Role) (name : Label) (found : root.at? place = some n)
      (visited : root.role? source place = some role) (declares : DeclaresMethod role n.label.kind)
      (called : methodName? source n.children = some name) : IsMember source root place n
        .methodDeclaration name
  | property (name : Label) (found : root.at? place = some n)
      (visited : root.role? source place = some .statement)
      (isField : n.label.kind = .publicFieldDefinition)
      (called : memberName? n.children = some name) : IsMember source root place n
        .propertyDeclaration name

namespace Node.IsMember

variable {root n : Node} {place : Place} {made : Syntax.Kind} {name : Label}

theorem shape {source : List Char} (isMember : root.IsMember source place n made name) :
    ∃ role, root.at? place = some n ∧ root.role? source place = some role ∧
      Shape.ofRole source n.label.kind n.children role =
        .node made (some name.span) (modifiers source n.children) [] .statements := by
  cases isMember with
  | method role _ found visited declares called =>
      refine ⟨role, found, visited, ?_⟩
      have isMethod : Shape.ofRole source n.label.kind n.children role =
          Shape.method source n.children := by
        cases kind : n.label.kind <;> rw [kind] at declares <;> cases declares <;> rfl
      rw [isMethod, Shape.method, called]
      rfl
  | property _ found visited isField called =>
      refine ⟨.statement, found, visited, ?_⟩
      rw [isField, Shape.ofRole, Shape.ofKind, called]
      rfl

theorem row {source : String} (isMember : root.IsMember source.toList place n made name) :
    ∃ id node, root.image source.toList place = some id ∧
      (root.toSyntaxTree source).node? id = some node ∧ node.kind = made ∧
      node.nameSpan = some name.span ∧ node.modifiers = modifiers source.toList n.children := by
  obtain ⟨role, found, visited, shape⟩ := isMember.shape
  obtain ⟨k, listed⟩ := List.mem_iff_getElem?.mp (Node.mem_forest found visited shape)
  obtain ⟨up, above, row, _⟩ := Node.node_of_trace listed
  exact ⟨k + 1, _, Node.image_trace listed, row, rfl, rfl, rfl⟩

theorem check {source : List Char} (isMember : root.IsMember source place n made name)
    (mods : Modifiers) : ∃ tip, memberCheck mods made = some tip := by
  cases isMember with
  | method => exact ⟨_, rfl⟩
  | property => exact ⟨_, rfl⟩

end Node.IsMember

/-- The modifiers of a member are those of its direct parts. Members with the same modifiers among their
parts, in any order and any number of times, have the same set, and one check judges the names of both. -/
theorem member_modifiers_follow_parts {source : String} {root n : Node} {place : Place}
    {made : Syntax.Kind} {name : Label} (isMember : root.IsMember source.toList place n made name) :
    ∃ id node tip, root.image source.toList place = some id ∧
      (root.toSyntaxTree source).node? id = some node ∧ node.kind = made ∧
      (∀ m ∈ accessModifiers, node.modifiers.has m = true ↔ ∃ part ∈ n.children,
        part.label.kind = .accessibilityModifier ∧ part.label.text source.toList = m.keyword) ∧
      (SpellsAccess source.toList n.children → ∀ m kind, (m, kind) ∈ tokenModifiers →
        (node.modifiers.has m = true ↔ ∃ part ∈ n.children, part.label.isToken kind = true)) ∧
      memberCheck node.modifiers made = some tip ∧ JudgedBy tip (root.toSyntaxTree source) id ∧
      ∀ (source' : String) (root' n' : Node) (place' : Place) (name' : Label),
        root'.IsMember source'.toList place' n' made name' →
        SameModifiers source.toList n.children source'.toList n'.children →
        ∃ id' node', root'.image source'.toList place' = some id' ∧
          (root'.toSyntaxTree source').node? id' = some node' ∧ node'.modifiers = node.modifiers ∧
          PropertyClass.ofModifiers node'.modifiers = PropertyClass.ofModifiers node.modifiers ∧
          JudgedBy tip (root'.toSyntaxTree source') id' := by
  obtain ⟨id, node, imaged, row, kind, placed, mods⟩ := isMember.row
  obtain ⟨tip, applies⟩ := isMember.check node.modifiers
  have judged : JudgedBy tip (root.toSyntaxTree source) id := by
    apply judgedBy_of_memberCheck row placed
    rw [kind, applies]
  refine ⟨id, node, tip, imaged, row, kind, ?_, ?_, applies, judged, ?_⟩
  · intro m isAccess
    rw [mods, has_access_iff isAccess]
  · intro spells m token listed
    rw [mods, spells.has_token_iff listed]
  · intro source' root' n' place' name' otherMember same
    obtain ⟨id', node', imaged', row', kind', placed', mods'⟩ := otherMember.row
    have sameMods : node'.modifiers = node.modifiers := by
      calc
        node'.modifiers = modifiers source'.toList n'.children := mods'
        _ = modifiers source.toList n.children := same.modifiers_eq
        _ = node.modifiers := mods.symm
    refine ⟨id', node', imaged', row', sameMods, congrArg PropertyClass.ofModifiers sameMods, ?_⟩
    apply judgedBy_of_memberCheck row' placed'
    rw [kind', sameMods, applies]

section Sample

def classWithField (stop : Nat) (parts : List Node) : Node :=
  .inner (.other "program") 0 stop none
    [.inner .classDeclaration 0 stop none
      [.token "class" 0 5, .inner (.other "type_identifier") 6 7 (some .name) [],
        .inner .classBody 8 stop (some .body)
          [.token "\x7b" 8 9, .inner .publicFieldDefinition 10 (stop - 3) none parts,
            .token ";" (stop - 3) (stop - 2), .token "\x7d" (stop - 1) stop]]]

def plainFieldText : String := "class A \x7b private static readonly B = 1; \x7d"

def plainFieldParts : List Node :=
  [.inner .accessibilityModifier 10 17 none [.token "private" 10 17], .token "static" 18 24,
    .token "readonly" 25 33, .inner .propertyIdentifier 34 35 (some .name) [], .token "=" 36 37,
    .inner (.other "number") 38 39 (some .value) []]

def mixedFieldText : String := "class A \x7b readonly private static private c = f(); \x7d"

def mixedFieldParts : List Node :=
  [.token "readonly" 10 18, .inner .accessibilityModifier 19 26 none [], .token "static" 27 33,
    .inner .accessibilityModifier 34 41 none [.token "private" 34 41],
    .inner .propertyIdentifier 42 43 (some .name) [], .token "=" 44 45,
    .inner (.other "call_expression") 46 49 (some .value) [.inner .identifier 46 47 none []]]

theorem mixedField_keeps_check :
    SpellsAccess plainFieldText.toList plainFieldParts ∧
      SameModifiers plainFieldText.toList plainFieldParts mixedFieldText.toList mixedFieldParts ∧
      ∃ id id', (classWithField 42 plainFieldParts).image plainFieldText.toList [0, 2, 1] = some id ∧
        (classWithField 52 mixedFieldParts).image mixedFieldText.toList [0, 2, 1] = some id' ∧
        JudgedBy .staticReadonlyProperty
          ((classWithField 42 plainFieldParts).toSyntaxTree plainFieldText) id ∧
        JudgedBy .staticReadonlyProperty
          ((classWithField 52 mixedFieldParts).toSyntaxTree mixedFieldText) id' := by
  have plain : (classWithField 42 plainFieldParts).IsMember plainFieldText.toList [0, 2, 1]
      (.inner .publicFieldDefinition 10 39 none plainFieldParts) .propertyDeclaration
      ⟨.propertyIdentifier, true, false, false, false, 34, 35, some .name⟩ :=
    .property _ (by rfl) (by rfl) rfl (by rfl)
  have mixed : (classWithField 52 mixedFieldParts).IsMember mixedFieldText.toList [0, 2, 1]
      (.inner .publicFieldDefinition 10 49 none mixedFieldParts) .propertyDeclaration
      ⟨.propertyIdentifier, true, false, false, false, 42, 43, some .name⟩ :=
    .property _ (by rfl) (by rfl) rfl (by rfl)
  have spells : SpellsAccess plainFieldText.toList plainFieldParts := by
    unfold SpellsAccess
    decide
  have same : SameModifiers plainFieldText.toList plainFieldParts mixedFieldText.toList
      mixedFieldParts := by
    unfold SameModifiers
    decide +kernel
  obtain ⟨id, node, tip, imaged, _, _, _, tokens, applies, judged, others⟩ :=
    member_modifiers_follow_parts plain
  obtain ⟨id', _, imaged', _, _, _, judged'⟩ := others _ _ _ _ _ mixed same
  have isStatic : node.modifiers.has .static = true :=
    (tokens spells .static .static (by decide)).mpr (by decide)
  have isReadonly : node.modifiers.has .readonly = true :=
    (tokens spells .readonly .readonly (by decide)).mpr (by decide)
  have isTip : tip = .staticReadonlyProperty := by
    rw [memberCheck, if_pos isStatic, if_pos isReadonly, Option.some.injEq] at applies
    exact applies.symm
  subst isTip
  exact ⟨spells, same, id, id', imaged, imaged', judged, judged'⟩

end Sample

end NamingLint.Concrete
