import NamingLint.Convention.Criteria
import NamingLint.Convention.Tip

/-! The naming convention as a table: which names fail which check, said without the tests that the
checks run. -/

namespace NamingLint.Convention

def IsUpper (c : Char) : Prop := 'A' ≤ c ∧ c ≤ 'Z'

def IsLower (c : Char) : Prop := 'a' ≤ c ∧ c ≤ 'z'

/-- The word stands in the text and no equals sign comes before its end. -/
def Mentions (word : String) (text : List Char) : Prop :=
  ∃ front back, text = front ++ word.toList ++ back ∧ '=' ∉ front ++ word.toList

/-- The names that fail a check. The check for `var` looks at the text of a whole statement. -/
def Misnamed (name : List Char) : Tip → Prop
  | .className | .staticMethod => '_' ∈ name ∨ ∃ c rest, name = c :: rest ∧ IsLower c
  | .method => '_' ∈ name ∨ ∃ c rest, name = c :: rest ∧ IsUpper c
  | .moduleName | .globalVariable => ∃ c ∈ name, IsUpper c
  | .interfaceName => ¬ ∃ c rest, name = 'I' :: c :: rest ∧ IsUpper c
  | .enumName => ¬ ∃ c rest, name = 'E' :: c :: rest ∧ IsUpper c
  | .varStatement => Mentions "var" name
  | .constant => (∃ c ∈ name, IsLower c) ∨ ¬ "C_".toList <+: name
  | .rootVariable => ¬ "g_".toList <+: name
  | .namespaceVariable => ¬ "p_".toList <+: name
  | .staticProperty => ¬ "s_".toList <+: name ∨ ∃ c ∈ name, IsUpper c
  | .staticReadonlyProperty => ∃ c ∈ name, IsLower c
  | .memberProperty => ¬ "m_".toList <+: name ∨ ∃ c ∈ name, IsUpper c
  | .privateProperty => ¬ "_".toList <+: name ∨ ∃ c ∈ name, IsUpper c

theorem isUpper_iff {c : Char} : c.isUpper = true ↔ IsUpper c := by
  have range : c.isUpper = decide ('A'.val ≤ c.val ∧ c.val ≤ 'Z'.val) := by rfl
  simp [range, IsUpper, Char.le_def]

theorem isLower_iff {c : Char} : c.isLower = true ↔ IsLower c := by
  have range : c.isLower = (decide ('a'.val ≤ c.val) && decide (c.val ≤ 'z'.val)) := by rfl
  simp [range, IsLower, Char.le_def]

theorem startsWith_iff {test : Char → Bool} {holds : Char → Prop}
    (agree : ∀ c, test c = true ↔ holds c) {name : String} :
    startsWith test name = true ↔ ∃ c rest, name.toList = c :: rest ∧ holds c := by
  rw [startsWith]
  cases name.toList with
  | nil => simp
  | cons c rest => simp [agree]

theorem hasUnderscore_iff {name : String} : hasUnderscore name = true ↔ '_' ∈ name.toList := by
  simp [hasUnderscore]

theorem isLowerSnake_iff {name : String} :
    isLowerSnake name = true ↔ ¬ ∃ c ∈ name.toList, IsUpper c := by
  simp [isLowerSnake, ← isUpper_iff]

theorem isUpperSnake_iff {name : String} :
    isUpperSnake name = true ↔ ¬ ∃ c ∈ name.toList, IsLower c := by
  simp [isUpperSnake, ← isLower_iff]

theorem hasTypeMarker_iff {marker : Char} {name : String} :
    hasTypeMarker marker name = true ↔
      ∃ c rest, name.toList = marker :: c :: rest ∧ IsUpper c := by
  rw [hasTypeMarker]
  split
  · rename_i first second rest spelled
    simp [spelled, isUpper_iff, and_assoc]
  · rename_i short
    constructor
    · intro impossible
      cases impossible
    · rintro ⟨c, rest, spelled, _⟩
      exact absurd spelled (short marker c rest)

theorem beginsWith_iff {lead name : String} :
    beginsWith lead name = true ↔ lead.toList <+: name.toList := List.isPrefixOf_iff_prefix

theorem isInfixOf_iff {needle text : List Char} :
    Text.isInfixOf needle text = true ↔ needle <:+: text := by
  induction text with
  | nil => simp [Text.isInfixOf]
  | cons c text ih =>
      rw [Text.isInfixOf, Bool.or_eq_true, ih, List.isPrefixOf_iff_prefix, List.infix_cons_iff]

theorem prefix_takeWhile_iff {test : Char → Bool} {lead text : List Char} :
    lead <+: text.takeWhile test ↔ lead <+: text ∧ ∀ c ∈ lead, test c = true := by
  constructor
  · intro within
    refine ⟨within.trans (List.takeWhile_prefix test), ?_⟩
    intro c member
    exact List.all_eq_true.mp List.all_takeWhile c (within.subset member)
  · rintro ⟨⟨rest, rfl⟩, passes⟩
    rw [List.takeWhile_append_of_pos passes]
    exact List.prefix_append _ _

theorem mentions_iff {word text : String} :
    Text.isInfixOf word.toList (statementHead text) = true ↔ Mentions word text.toList := by
  rw [isInfixOf_iff, statementHead]
  constructor
  · rintro ⟨front, back, spelled⟩
    have within : front ++ word.toList <+: text.toList.takeWhile (· != '=') := ⟨back, spelled⟩
    obtain ⟨⟨rest, whole⟩, passes⟩ := prefix_takeWhile_iff.mp within
    refine ⟨front, rest, whole.symm, ?_⟩
    intro member
    have differs := passes '=' member
    cases differs
  · rintro ⟨front, back, whole, noEquals⟩
    have within : front ++ word.toList <+: text.toList.takeWhile (· != '=') := by
      refine prefix_takeWhile_iff.mpr ⟨⟨back, whole.symm⟩, ?_⟩
      intro c member
      rw [bne_iff_ne]
      rintro rfl
      exact noEquals member
    obtain ⟨rest, spelled⟩ := within
    exact ⟨front, rest, spelled⟩

def follows (name : String) : Tip → Bool
  | .className | .staticMethod => isPascalCase name
  | .method => isCamelCase name
  | .moduleName | .globalVariable => isLowerSnake name
  | .interfaceName => hasTypeMarker 'I' name
  | .enumName => hasTypeMarker 'E' name
  | .varStatement => !Text.isInfixOf "var".toList (statementHead name)
  | .constant => isUpperSnake name && beginsWith "C_" name
  | .rootVariable => beginsWith "g_" name
  | .namespaceVariable => beginsWith "p_" name
  | .staticProperty => beginsWith "s_" name && isLowerSnake name
  | .staticReadonlyProperty => isUpperSnake name
  | .memberProperty => beginsWith "m_" name && isLowerSnake name
  | .privateProperty => beginsWith "_" name && isLowerSnake name

theorem follows_iff {name : String} {tip : Tip} :
    follows name tip = true ↔ ¬ Misnamed name.toList tip := by
  cases tip with
  | className | staticMethod =>
      simp only [follows, isPascalCase, Misnamed, Bool.and_eq_true, Bool.not_eq_true',
        ← Bool.not_eq_true, hasUnderscore_iff, startsWith_iff fun c => isLower_iff, not_or]
  | method =>
      simp only [follows, isCamelCase, Misnamed, Bool.and_eq_true, Bool.not_eq_true',
        ← Bool.not_eq_true, hasUnderscore_iff, startsWith_iff fun c => isUpper_iff, not_or]
  | moduleName | globalVariable => simp only [follows, Misnamed, isLowerSnake_iff]
  | interfaceName | enumName => simp only [follows, Misnamed, hasTypeMarker_iff, Classical.not_not]
  | varStatement =>
      simp only [follows, Misnamed, Bool.not_eq_true', ← Bool.not_eq_true, mentions_iff]
  | constant =>
      simp only [follows, Misnamed, Bool.and_eq_true, isUpperSnake_iff, beginsWith_iff, not_or,
        Classical.not_not]
  | rootVariable | namespaceVariable =>
      simp only [follows, Misnamed, beginsWith_iff, Classical.not_not]
  | staticReadonlyProperty => simp only [follows, Misnamed, isUpperSnake_iff]
  | staticProperty | memberProperty | privateProperty =>
      simp only [follows, Misnamed, Bool.and_eq_true, isLowerSnake_iff, beginsWith_iff, not_or,
        Classical.not_not]

instance (name : String) (tip : Tip) : Decidable (Misnamed name.toList tip) :=
  decidable_of_iff (¬ follows name tip = true) <| by rw [follows_iff, Classical.not_not]

def verdict (name : String) (checks : List Tip) : Option Tip :=
  checks.find? fun tip => decide (Misnamed name.toList tip)

end NamingLint.Convention
