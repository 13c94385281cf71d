import NamingLint.Proofs.Analyzer.Source
import NamingLint.Proofs.Convention.Names
import NamingLint.Proofs.Text.Boundary

/-! Valid trees whose names cannot be read.

A valid tree has a name span wherever one is required, inside the span of its node. Nothing asks that it
start and end between two characters, which is what reading the name takes. -/

namespace NamingLint

open Syntax (Node)
open Convention (Tips readNodes isNameless missing)
open SyntaxTree (Built Linked)
open Text (IsBoundary)

/-- A node with a name span that splits no character of the source. -/
def SyntaxTree.HasWholeName (tree : SyntaxTree) (n : Node) : Prop :=
  ∃ span, n.nameSpan = some span ∧ IsBoundary tree.source.toList span.offset ∧
    IsBoundary tree.source.toList span.stop

namespace Convention

variable {tree : SyntaxTree}

theorem isNameless_eq_false_iff {n : Node} :
    isNameless tree n = false ↔ tree.HasWholeName n := by
  rw [isNameless, SyntaxTree.nameOf?, SyntaxTree.HasWholeName]
  cases n.nameSpan with
  | none => simp
  | some span =>
      simp only [Option.bind_some, Option.some.injEq, exists_eq_left', ← SyntaxTree.slice?_isSome_iff,
        Option.isNone_eq_false_iff]

theorem isNameless_iff {n : Node} : isNameless tree n = true ↔ ¬ tree.HasWholeName n := by
  rw [← isNameless_eq_false_iff, Bool.not_eq_false]

theorem check_ok_iff (linked : Linked tree) (tips : Tips) :
    (∃ findings, check tips tree = .ok findings) ↔ ∀ m ∈ readNodes tree, tree.HasWholeName m := by
  rw [exists_ok_iff]
  simp only [ne_eq, check_eq_error_iff tips linked]
  constructor
  · intro passed m member
    by_contra split
    have found : ((readNodes tree).find? (isNameless tree)).isSome = true :=
      List.find?_isSome.mpr ⟨m, member, isNameless_iff.mpr split⟩
    obtain ⟨first, isFirst⟩ := Option.isSome_iff_exists.mp found
    exact passed (missing first) ⟨first, isFirst, rfl⟩
  · intro whole error failed
    obtain ⟨m, isFirst, _⟩ := failed
    have split := isNameless_iff.mp (List.find?_some isFirst)
    exact split (whole m (List.mem_of_find?_eq_some isFirst))

end Convention

namespace Analyzer

variable {a : Analyzer} {path : Path} {source : String} {parser : Parser} {tree : SyntaxTree}

theorem checkSource_ok_iff (linked : Linked tree)
    (conventions : ∀ rule ∈ a.rules, ∃ tips, rule = .egret tips)
    (chosen : a.parserFor? path = some parser) (parsed : parser.parse source = .ok tree)
    (valid : tree.validate = .ok ()) :
    (∃ violations, a.checkSource path source = .ok violations) ↔
      a.enabledRules = [] ∨ ∀ m ∈ readNodes tree, tree.HasWholeName m := by
  rw [checkSource_of_parse chosen parsed valid]
  simp only [mapError_eq_ok_iff, applyRules_ok_iff]
  constructor
  · intro each
    cases enabled : a.enabledRules with
    | nil => exact Or.inl rfl
    | cons rule rest =>
        right
        have member : rule ∈ a.enabledRules := by simp [enabled]
        obtain ⟨tips, rfl⟩ := conventions rule (mem_enabledRules.mp member).1
        obtain ⟨row, checked⟩ := each _ member
        obtain ⟨findings, checked, _⟩ := Rule.egret_check_eq_ok_iff.mp checked
        exact (Convention.check_ok_iff linked tips).mp ⟨findings, checked⟩
  · intro passes rule member
    rcases passes with noRule | whole
    · simp [noRule] at member
    · obtain ⟨tips, rfl⟩ := conventions rule (mem_enabledRules.mp member).1
      obtain ⟨findings, checked⟩ := (Convention.check_ok_iff linked tips).mpr whole
      exact ⟨_, Rule.egret_check_eq_ok_iff.mpr ⟨findings, checked, rfl⟩⟩

end Analyzer

/-- The check of a valid tree gives a result unless a name that it reads is split. Then its error says
that the first node with such a name has none, though its name span lies inside the node. An analyzer
that runs the convention passes a valid tree in the same cases. -/
theorem valid_tree_checked_unless_name_split {source : String} {tree : SyntaxTree}
    (built : Built source tree) (valid : tree.validate = .ok ()) :
    (∀ tips, (∃ findings, Convention.check tips tree = .ok findings) ↔
      ∀ m ∈ readNodes tree, tree.HasWholeName m) ∧
    (∀ tips error, Convention.check tips tree = .error error ↔
      ∃ before m after span, readNodes tree = before ++ m :: after ∧
        (∀ other ∈ before, tree.HasWholeName other) ∧
        m.nameSpan = some span ∧ m.span.contains span = true ∧
        ¬ (IsBoundary source.toList span.offset ∧ IsBoundary source.toList span.stop) ∧
        error = .missingName m.kind m.span.offset) ∧
    ∀ (a : Analyzer) (path : Path) (parser : Parser),
      (∀ rule ∈ a.rules, ∃ tips, rule = .egret tips) → a.parserFor? path = some parser →
      parser.parse source = .ok tree →
      ((∃ violations, a.checkSource path source = .ok violations) ↔
        a.enabledRules = [] ∨ ∀ m ∈ readNodes tree, tree.HasWholeName m) := by
  have linked := built.linked
  refine ⟨Convention.check_ok_iff linked, ?_, ?_⟩
  · intro tips error
    rw [Convention.check_eq_error_iff tips linked]
    constructor
    · intro failed
      obtain ⟨m, isFirst, isError⟩ := failed
      obtain ⟨split, before, after, order, earlier⟩ := List.find?_eq_some_iff_append.mp isFirst
      -- A valid tree has a name span for every node that is asked for a name.
      obtain ⟨id, connected, row, required⟩ :=
        Convention.mem_readNodes linked (List.mem_of_find?_eq_some isFirst)
      have sound := linked.sound valid connected row
      obtain ⟨span, isSpan⟩ := Option.isSome_iff_exists.mp (sound.named required)
      refine ⟨before, m, after, span, order, ?_, isSpan, sound.holds span isSpan, ?_, isError⟩
      · intro other member
        apply Convention.isNameless_eq_false_iff.mp
        simpa using earlier other member
      · intro ends
        apply Convention.isNameless_iff.mp split
        exact ⟨span, isSpan, built.source_eq.symm ▸ ends⟩
    · intro failed
      obtain ⟨before, m, after, span, order, earlier, isSpan, _, split, isError⟩ := failed
      refine ⟨m, List.find?_eq_some_iff_append.mpr ⟨?_, before, after, order, ?_⟩, isError⟩
      · apply Convention.isNameless_iff.mpr
        intro whole
        obtain ⟨other, isOther, ends⟩ := whole
        rw [isSpan, Option.some.injEq] at isOther
        subst isOther
        exact split (built.source_eq ▸ ends)
      · intro other member
        simp [Convention.isNameless_eq_false_iff.mpr (earlier other member)]
  · intro a path parser conventions chosen parsed
    exact Analyzer.checkSource_ok_iff linked conventions chosen parsed valid

def splitNameTree : SyntaxTree :=
  ((SyntaxTree.ofSource "é").push 0 .classDeclaration ⟨0, 2⟩).setName 1 ⟨0, 1⟩

theorem splitNameTree_valid_not_checked :
    Built "é" splitNameTree ∧ splitNameTree.validate = .ok () ∧
    ∀ findings, Convention.check .egret splitNameTree ≠ .ok findings := by
  have failed : Convention.check .egret splitNameTree =
      .error (.missingName .classDeclaration 0) := by decide +kernel
  refine ⟨.setName (.push .fresh ..) .., by decide +kernel, ?_⟩
  intro findings passed
  rw [failed] at passed
  cases passed

def wholeNameTree : SyntaxTree :=
  (((((SyntaxTree.ofSource "class É; let é").push 0 .classDeclaration ⟨0, 8⟩).setName 1 ⟨6, 2⟩).push 0
    .variableStatement ⟨10, 6⟩).push 2 .variableDeclaration ⟨14, 2⟩).setName 3 ⟨14, 2⟩

theorem wholeNameTree_checked :
    Built "class É; let é" wholeNameTree ∧ wholeNameTree.validate = .ok () ∧
    (∃ findings, Convention.check .egret wholeNameTree = .ok findings) ∧
    ∀ m ∈ readNodes wholeNameTree, wholeNameTree.HasWholeName m := by
  have built : Built "class É; let é" wholeNameTree :=
    .setName (.push (.push (.setName (.push .fresh ..) ..) ..) ..) ..
  have valid : wholeNameTree.validate = .ok () := by decide +kernel
  obtain ⟨iff, _⟩ := valid_tree_checked_unless_name_split built valid
  have checked : ∃ findings, Convention.check .egret wholeNameTree = .ok findings :=
    ⟨[⟨.rootVariable, ⟨14, 2⟩, Tips.egret .rootVariable⟩], by decide +kernel⟩
  exact ⟨built, valid, checked, (iff .egret).mp checked⟩

end NamingLint
