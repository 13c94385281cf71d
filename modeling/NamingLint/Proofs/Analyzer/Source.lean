import NamingLint.Analyzer
import NamingLint.Proofs.Except

/-! What checking one source text comes to: the steps that it passes, or the one that it fails at. -/

namespace NamingLint

theorem Rule.egret_check_eq_ok_iff {tips : Convention.Tips} {file : SourceFile} {tree : SyntaxTree}
    {violations : List Violation} :
    (Rule.egret tips).check file tree = .ok violations ↔
      ∃ findings, Convention.check tips tree = .ok findings ∧
        violations = findings.map (egretViolation file) :=
  bind_pure_eq_ok_iff

namespace Analyzer

variable {a : Analyzer} {path : Path} {source : String} {file : SourceFile} {tree : SyntaxTree}

theorem mem_enabledRules {rule : Rule} :
    rule ∈ a.enabledRules ↔ rule ∈ a.rules ∧ a.config.isRuleEnabled rule.name = true := by
  rw [enabledRules, List.mem_filter]

theorem applyRules_eq_ok_iff {violations : List Violation} :
    a.applyRules file tree = .ok violations ↔
      ∃ rows, List.Forall₂ (fun rule row => rule.check file tree = .ok row) a.enabledRules rows ∧
        violations = rows.flatten := by
  rw [applyRules, bind_pure_eq_ok_iff]
  simp only [mapM_eq_ok_iff]

/-- The error of the rules is that of the first enabled one that has one. -/
theorem applyRules_eq_error_iff {error : Syntax.TreeError} :
    a.applyRules file tree = .error error ↔
      ∃ before rule after, a.enabledRules = before ++ rule :: after ∧
        (∀ other ∈ before, ∃ row, other.check file tree = .ok row) ∧
        rule.check file tree = .error error := by
  rw [applyRules, bind_eq_error_iff_left fun rows _ => ⟨rows.flatten, rfl⟩, mapM_eq_error_iff]

theorem applyRules_ok_iff :
    (∃ violations, a.applyRules file tree = .ok violations) ↔
      ∀ rule ∈ a.enabledRules, ∃ row, rule.check file tree = .ok row := by
  constructor
  · intro passed rule member
    obtain ⟨violations, passed⟩ := passed
    obtain ⟨rows, pairs, _⟩ := applyRules_eq_ok_iff.mp passed
    obtain ⟨row, _, checked⟩ := exists_value_of_forall₂ pairs rule member
    exact ⟨row, checked⟩
  · intro each
    obtain ⟨rows, known⟩ := mapM_ok_of_forall each
    exact ⟨rows.flatten, applyRules_eq_ok_iff.mpr ⟨rows, mapM_eq_ok_iff.mp known, rfl⟩⟩

theorem checkSource_eq_ok_iff {violations : List Violation} :
    a.checkSource path source = .ok violations ↔
      ∃ parser tree, a.parserFor? path = some parser ∧ parser.parse source = .ok tree ∧
        tree.validate = .ok () ∧
        a.applyRules (.ofPath path source a.root) tree = .ok violations := by
  rw [checkSource]
  cases chosen : a.parserFor? path with
  | none => simp
  | some parser =>
      simp only [bind_eq_ok_iff, mapError_eq_ok_iff, Option.some.injEq]
      constructor
      · intro steps
        obtain ⟨tree, parsed, ⟨⟩, valid, applied⟩ := steps
        exact ⟨parser, tree, rfl, parsed, valid, applied⟩
      · intro steps
        obtain ⟨_, tree, rfl, parsed, valid, applied⟩ := steps
        exact ⟨tree, parsed, ⟨⟩, valid, applied⟩

theorem checkSource_of_parse {parser : Parser} (chosen : a.parserFor? path = some parser)
    (parsed : parser.parse source = .ok tree) (valid : tree.validate = .ok ()) :
    a.checkSource path source =
      (a.applyRules (.ofPath path source a.root) tree).mapError (.tree path) := by
  simp only [checkSource, chosen, parsed, Except.mapError, bind, Except.bind, valid]

theorem checkSource_of_parse_error {parser : Parser} {error : ParseError}
    (chosen : a.parserFor? path = some parser) (failed : parser.parse source = .error error) :
    a.checkSource path source = .error (.parse path error) := by
  simp only [checkSource, chosen, failed, Except.mapError]
  rfl

theorem checkSource_of_unclaimed (unclaimed : a.parserFor? path = none) :
    a.checkSource path source = .error (.unsupported path) := by
  simp only [checkSource, unclaimed]

end Analyzer

end NamingLint
