import NamingLint.Proofs.Analyzer.Source
import NamingLint.Proofs.Concrete.Grammar
import NamingLint.Proofs.Concrete.WellFormed

/-! No malformed tree comes out of a grammar that keeps its promises: a file that parses is checked. -/

namespace NamingLint

open Concrete (WellFormed namespaceProgram namespaceText)

/-- A grammar whose trees are well-formed, unless they are in error. -/
def Grammar.KeepsPromises (grammar : Grammar) : Prop :=
  ∀ source root, grammar source = some root → root.errorLabel? = none →
    WellFormed source.toList root

def Parser.IsTypeScript (parser : Parser) : Prop :=
  ∃ grammar : Grammar, grammar.KeepsPromises ∧ (parser = .typescript grammar ∨ parser = .tsx grammar)

theorem Parser.IsTypeScript.parse_ok {parser : Parser} (isTypeScript : parser.IsTypeScript)
    {source : String} {tree : SyntaxTree} (parsed : parser.parse source = .ok tree) :
    ∃ root, WellFormed source.toList root ∧ tree = root.toSyntaxTree source := by
  obtain ⟨grammar, promises, isParser⟩ := isTypeScript
  have outlined : ∃ languageId extensions, parser = .ofGrammar languageId extensions grammar := by
    rcases isParser with isParser | isParser <;> exact ⟨_, _, isParser⟩
  obtain ⟨languageId, extensions, rfl⟩ := outlined
  simp only [Parser.ofGrammar] at parsed
  cases known : grammar source with
  | none =>
      rw [known] at parsed
      cases parsed
  | some root =>
      simp only [known, Parser.ofConcrete] at parsed
      split at parsed
      · cases parsed
      · rename_i noError
        cases parsed
        exact ⟨root, promises source root known noError, rfl⟩

namespace Analyzer

variable {a : Analyzer}

theorem applyRules_ok {file : SourceFile} {tree : SyntaxTree}
    (conventions : ∀ rule ∈ a.rules, ∃ tips, rule = .egret tips)
    (checks : ∀ tips, ∃ findings, Convention.check tips tree = .ok findings) :
    ∃ violations, a.applyRules file tree = .ok violations := by
  have each : ∀ rule ∈ a.enabledRules, ∃ violations, rule.check file tree = .ok violations := by
    intro rule member
    obtain ⟨tips, rfl⟩ := conventions rule (List.mem_filter.mp member).1
    obtain ⟨findings, known⟩ := checks tips
    exact ⟨findings.map (Rule.egretViolation file), by simp only [Rule.egret, known]; rfl⟩
  obtain ⟨rows, known⟩ := mapM_ok_of_forall each
  exact ⟨rows.flatten, by rw [applyRules, known]; rfl⟩

end Analyzer

/-- The tree of a well-formed program is valid and the convention can be checked on it. So with parsers
for well-formed programs a source text is checked, does not parse or has no parser, and no analysis
ends in a malformed tree. -/
theorem wellFormed_source_is_checked :
    (∀ (source : String) (root : Concrete.Node), WellFormed source.toList root →
      (root.toSyntaxTree source).validate = .ok () ∧
      ∀ tips, ∃ findings, Convention.check tips (root.toSyntaxTree source) = .ok findings) ∧
    (∀ a : Analyzer, (∀ parser ∈ a.parsers, parser.IsTypeScript) →
      (∀ rule ∈ a.rules, ∃ tips, rule = .egret tips) → ∀ path source,
      (∃ violations, a.checkSource path source = .ok violations) ∨
      (∃ error, a.checkSource path source = .error (.parse path error)) ∨
      a.checkSource path source = .error (.unsupported path)) := by
  refine ⟨fun source root wellFormed => ⟨wellFormed.validate, wellFormed.check⟩, ?_⟩
  intro a parsers conventions path source
  cases chosen : a.parserFor? path with
  | none => exact Or.inr (Or.inr (Analyzer.checkSource_of_unclaimed chosen))
  | some parser =>
      cases parsed : parser.parse source with
      | error error =>
          exact Or.inr (Or.inl ⟨error, Analyzer.checkSource_of_parse_error chosen parsed⟩)
      | ok tree =>
          obtain ⟨root, wellFormed, rfl⟩ :=
            (parsers parser (List.mem_of_find?_eq_some chosen)).parse_ok parsed
          obtain ⟨violations, applied⟩ := Analyzer.applyRules_ok conventions wellFormed.check
          refine Or.inl ⟨violations, ?_⟩
          rw [Analyzer.checkSource_of_parse chosen parsed wellFormed.validate, applied]
          rfl

def namespaceGrammar : Grammar := fun source =>
  if source = namespaceText then some namespaceProgram else none

theorem namespaceGrammar_keepsPromises : namespaceGrammar.KeepsPromises := by
  intro source root known _
  unfold namespaceGrammar at known
  split at known
  · rename_i same
    cases known
    subst same
    decide +kernel
  · cases known

def namespaceAnalyzer : Analyzer :=
  ⟨⟨"/work"⟩, [.typescript namespaceGrammar], [.egret .egret], [], .default, false⟩

theorem namespaceProgram_is_checked :
    WellFormed namespaceText.toList namespaceProgram ∧
    (namespaceProgram.toSyntaxTree namespaceText).validate = .ok () ∧
    ((∃ violations,
        namespaceAnalyzer.checkSource ⟨"/work/a.ts"⟩ namespaceText = .ok violations) ∨
      (∃ error, namespaceAnalyzer.checkSource ⟨"/work/a.ts"⟩ namespaceText =
        .error (.parse ⟨"/work/a.ts"⟩ error)) ∨
      namespaceAnalyzer.checkSource ⟨"/work/a.ts"⟩ namespaceText =
        .error (.unsupported ⟨"/work/a.ts"⟩)) := by
  have wellFormed : WellFormed namespaceText.toList namespaceProgram := by decide +kernel
  refine ⟨wellFormed, (wellFormed_source_is_checked.1 namespaceText _ wellFormed).1, ?_⟩
  apply wellFormed_source_is_checked.2 namespaceAnalyzer
  · intro parser member
    rw [List.mem_singleton.mp member]
    exact ⟨namespaceGrammar, namespaceGrammar_keepsPromises, Or.inl rfl⟩
  · intro rule member
    exact ⟨.egret, List.mem_singleton.mp member⟩

end NamingLint
