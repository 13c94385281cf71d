import NamingLint.Proofs.Analyzer.Source
import NamingLint.Proofs.Path.Order

/-! The outcome of an analysis, told from its files.

A file fails, or gives its violations, or is left out because it does not parse. The files are taken in
the order of their paths, and the first one that fails ends the analysis. -/

namespace NamingLint

namespace Analyzer

def Yields (a : Analyzer) (read : Path → Except IoError String) (path : Path) (source : String)
    (tree : SyntaxTree) : Prop :=
  read path = .ok source ∧ ∃ parser, a.parserFor? path = some parser ∧ parser.parse source = .ok tree

/-- A file that ends an analysis, and the error that it ends with. -/
inductive Fails (a : Analyzer) (read : Path → Except IoError String) (path : Path) :
    AnalysisError → Prop
  | unreadable (error : IoError) (failed : read path = .error error) : Fails a read path (.io error)
  | unparsed (source : String) (parser : Parser) (error : ParseError)
      (content : read path = .ok source) (chosen : a.parserFor? path = some parser)
      (failed : parser.parse source = .error error) (strict : a.failOnParseError = true) :
      Fails a read path (.parse path error)
  | malformed (source : String) (tree : SyntaxTree) (error : Syntax.TreeError)
      (parsed : a.Yields read path source tree) (failed : tree.validate = .error error) :
      Fails a read path (.tree path error)
  | rejected (source : String) (tree : SyntaxTree) (error : Syntax.TreeError) (rule : Rule)
      (before after : List Rule) (parsed : a.Yields read path source tree)
      (valid : tree.validate = .ok ())
      (order : (a.rules.filter fun rule => a.config.isRuleEnabled rule.name) = before ++ rule :: after)
      (passed : ∀ other ∈ before, ∃ row, other.check (.ofPath path source a.root) tree = .ok row)
      (failed : rule.check (.ofPath path source a.root) tree = .error error) :
      Fails a read path (.tree path error)

def Gives (a : Analyzer) (read : Path → Except IoError String) (path : Path)
    (violations : List Violation) : Prop :=
  ∃ source tree rows, a.Yields read path source tree ∧ tree.validate = .ok () ∧
    List.Forall₂ (fun rule row => rule.check (.ofPath path source a.root) tree = .ok row)
      (a.rules.filter fun rule => a.config.isRuleEnabled rule.name) rows ∧
    violations = rows.flatten

def parses (a : Analyzer) (read : Path → Except IoError String) (path : Path) : Bool :=
  match read path, a.parserFor? path with
  | .ok source, some parser => (parser.parse source).isOk
  | _, _ => false

variable {a : Analyzer} {read : Path → Except IoError String} {path : Path}

section OneFile

theorem checkFile_eq_ok_iff {violations : List Violation} :
    a.checkFile read path = .ok violations ↔ a.Gives read path violations := by
  rw [checkFile, bind_eq_ok_iff]
  simp only [mapError_eq_ok_iff, checkSource_eq_ok_iff, applyRules_eq_ok_iff]
  constructor
  · intro steps
    obtain ⟨source, content, parser, tree, chosen, parsed, valid, rows, pairs, same⟩ := steps
    exact ⟨source, tree, rows, ⟨content, parser, chosen, parsed⟩, valid, pairs, same⟩
  · intro gives
    obtain ⟨source, tree, rows, ⟨content, parser, chosen, parsed⟩, valid, pairs, same⟩ := gives
    exact ⟨source, content, parser, tree, chosen, parsed, valid, rows, pairs, same⟩

theorem checkFile_of_yields {source : String} {tree : SyntaxTree}
    (parsed : a.Yields read path source tree) :
    a.checkFile read path = (do
      tree.validate.mapError (.tree path)
      (a.applyRules (.ofPath path source a.root) tree).mapError (.tree path)) := by
  obtain ⟨content, parser, chosen, parsed⟩ := parsed
  simp only [checkFile, checkSource, content, chosen, parsed, Except.mapError, bind, Except.bind]

theorem checkFile_of_parse_error {source : String} {parser : Parser} {error : ParseError}
    (content : read path = .ok source) (chosen : a.parserFor? path = some parser)
    (failed : parser.parse source = .error error) :
    a.checkFile read path = .error (.parse path error) := by
  rw [checkFile, content]
  exact checkSource_of_parse_error chosen failed

theorem Fails.checkFile {error : AnalysisError} (fails : a.Fails read path error) :
    a.checkFile read path = .error error := by
  cases fails with
  | unreadable error failed =>
      simp only [Analyzer.checkFile, failed, Except.mapError, bind, Except.bind]
  | unparsed source parser error content chosen failed strict =>
      exact checkFile_of_parse_error content chosen failed
  | malformed source tree error parsed failed =>
      rw [checkFile_of_yields parsed, failed]
      rfl
  | rejected source tree error rule before after parsed valid order passed failed =>
      rw [checkFile_of_yields parsed, valid,
        applyRules_eq_error_iff.mpr ⟨before, rule, after, order, passed, failed⟩]
      rfl

theorem checkFile_eq_error_cases (handled : (a.parserFor? path).isSome = true) {error : AnalysisError}
    (failed : a.checkFile read path = .error error) :
    a.Fails read path error ∨
      a.failOnParseError = false ∧ a.parses read path = false ∧ ∃ cause, error = .parse path cause := by
  obtain ⟨parser, chosen⟩ := Option.isSome_iff_exists.mp handled
  cases content : read path with
  | error cause =>
      simp only [checkFile, content, Except.mapError, bind, Except.bind] at failed
      cases failed
      exact Or.inl (.unreadable cause content)
  | ok source =>
      cases parsed : parser.parse source with
      | error cause =>
          rw [checkFile_of_parse_error content chosen parsed] at failed
          cases failed
          cases strict : a.failOnParseError with
          | true => exact Or.inl (.unparsed source parser cause content chosen parsed strict)
          | false =>
              right
              refine ⟨rfl, ?_, cause, rfl⟩
              simp only [parses, content, chosen, parsed, Except.isOk, Except.toBool]
      | ok tree =>
          have yields : a.Yields read path source tree := ⟨content, parser, chosen, parsed⟩
          rw [checkFile_of_yields yields, bind_eq_error_iff] at failed
          left
          rcases failed with atTree | ⟨_, valid, atRule⟩
          · obtain ⟨cause, invalid, rfl⟩ := mapError_eq_error_iff.mp atTree
            exact .malformed source tree cause yields invalid
          · obtain ⟨cause, rejected, rfl⟩ := mapError_eq_error_iff.mp atRule
            obtain ⟨before, rule, after, order, passed, failed⟩ := applyRules_eq_error_iff.mp rejected
            exact .rejected source tree cause rule before after yields (mapError_eq_ok_iff.mp valid) order
              passed failed

theorem Fails.unique {first second : AnalysisError} (left : a.Fails read path first)
    (right : a.Fails read path second) : first = second := by
  have same := left.checkFile.symm.trans right.checkFile
  rwa [Except.error.injEq] at same

theorem Gives.unique {first second : List Violation} (left : a.Gives read path first)
    (right : a.Gives read path second) : first = second := by
  rw [← checkFile_eq_ok_iff] at left right
  rwa [left, Except.ok.injEq] at right

theorem Gives.passes {violations : List Violation} (gives : a.Gives read path violations)
    (error : AnalysisError) : ¬ a.Fails read path error := by
  intro fails
  have checked := checkFile_eq_ok_iff.mpr gives
  rw [fails.checkFile] at checked
  cases checked

theorem Gives.parses {violations : List Violation} (gives : a.Gives read path violations) :
    a.parses read path = true := by
  obtain ⟨source, tree, _, ⟨content, parser, chosen, parsed⟩, _⟩ := gives
  simp only [Analyzer.parses, content, chosen, parsed, Except.isOk, Except.toBool]

theorem Fails.not_unsupported {other : Path} : ¬ a.Fails read path (.unsupported other) := by
  intro fails
  cases fails

end OneFile

section Files

theorem checkFiles_of_gives {violations : List Violation} (gives : a.Gives read path violations)
    (paths : List Path) :
    (a.checkFiles read (path :: paths)).outcome =
      (a.checkFiles read paths).outcome.map (.addFile violations) := by
  rw [checkFiles, checkFile_eq_ok_iff.mpr gives]

theorem checkFiles_of_fails {error : AnalysisError} (fails : a.Fails read path error)
    (paths : List Path) : (a.checkFiles read (path :: paths)).outcome = .error error := by
  rw [checkFiles, fails.checkFile]
  cases fails with
  | unparsed source parser error content chosen failed strict => simp only [strict, if_true]
  | unreadable | malformed | rejected => rfl

theorem checkFiles_of_left_out {cause : ParseError} (lenient : a.failOnParseError = false)
    (failed : a.checkFile read path = .error (.parse path cause)) (paths : List Path) :
    (a.checkFiles read (path :: paths)).outcome = (a.checkFiles read paths).outcome := by
  rw [checkFiles, failed]
  simp only [lenient, Bool.false_eq_true, if_false]

/-- A file that a parser handles fails, gives violations, or neither and does not count. -/
theorem checkFiles_step (handled : (a.parserFor? path).isSome = true) (paths : List Path) :
    (∃ error, a.Fails read path error) ∨ (∃ violations, a.Gives read path violations) ∨
      (∀ error, ¬ a.Fails read path error) ∧ a.parses read path = false ∧
        (a.checkFiles read (path :: paths)).outcome = (a.checkFiles read paths).outcome := by
  cases checked : a.checkFile read path with
  | ok violations => exact Or.inr (Or.inl ⟨violations, checkFile_eq_ok_iff.mp checked⟩)
  | error error =>
      rcases checkFile_eq_error_cases handled checked with fails | ⟨lenient, unparsed, cause, rfl⟩
      · exact Or.inl ⟨error, fails⟩
      · right
        right
        refine ⟨?_, unparsed, checkFiles_of_left_out lenient checked paths⟩
        -- A failure would be the error of the check, which only a strict analyzer takes for one.
        intro other fails
        have same := checked.symm.trans fails.checkFile
        rw [Except.error.injEq] at same
        subst same
        cases fails with
        | unparsed source parser error content chosen failed strict =>
            rw [lenient] at strict
            cases strict

theorem checkFiles_eq_error_iff {files : List Path}
    (handled : ∀ path ∈ files, (a.parserFor? path).isSome = true) {error : AnalysisError} :
    (a.checkFiles read files).outcome = .error error ↔
      ∃ before path after, files = before ++ path :: after ∧
        (∀ other ∈ before, ∀ earlier, ¬ a.Fails read other earlier) ∧ a.Fails read path error := by
  induction files with
  | nil => simp [checkFiles]
  | cons head tail ih =>
      have atTail := ih fun path member => handled path (List.mem_cons_of_mem head member)
      rw [exists_first_cons_iff, ← atTail]
      rcases checkFiles_step (handled head List.mem_cons_self) tail with
        ⟨first, fails⟩ | ⟨violations, gives⟩ | ⟨passes, _, same⟩
      · rw [checkFiles_of_fails fails, Except.error.injEq]
        constructor
        · intro same
          exact Or.inl (same ▸ fails)
        · intro failed
          rcases failed with atHead | ⟨passes, _⟩
          · exact fails.unique atHead
          · exact absurd fails (passes first)
      · rw [checkFiles_of_gives gives, map_eq_error_iff]
        simp [gives.passes]
      · simp [passes, same]

theorem checkFiles_eq_ok_iff {files : List Path}
    (handled : ∀ path ∈ files, (a.parserFor? path).isSome = true) {result : LintResult} :
    (a.checkFiles read files).outcome = .ok result ↔
      (∀ path ∈ files, ∀ error, ¬ a.Fails read path error) ∧
      ∃ rows, List.Forall₂ (a.Gives read) (files.filter (a.parses read)) rows ∧
        result = ⟨rows.flatten, (files.filter (a.parses read)).length⟩ := by
  induction files generalizing result with
  | nil => simp [checkFiles, eq_comm]
  | cons head tail ih =>
      have atTail := fun result => @ih
        (fun path member => handled path (List.mem_cons_of_mem head member)) result
      rw [List.forall_mem_cons]
      -- A head that gives violations adds a row of its own, and one that is left out adds nothing.
      rcases checkFiles_step (handled head List.mem_cons_self) tail with
        ⟨first, fails⟩ | ⟨violations, gives⟩ | ⟨passes, unparsed, same⟩
      · rw [checkFiles_of_fails fails]
        constructor
        · intro impossible
          cases impossible
        · intro passed
          exact absurd fails (passed.1.1 first)
      · rw [checkFiles_of_gives gives, map_eq_ok_iff, List.filter_cons_of_pos gives.parses]
        simp only [atTail]
        constructor
        · intro counted
          obtain ⟨_, ⟨passed, rows, pairs, rfl⟩, rfl⟩ := counted
          exact ⟨⟨gives.passes, passed⟩, violations :: rows, .cons gives pairs, rfl⟩
        · intro counted
          obtain ⟨⟨_, passed⟩, _, pairs, rfl⟩ := counted
          cases pairs with
          | cons first pairs =>
              rw [first.unique gives]
              exact ⟨_, ⟨passed, _, pairs, rfl⟩, rfl⟩
      · rw [same, atTail, List.filter_cons_of_neg (by simp [unparsed])]
        simp [passes]

end Files

section Selection

/-- The files of a walk that are checked: the regular ones that some parser handles and no pattern
leaves out, each before those of a later path. -/
structure Worklist (a : Analyzer) (isFile : Path → Bool) (walked files : List Path) : Prop where
  sorted : files.Pairwise Path.ComesBefore
  mem_iff : ∀ path, path ∈ files ↔ path ∈ walked ∧ isFile path = true ∧
    (∃ parser ∈ a.parsers, parser.handles path = true) ∧
    ∀ exclusion ∈ a.exclusions, exclusion.excludes (path.relativeTo a.root).text = false

theorem parserFor?_isSome_iff :
    (a.parserFor? path).isSome = true ↔ ∃ parser ∈ a.parsers, parser.handles path = true := by
  rw [parserFor?, List.find?_isSome]

theorem excludes_eq_false_iff :
    a.excludes path = false ↔
      ∀ exclusion ∈ a.exclusions, exclusion.excludes (path.relativeTo a.root).text = false := by
  rw [excludes, List.any_eq_false]
  simp only [Bool.not_eq_true]

theorem worklist_select {isFile : Path → Bool} {walked : List Path}
    (distinct : walked.Pairwise fun p q => p.components ≠ q.components) :
    a.Worklist isFile walked (a.select isFile walked) := by
  constructor
  · exact Path.pairwise_sort (distinct.filter _)
  · intro path
    rw [select, Path.sort, List.mem_mergeSort, List.mem_filter, Bool.and_eq_true, Bool.and_eq_true,
      Bool.not_eq_true', parserFor?_isSome_iff, excludes_eq_false_iff, and_assoc]

theorem Worklist.handled {isFile : Path → Bool} {walked files : List Path}
    (worklist : a.Worklist isFile walked files) : ∀ path ∈ files, (a.parserFor? path).isSome = true := by
  intro path member
  rw [parserFor?_isSome_iff]
  exact ((worklist.mem_iff path).mp member).2.2.1

theorem Worklist.unique {isFile : Path → Bool} {walked other first second : List Path}
    (left : a.Worklist isFile walked first) (right : a.Worklist isFile other second)
    (same : other.Perm walked) : first = second := by
  apply Path.eq_of_sorted_of_mem left.sorted right.sorted
  intro path
  rw [left.mem_iff, right.mem_iff, same.mem_iff]

theorem select_eq_of_perm {isFile : Path → Bool} {walked other : List Path}
    (distinct : walked.Pairwise fun p q => p.components ≠ q.components) (same : other.Perm walked) :
    a.select isFile other = a.select isFile walked := by
  have stillDistinct := same.symm.pairwise distinct Ne.symm
  exact ((worklist_select distinct).unique (worklist_select stillDistinct) same).symm

end Selection

section Rules

variable {rules : List Rule}

theorem checkFile_eq_of_enabledRules (same : { a with rules := rules }.enabledRules = a.enabledRules) :
    { a with rules := rules }.checkFile read path = a.checkFile read path := by
  simp only [checkFile, checkSource, applyRules, same]
  rfl

theorem checkFiles_eq_of_enabledRules (same : { a with rules := rules }.enabledRules = a.enabledRules)
    (files : List Path) : { a with rules := rules }.checkFiles read files = a.checkFiles read files := by
  induction files with
  | nil => rfl
  | cons path paths ih => rw [checkFiles, checkFiles, checkFile_eq_of_enabledRules same, ih]

end Rules

theorem analyze_of_walk {walk : Walker} {fs : FileSystem} {walked : List Path}
    (known : walk fs a.config.analyzer.respectGitignore a.root = .ok walked) :
    a.analyze walk fs = a.analyzeWalked fs.disk walked := by
  simp only [analyze, discover, known, Except.mapError, bind, Except.bind]
  rfl

end Analyzer

/-- The files of a walk are checked in the order of their paths. The first that fails ends the analysis
with its error. If none does, the result has the violations of the files that parse, one file after the
other, and counts these files. Two paths are the same if their components are. -/
theorem analysis_follows_worklist (a : Analyzer) (disk : Disk) (walked : List Path)
    (distinct : walked.Pairwise fun p q => p.components ≠ q.components) :
    (∃ files, a.Worklist disk.isFile walked files ∧
      (∀ error, a.analyzeWalked disk walked = .error error ↔
        ∃ before path after, files = before ++ path :: after ∧
          (∀ other ∈ before, ∀ earlier, ¬ a.Fails disk.read other earlier) ∧
          a.Fails disk.read path error) ∧
      ∀ result, a.analyzeWalked disk walked = .ok result ↔
        (∀ path ∈ files, ∀ error, ¬ a.Fails disk.read path error) ∧
        ∃ rows, List.Forall₂ (a.Gives disk.read) (files.filter (a.parses disk.read)) rows ∧
          result = ⟨rows.flatten, (files.filter (a.parses disk.read)).length⟩) ∧
    (∀ path, a.analyzeWalked disk walked ≠ .error (.unsupported path)) ∧
    (∀ rules, { a with rules := rules }.enabledRules = a.enabledRules →
      { a with rules := rules }.analyzeWalked disk walked = a.analyzeWalked disk walked) ∧
    (∀ other, other.Perm walked → a.analyzeWalked disk other = a.analyzeWalked disk walked) ∧
    ∀ (walk : Walker) (fs : FileSystem), fs.disk = disk →
      walk fs a.config.analyzer.respectGitignore a.root = .ok walked →
      a.analyze walk fs = a.analyzeWalked disk walked := by
  have worklist : a.Worklist disk.isFile walked (a.select disk.isFile walked) :=
    Analyzer.worklist_select distinct
  have handled := worklist.handled
  refine ⟨⟨_, worklist, ?_, ?_⟩, ?_, ?_, ?_, ?_⟩
  · intro error
    exact Analyzer.checkFiles_eq_error_iff handled
  · intro result
    exact Analyzer.checkFiles_eq_ok_iff handled
  · intro path unsupported
    obtain ⟨_, _, _, _, _, fails⟩ := (Analyzer.checkFiles_eq_error_iff handled).mp unsupported
    exact fails.not_unsupported
  · intro rules same
    exact congrArg Analysis.outcome (Analyzer.checkFiles_eq_of_enabledRules same _)
  · intro other same
    rw [Analyzer.analyzeWalked, Analyzer.analyzeWalked, Analyzer.select_eq_of_perm distinct same]
  · intro walk fs isDisk known
    rw [← isDisk]
    exact Analyzer.analyze_of_walk known

def wordParser : Parser :=
  ⟨"word", [".ts"], fun source =>
    if source = "" then .error .noTree
    else
      let span : Span := ⟨0, Text.byteLength source.toList⟩
      .ok (((SyntaxTree.ofSource source).push 0 .enumDeclaration span).setName 1 span)⟩

def brokenRule : Rule :=
  ⟨"BR001", "broken", "Refuses every tree", .error, fun _ _ => .error (.noSuchNode 0 0)⟩

def noticeRule : Rule :=
  ⟨"NT001", "notice", "Reports every file", .error, fun file _ =>
    .ok [⟨"NT001", "notice", .error, file.location ⟨0, 1⟩, "A file"⟩]⟩

/-- An analyzer with a rule that is switched off between two others and a pattern that leaves out old
files. -/
def wordAnalyzer (strict : Bool) : Analyzer :=
  ⟨⟨"/work"⟩, [wordParser], [noticeRule, brokenRule, .egret .egret],
    [⟨"old", ⟨[.char 'o', .char 'l', .char 'd']⟩⟩], ⟨.default, [("broken", ⟨some false⟩)]⟩, strict⟩

def wordDisk : Disk where
  isFile path := path != ⟨"/work"⟩
  read path := if path = ⟨"/work/a.ts"⟩ then .ok "" else .ok "Beta"

def wordPaths : List Path :=
  [⟨"/work"⟩, ⟨"/work/a.ts"⟩, ⟨"/work/b.ts"⟩, ⟨"/work/b.txt"⟩, ⟨"/work/c.ts"⟩, ⟨"/work/old.ts"⟩]

def wordViolation (file : String) : Violation :=
  ⟨Rule.egretCode, Rule.egretName, .error, ⟨⟨file⟩, 1, 1, 0, 4⟩, Convention.Tips.egret .enumName⟩

def wordViolations (file : String) : List Violation :=
  [⟨"NT001", "notice", .error, ⟨⟨file⟩, 1, 1, 0, 1⟩, "A file"⟩, wordViolation file]

theorem wordAnalyzer_select (strict : Bool) :
    (wordAnalyzer strict).select wordDisk.isFile wordPaths =
      [⟨"/work/a.ts"⟩, ⟨"/work/b.ts"⟩, ⟨"/work/c.ts"⟩] := by
  have kept : (wordPaths.filter fun path => wordDisk.isFile path &&
      ((wordAnalyzer strict).parserFor? path).isSome && !(wordAnalyzer strict).excludes path) =
      [⟨"/work/a.ts"⟩, ⟨"/work/b.ts"⟩, ⟨"/work/c.ts"⟩] := by
    cases strict <;> decide +kernel
  rw [Analyzer.select, kept]
  exact List.mergeSort_of_pairwise (by decide +kernel)

theorem wordPaths_outcome :
    wordPaths.Pairwise (fun p q => p.components ≠ q.components) ∧
    (∀ other, other.Perm wordPaths →
      (wordAnalyzer false).analyzeWalked wordDisk other =
        .ok ⟨wordViolations "b.ts" ++ wordViolations "c.ts", 2⟩) ∧
    ∃ files, (wordAnalyzer true).Worklist wordDisk.isFile wordPaths files ∧
      ∃ before path after, files = before ++ path :: after ∧
        (∀ other ∈ before, ∀ earlier, ¬ (wordAnalyzer true).Fails wordDisk.read other earlier) ∧
        (wordAnalyzer true).Fails wordDisk.read path (.parse ⟨"/work/a.ts"⟩ .noTree) := by
  have distinct : wordPaths.Pairwise fun p q => p.components ≠ q.components := by decide +kernel
  refine ⟨distinct, ?_, ?_⟩
  · obtain ⟨_, _, _, order, _⟩ :=
      analysis_follows_worklist (wordAnalyzer false) wordDisk wordPaths distinct
    intro other same
    rw [order other same, Analyzer.analyzeWalked, wordAnalyzer_select]
    decide +kernel
  · obtain ⟨⟨files, worklist, errors, _⟩, _⟩ :=
      analysis_follows_worklist (wordAnalyzer true) wordDisk wordPaths distinct
    refine ⟨files, worklist, (errors _).mp ?_⟩
    rw [Analyzer.analyzeWalked, wordAnalyzer_select]
    decide +kernel

end NamingLint
