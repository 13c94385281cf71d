import NamingLint.Config
import NamingLint.Exclusion
import NamingLint.FileSystem
import NamingLint.Parser
import NamingLint.Rule
import NamingLint.Syntax.Validity

/-! Analyses: which files are checked, by which parser and rules, and what comes of it. -/

namespace NamingLint

inductive AnalysisError where
  | io (error : IoError)
  | walk (path : Path) (error : IoError)
  | parse (path : Path) (error : ParseError)
  | tree (path : Path) (error : Syntax.TreeError)
  | unsupported (path : Path)
  | glob (error : Glob.Error)
  deriving DecidableEq, Repr

namespace AnalysisError

def walkMessage (path : Path) (error : IoError) : String :=
  path.text ++ ": IO error for operation on " ++ path.text ++ ": " ++ error.message

def message : AnalysisError → String
  | io error => "IO error: " ++ error.message
  | walk path error => "Failed to walk directory: " ++ walkMessage path error
  | parse path error => "Parse error in " ++ path.text ++ ": " ++ error.message
  | tree path error => "Malformed syntax tree for " ++ path.text ++ ": " ++ error.message
  | unsupported path => "No parser registered for " ++ path.text
  | glob error => "Invalid glob pattern: " ++ error.message

def cause? : AnalysisError → Option String
  | io error => some error.message
  | walk path error => some (walkMessage path error)
  | tree _ error => some error.message
  | glob error => some error.message
  | parse .. | unsupported _ => none

end AnalysisError

structure Analyzer where
  root : Path
  parsers : List Parser
  rules : List Rule
  exclusions : List Exclusion
  config : Config
  failOnParseError : Bool

structure Disk where
  isFile : Path → Bool
  read : Path → Except IoError String

def FileSystem.disk (fs : FileSystem) : Disk := ⟨fs.isFile, fs.readText⟩

/-- A walker lists what is below a root, folders included. The flag says whether the ignore files of git
count. -/
abbrev Walker := FileSystem → Bool → Path → Except IoError (List Path)

structure Skipped where
  path : Path
  error : ParseError
  deriving DecidableEq, Repr

structure Analysis where
  /-- The files that do not parse, up to the end of the analysis. -/
  skipped : List Skipped
  outcome : Except AnalysisError LintResult

namespace Analyzer

structure Setup where
  root : Option Path
  parsers : List Parser
  rules : List Rule
  excludes : List String
  config : Config
  failOnParseError : Bool

/-- Builds an analyzer for a working directory. The given patterns come before the configured ones, and
the first that is no pattern is the error. -/
def Setup.build (setup : Setup) (workingDirectory : Path) : Except AnalysisError Analyzer := do
  let exclusions ← ((setup.excludes ++ setup.config.analyzer.exclude).mapM Exclusion.parse).mapError .glob
  return {
    root := workingDirectory.join (setup.root.getD setup.config.analyzer.root)
    parsers := setup.parsers
    rules := setup.rules
    exclusions := exclusions
    config := setup.config
    failOnParseError := setup.failOnParseError }

def parserFor? (a : Analyzer) (path : Path) : Option Parser :=
  a.parsers.find? fun parser => parser.handles path

def enabledRules (a : Analyzer) : List Rule :=
  a.rules.filter fun rule => a.config.isRuleEnabled rule.name

def applyRules (a : Analyzer) (file : SourceFile) (tree : SyntaxTree) :
    Except Syntax.TreeError (List Violation) := do
  return (← a.enabledRules.mapM fun rule => rule.check file tree).flatten

def checkSource (a : Analyzer) (path : Path) (source : String) :
    Except AnalysisError (List Violation) :=
  match a.parserFor? path with
  | none => .error (.unsupported path)
  | some parser => do
    let tree ← (parser.parse source).mapError (.parse path)
    tree.validate.mapError (.tree path)
    (a.applyRules (.ofPath path source a.root) tree).mapError (.tree path)

def checkFile (a : Analyzer) (read : Path → Except IoError String) (path : Path) :
    Except AnalysisError (List Violation) := do
  a.checkSource path (← (read path).mapError .io)

/-- Checks files in the given order. A file that does not parse is left out, or is an error if the
analyzer says so; any other error ends the analysis. -/
def checkFiles (a : Analyzer) (read : Path → Except IoError String) : List Path → Analysis
  | [] => ⟨[], .ok ⟨[], 0⟩⟩
  | path :: paths =>
    match a.checkFile read path with
    | .ok violations =>
      let rest := a.checkFiles read paths
      { rest with outcome := rest.outcome.map (.addFile violations) }
    | .error (.parse path error) =>
      if a.failOnParseError then ⟨[⟨path, error⟩], .error (.parse path error)⟩
      else
        let rest := a.checkFiles read paths
        { rest with skipped := ⟨path, error⟩ :: rest.skipped }
    | .error error => ⟨[], .error error⟩

def excludes (a : Analyzer) (path : Path) : Bool :=
  a.exclusions.any fun exclusion => exclusion.excludes (path.relativeTo a.root).text

def select (a : Analyzer) (isFile : Path → Bool) (walked : List Path) : List Path :=
  Path.sort (walked.filter fun path =>
    isFile path && (a.parserFor? path).isSome && !a.excludes path)

def analyzeWalked (a : Analyzer) (disk : Disk) (walked : List Path) : Except AnalysisError LintResult :=
  (a.checkFiles disk.read (a.select disk.isFile walked)).outcome

def discover (a : Analyzer) (walk : Walker) (fs : FileSystem) : Except AnalysisError (List Path) := do
  let walked ← (walk fs a.config.analyzer.respectGitignore a.root).mapError (.walk a.root)
  return a.select fs.isFile walked

def analyze (a : Analyzer) (walk : Walker) (fs : FileSystem) : Except AnalysisError LintResult := do
  (a.checkFiles fs.readText (← a.discover walk fs)).outcome

end Analyzer

end NamingLint
