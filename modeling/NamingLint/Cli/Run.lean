import NamingLint.Analyzer
import NamingLint.Cli.Output
import NamingLint.Cli.Settings
import NamingLint.Discovery
import NamingLint.Text.Layout
import NamingLint.Toml.Document

/-! What a command line does to a file system, and what it prints. -/

namespace NamingLint.Cli

inductive Log where
  | info (text : String)
  | warning (text : String)
  deriving DecidableEq, Repr

def Log.line : Log → String
  | info text => "INFO " ++ text
  | warning text => "WARN " ++ text

structure Outcome where
  exitCode : Nat
  output : String
  failure : Option Failure
  logs : List Log
  files : FileSystem

namespace Outcome

def success (files : FileSystem) (output : String) : Outcome := ⟨0, output, none, [], files⟩

def failed (files : FileSystem) (logs : List Log) (failure : Failure) : Outcome :=
  ⟨1, "", some failure, logs, files⟩

end Outcome

/-- What a run leaves to others: how a configuration is read, folders are walked, files are parsed and
violations are shown in their sources. -/
structure Tools where
  readToml : Toml.Reader
  walk : Walker
  parsers : List Parser
  renderer : Snippet.Renderer

def Tools.standard (parsers : List Parser) : Tools := ⟨Toml.parse?, Discovery.walk, parsers, Snippet.frame⟩

def analysisFailure (doing : String) (error : AnalysisError) : Failure :=
  ⟨doing, error.message :: error.cause?.toList⟩

def skippedLog (skipped : Skipped) : Log :=
  .warning ("Failed to parse " ++ skipped.path.text ++ ": " ++ skipped.error.message)

def renderFailure : Failure := ⟨"an error occurred when formatting an argument", []⟩

def report (tools : Tools) (fs : FileSystem) (logs : List Log) (format : Format) (analyzer : Analyzer) :
    Outcome :=
  let root := analyzer.root.text
  let logs := logs ++
    [.info ("Analyzing " ++ root ++ " with " ++ toString analyzer.rules.length ++ " rules"),
      .info ("Starting analysis at " ++ Text.quotePath root)]
  match analyzer.discover tools.walk fs with
  | .error error => .failed fs logs (analysisFailure "Analysis failed" error)
  | .ok files =>
    let analysis := analyzer.checkFiles fs.readText files
    let logs := logs ++ .info ("Found " ++ toString files.length ++ " files to analyze")
      :: analysis.skipped.map skippedLog
    match analysis.outcome with
    | .error error => .failed fs logs (analysisFailure "Analysis failed" error)
    | .ok result =>
      let done := Log.info ("Analysis complete: " ++ toString result.violations.length
        ++ " violations in " ++ toString result.filesChecked ++ " files")
      let read (file : Path) : Option String := (fs.readText (analyzer.root.join file)).toOption
      match render tools.renderer format read result with
      | none => .failed fs (logs ++ [done]) renderFailure
      | some output => ⟨if result.hasErrors then 1 else 0, output, none, logs ++ [done], fs⟩

def configLogs : ConfigSource → List Log
  | .global path => [.info ("Using global config: " ++ path.text)]
  | _ => []

def check (env : Environment) (tools : Tools) (fs : FileSystem) (config path : Option Path)
    (format : Format) (excludes : List String) : Outcome :=
  let source := ConfigSource.find env fs (path.getD ⟨"."⟩) config
  let logs := configLogs source
  match source.load env tools.readToml fs with
  | .error failure => .failed fs logs failure
  | .ok config =>
    let setup : Analyzer.Setup := ⟨path, tools.parsers, Rule.all, excludes, config, false⟩
    match setup.build env.workingDirectory with
    | .error error => .failed fs logs (analysisFailure "Failed to build analyzer" error)
    | .ok analyzer => report tools fs logs format analyzer

def ruleRow (code name description : String) : String :=
  Text.alignLeft 8 code ++ " " ++ Text.alignLeft 12 name ++ " " ++ description ++ "\n"

def tipRow (tip : Convention.Tip) : String :=
  "  " ++ Text.alignLeft 15 tip.key ++ " " ++ Convention.Tips.egret tip ++ "\n"

def ruleList : String :=
  "Available rules:\n\n" ++ ruleRow "Code" "Name" "Description"
    ++ String.ofList (List.replicate 72 '-') ++ "\n"
    ++ String.join (Rule.all.map fun rule => ruleRow rule.code rule.name rule.description)
    ++ "\nChecks (ts-egret):\n" ++ String.join (Convention.Tip.all.map tipRow)
    ++ "\nDisable a rule in egret-lint.toml:\n  [rules.ts-egret]\n  enabled = false\n"

def starterConfig : String :=
"# egret-lint configuration

[analyzer]
# Root directory to analyze (default: current directory)
# root = \"./src\"

# Glob patterns to exclude from analysis
exclude = [
    \"**/node_modules/**\",
    \"**/bin-debug/**\",
    \"**/bin-release/**\",
    \"**/libs/**\",
]

# Respect .gitignore files
respect_gitignore = true

# Rules take no options; they can only be switched off.
[rules.ts-egret]
enabled = true
"

/-- Writes the configuration that a project starts from. Only by force does it take the place of
another. -/
def init (env : Environment) (fs : FileSystem) (force : Bool) : Outcome :=
  let path := env.locate ⟨projectConfig⟩
  if fs.contains path && !force then
    .failed fs [] ⟨"Configuration file already exists at " ++ projectConfig
      ++ ". Use --force to overwrite.", []⟩
  else
    match fs.writeText path starterConfig with
    | .error error => .failed fs [] ⟨"Failed to write " ++ projectConfig, [error.message]⟩
    | .ok fs =>
      .success fs ("Created " ++ projectConfig ++ "\n\nNext steps:\n  1. Edit " ++ projectConfig
        ++ " to adjust excludes\n  2. Run: egret-lint check\n")

def helpText : String :=
"Naming-convention linter for Egret TypeScript projects

Usage: egret-lint [OPTIONS] <COMMAND>

Commands:
  check       Run lint checks
  list-rules  List available rules
  init        Initialize configuration file
  help        Print this message or the help of the given subcommand(s)

Options:
  -v, --verbose          Enable verbose output
  -c, --config <CONFIG>  Path to configuration file
  -h, --help             Print help
  -V, --version          Print version
"

def versionText : String := "egret-lint 0.1.0\n"

def refuse (fs : FileSystem) : Refusal → Outcome
  | .help => .success fs helpText
  | .version => .success fs versionText
  | .usage => ⟨2, "", none, [], fs⟩

def run (env : Environment) (tools : Tools) (fs : FileSystem) (arguments : List String) : Outcome :=
  match parse arguments with
  | .error refusal => refuse fs refusal
  | .ok invocation =>
    match invocation.command with
    | .check path format excludes =>
      check env tools fs (invocation.config.map Path.mk) (path.map Path.mk) format excludes
    | .listRules => .success fs ruleList
    | .init force => init env fs force

end NamingLint.Cli
