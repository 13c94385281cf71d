import NamingLint.Path
import NamingLint.Toml.Value

/-! The configuration of a run, read from a TOML document. -/

namespace NamingLint

structure RuleConfig where
  enabled : Option Bool
  deriving DecidableEq, Repr

structure AnalyzerConfig where
  root : Path
  exclude : List String
  respectGitignore : Bool
  deriving DecidableEq, Repr

structure Config where
  analyzer : AnalyzerConfig
  rules : List (String × RuleConfig)
  deriving DecidableEq, Repr

namespace AnalyzerConfig

def default : AnalyzerConfig where
  root := ⟨"."⟩
  exclude := ["**/node_modules/**", "**/bin-debug/**"]
  respectGitignore := true

end AnalyzerConfig

namespace Config

open Toml (Value Key Located Entry Error)

def default : Config := ⟨.default, []⟩

def isRuleEnabled (config : Config) (name : String) : Bool :=
  match config.rules.lookup name with
  | some rule => rule.enabled.getD true
  | none => true

/-! Each reader takes the place to report, which is that of the value or else that of its key. -/

def place (item : Located) (key : Key) : Span := item.1.getD key.span

def readBool (span : Span) : Value → Except Error Bool
  | .boolean b => .ok b
  | found => .error (.invalidType span found "a boolean")

def readText (span : Span) : Value → Except Error String
  | .string text => .ok text
  | found => .error (.invalidType span found "a string")

def readPath (span : Span) : Value → Except Error Path
  | .string text => .ok ⟨text⟩
  | found => .error (.invalidType span found "path string")

def readTexts (span : Span) : Value → Except Error (List String)
  | .array items => items.mapM fun item => readText (item.1.getD span) item.2
  | found => .error (.invalidType span found "a sequence")

def datetimeKey : String := "$__toml_private_datetime"

def readRuleEntry (rule : RuleConfig) (entry : Entry) : Except Error RuleConfig :=
  if entry.1.name = "enabled" then do
    return { rule with enabled := some (← readBool (place entry.2 entry.1) entry.2.2) }
  else .error (.unknownField entry.1.span entry.1.name "enabled")

/-- A rule is a table, or an array whose first item says whether it is on. -/
def readRule (span : Span) : Value → Except Error RuleConfig
  | .table entries => entries.foldlM readRuleEntry ⟨none⟩
  | .array [] => .ok ⟨none⟩
  | .array (item :: _) => do return ⟨some (← readBool (item.1.getD span) item.2)⟩
  | .datetime _ => .error (.unknownField span datetimeKey "enabled")
  | found => .error (.invalidType span found "struct RuleConfig")

def readRules (span : Span) : Value → Except Error (List (String × RuleConfig))
  | .table entries => entries.mapM fun entry => do
    return (entry.1.name, ← readRule (place entry.2 entry.1) entry.2.2)
  | .datetime text => do return [(datetimeKey, ← readRule span (.string text))]
  | found => .error (.invalidType span found "a map")

def readAnalyzerEntry (config : AnalyzerConfig) (entry : Entry) : Except Error AnalyzerConfig :=
  let span := place entry.2 entry.1
  match entry.1.name with
  | "root" => do return { config with root := ← readPath span entry.2.2 }
  | "exclude" => do return { config with exclude := ← readTexts span entry.2.2 }
  | "respect_gitignore" => do return { config with respectGitignore := ← readBool span entry.2.2 }
  | _ => .ok config

def analyzerFields : List String := ["root", "exclude", "respect_gitignore"]

/-- The analyzer's settings are a table, or an array of their values in order. -/
def readAnalyzer (span : Span) : Value → Except Error AnalyzerConfig
  | .table entries => entries.foldlM readAnalyzerEntry .default
  | .array items =>
    (analyzerFields.zip items).foldlM
      (fun config (name, item) => readAnalyzerEntry config (⟨name, span⟩, item)) .default
  | .datetime _ => .ok .default
  | found => .error (.invalidType span found "struct AnalyzerConfig")

def readEntry (config : Config) (entry : Entry) : Except Error Config :=
  let span := place entry.2 entry.1
  match entry.1.name with
  | "analyzer" => do return { config with analyzer := ← readAnalyzer span entry.2.2 }
  | "rules" => do return { config with rules := ← readRules span entry.2.2 }
  -- Names that mean nothing may have any value.
  | _ => .ok config

def ofToml (entries : List Entry) : Except Error Config := entries.foldlM readEntry default

def parse (reader : Toml.Reader) (text : String) : Except Error Config :=
  match reader text with
  | some entries => ofToml entries
  | none => .error .malformed

end Config

end NamingLint
