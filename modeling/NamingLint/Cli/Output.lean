import NamingLint.Cli.Arguments
import NamingLint.Report.Json
import NamingLint.Snippet.Frame

/-! Results of a run as they are printed. -/

namespace NamingLint.Cli

open Snippet (Diagnostic Renderer)

def diagnostic (v : Violation) (source : String) : Diagnostic :=
  ⟨v.location.file.text, source, v.heading, v.rule, ⟨v.location.offset, v.location.length⟩⟩

def renderOne (renderer : Renderer) (v : Violation) (source : Option String) : Option String :=
  match source with
  | some text => (renderer (diagnostic v text)).map (· ++ "\n")
  | none => some (v.report ++ "\n")

abbrev Cache := Option (Path × String)

/-- The cache after a file is asked for. Only another file is read, and a file that cannot be read
leaves nothing behind. -/
def Cache.fetch (read : Path → Option String) (cache : Cache) (file : Path) : Cache :=
  match cache with
  | some (known, text) =>
    if known.components = file.components then some (known, text)
    else (read file).map fun text => (file, text)
  | none => (read file).map fun text => (file, text)

/-- Violations one after the other, where each source is read once for a run of violations. The first
that cannot be shown stops them all. -/
def renderAll (renderer : Renderer) (read : Path → Option String) :
    Cache → List Violation → Option String
  | _, [] => some ""
  | cache, v :: vs => do
    let cache := cache.fetch read v.location.file
    let shown ← renderOne renderer v (cache.map Prod.snd)
    return shown ++ (← renderAll renderer read cache vs)

def renderText (renderer : Renderer) (read : Path → Option String) (result : LintResult) :
    Option String :=
  renderAll renderer read none result.violations

def summaryLine (result : LintResult) : String :=
  let color := if 0 < result.errorCount then "\x1b[31m" else "\x1b[32m"
  color ++ "Found " ++ toString result.errorCount ++ " error(s) in " ++ toString result.filesChecked
    ++ " file(s)\x1b[0m"

def renderCompact (result : LintResult) : String :=
  String.join (result.violations.map fun v => v.summary ++ "\n")

def render (renderer : Renderer) (format : Format) (read : Path → Option String) (result : LintResult) :
    Option String :=
  match format with
  | .text => (renderText renderer read result).map (· ++ summaryLine result ++ "\n")
  | .json => some (result.pretty ++ "\n")
  | .compact => some (renderCompact result)

end NamingLint.Cli
