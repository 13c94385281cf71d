import NamingLint.Json.Printer
import NamingLint.Json.Reader
import NamingLint.Report

/-! Results as JSON.

A result and its parts are records: objects with fields of given names. -/

namespace NamingLint

open Json

namespace LintResult

def severityToJson (severity : Severity) : Value := .ofText severity.word

def locationToJson (l : Location) : Value :=
  .ofMembers [("file", .ofText l.file.text), ("line", .ofNat l.line), ("column", .ofNat l.column),
    ("offset", .ofNat l.offset), ("length", .ofNat l.length)]

def violationToJson (v : Violation) : Value :=
  .ofMembers [("code", .ofText v.code), ("rule", .ofText v.rule),
    ("severity", severityToJson v.severity), ("location", locationToJson v.location),
    ("message", .ofText v.message)]

def toJson (result : LintResult) : Value :=
  .ofMembers [("violations", .array (result.violations.map violationToJson)),
    ("files_checked", .ofNat result.filesChecked)]

/-- A severity is its word, or an object whose only member is that word with a null. -/
def severity? : Value → Option Severity
  | .string (some "error") => some .error
  | .object [(some "error", .null)] => some .error
  | _ => none

def location? (value : Value) : Option Location := do
  match ← value.record? ["file", "line", "column", "offset", "length"] with
  | [file, line, column, offset, length] =>
    return ⟨⟨← file.text?⟩, ← line.word64?, ← column.word64?, ← offset.word64?,
      ← length.word64?⟩
  | _ => none

def violation? (value : Value) : Option Violation := do
  match ← value.record? ["code", "rule", "severity", "location", "message"] with
  | [code, rule, severity, location, message] =>
    return ⟨← code.text?, ← rule.text?, ← severity? severity, ← location? location, ← message.text?⟩
  | _ => none

def ofJson? (value : Value) : Option LintResult := do
  match ← value.record? ["violations", "files_checked"] with
  | [violations, filesChecked] =>
    return ⟨← (← violations.list?).mapM violation?, ← filesChecked.word64?⟩
  | _ => none

def parse? (text : String) : Option LintResult := (Json.parse? text).bind ofJson?

def pretty (result : LintResult) : String := result.toJson.pretty

end LintResult

end NamingLint
