import NamingLint.Path
import NamingLint.Text.Bytes
import NamingLint.Text.Position

/-! Violations and the result of a run. -/

namespace NamingLint

inductive Severity where
  | error
  deriving DecidableEq, Repr

def Severity.word : Severity → String
  | error => "error"

structure Location where
  file : Path
  line : Nat
  column : Nat
  offset : Nat
  length : Nat
  deriving DecidableEq, Repr

structure Violation where
  code : String
  rule : String
  severity : Severity
  location : Location
  message : String
  deriving DecidableEq, Repr

namespace Violation

def place (v : Violation) : String :=
  v.location.file.text ++ ":" ++ toString v.location.line ++ ":" ++ toString v.location.column

def report (v : Violation) : String :=
  v.code ++ " " ++ v.rule ++ " at " ++ v.place ++ "\n  " ++ v.severity.word ++ ": " ++ v.message ++ "\n"

def summary (v : Violation) : String :=
  v.place ++ ": " ++ v.severity.word ++ " [" ++ v.code ++ "] " ++ v.message

def heading (v : Violation) : String := "[" ++ v.code ++ "] " ++ v.message

end Violation

structure LintResult where
  violations : List Violation
  filesChecked : Nat
  deriving DecidableEq, Repr

namespace LintResult

def isError (v : Violation) : Bool := v.severity == .error

def errorCount (result : LintResult) : Nat := result.violations.countP isError

def hasErrors (result : LintResult) : Bool := result.violations.any isError

def addFile (violations : List Violation) (result : LintResult) : LintResult :=
  ⟨violations ++ result.violations, result.filesChecked + 1⟩

end LintResult

/-- A source file as rules see it: its text and its path below the analysed root. -/
structure SourceFile where
  path : Path
  content : String
  relativePath : Path
  deriving DecidableEq, Repr

namespace SourceFile

def ofPath (path : Path) (content : String) (root : Path) : SourceFile :=
  ⟨path, content, path.relativeTo root⟩

def location (file : SourceFile) (span : Span) : Location :=
  let position := Text.Position.ofOffset span.offset file.content.toList
  ⟨file.relativePath, position.line, position.column, span.offset, span.width⟩

end SourceFile

end NamingLint
