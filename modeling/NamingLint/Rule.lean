import NamingLint.Convention.Rule
import NamingLint.Report

/-! Rules: named checks of a syntax tree that report violations. -/

namespace NamingLint

structure Rule where
  code : String
  name : String
  description : String
  severity : Severity
  check : SourceFile → SyntaxTree → Except Syntax.TreeError (List Violation)

namespace Rule

def egretCode : String := "EG001"

def egretName : String := "ts-egret"

def egretViolation (file : SourceFile) (finding : Convention.Finding) : Violation :=
  ⟨egretCode, egretName, .error, file.location finding.span, finding.message⟩

def egret (tips : Convention.Tips) : Rule where
  code := egretCode
  name := egretName
  description := "Enforces the Egret TypeScript naming convention"
  severity := .error
  check file tree := return (← Convention.check tips tree).map (egretViolation file)

def all : List Rule := [egret Convention.Tips.egret]

end Rule

end NamingLint
