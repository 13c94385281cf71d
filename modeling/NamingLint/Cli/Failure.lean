import NamingLint.Text.Layout

/-! Failures of a run: what went wrong, and what lies behind it. -/

namespace NamingLint.Cli

structure Failure where
  message : String
  causes : List String
  deriving DecidableEq, Repr

def indent (first other text : String) : String :=
  match text.toList.splitOn '\n' with
  | [] => first
  | line :: lines =>
    first ++ String.ofList line ++ String.join (lines.map fun l => "\n" ++ other ++ String.ofList l)

def numberedCauses (number : Nat) : List String → List String
  | [] => []
  | cause :: causes =>
    indent (Text.alignRight 5 (toString number) ++ ": ") (Text.blanks 7) cause
      :: numberedCauses (number + 1) causes

/-- Causes are numbered if there are several. -/
def causeTexts : List String → List String
  | [cause] => [indent (Text.blanks 4) (Text.blanks 4) cause]
  | causes => numberedCauses 0 causes

def Failure.report (failure : Failure) : String :=
  let behind :=
    if failure.causes.isEmpty then ""
    else "\n\nCaused by:" ++ String.join ((causeTexts failure.causes).map ("\n" ++ ·))
  "Error: " ++ failure.message ++ behind

end NamingLint.Cli
