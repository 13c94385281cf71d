import NamingLint.Text.Bytes
import NamingLint.Text.Layout
import NamingLint.Toml.Float

/-! TOML values, each with the place that it was written at, and what can be wrong with a document. -/

namespace NamingLint.Toml

structure Key where
  name : String
  span : Span
  deriving DecidableEq, Repr

/-- The parts of a table stand in the order in which they were written. A table that only its parts
mention has no place of its own. -/
inductive Value where
  | string (text : String)
  | integer (value : Int)
  | float (value : Float64)
  | boolean (value : Bool)
  | datetime (text : String)
  | array (items : List (Option Span × Value))
  | table (entries : List (Key × Option Span × Value))

abbrev Located := Option Span × Value

abbrev Entry := Key × Located

abbrev Reader := String → Option (List Entry)

def Value.describe : Value → String
  | .string text => "string " ++ Text.quote text
  | .integer value => "integer `" ++ toString value ++ "`"
  | .float value => "floating point `" ++ value.render ++ "`"
  | .boolean value => "boolean `" ++ toString value ++ "`"
  | .array _ => "sequence"
  | .datetime _ | .table _ => "map"

inductive Error where
  /-- The text is no document. -/
  | malformed
  | unknownField (span : Span) (field expected : String)
  | invalidType (span : Span) (found : Value) (expected : String)

namespace Error

/-- The line that holds a byte of a text, its number from zero, and the characters before that
byte. -/
structure Spot where
  line : Nat
  column : Nat
  content : List Char
  deriving DecidableEq, Repr

def spotIn (line : Nat) : Nat → List (List Char) → Spot
  | _, [] => ⟨line, 0, []⟩
  | offset, content :: lines =>
    if offset ≤ Text.byteLength content then
      ⟨line, ((Text.takeBytes? offset content).getD []).length, content⟩
    else spotIn (line + 1) (offset - Text.byteLength content - 1) lines

def spot (source : String) (offset : Nat) : Spot := spotIn 0 offset (source.toList.splitOn '\n')

/-- As many carets as the span has bytes, at least one and at most as many as its first line has. -/
def carets (span : Span) (content : List Char) : String :=
  String.ofList (List.replicate (max 1 (min span.width (Text.byteLength content))) '^')

def frame (source : String) (span : Span) (message : String) : String :=
  let at_ := spot source span.offset
  let number := toString (at_.line + 1)
  let gutter := Text.blanks (number.length + 1) ++ "|"
  "TOML parse error at line " ++ number ++ ", column " ++ toString (at_.column + 1) ++ "\n"
    ++ gutter ++ "\n"
    ++ number ++ " | " ++ String.ofList at_.content ++ "\n"
    ++ gutter ++ Text.blanks (at_.column + 1) ++ carets span at_.content ++ "\n"
    ++ message ++ "\n"

def render (source : String) : Error → String
  | malformed => "TOML parse error"
  | unknownField span field expected =>
    frame source span ("unknown field `" ++ field ++ "`, expected `" ++ expected ++ "`")
  | invalidType span found expected =>
    frame source span ("invalid type: " ++ found.describe ++ ", expected " ++ expected)

end Error

end NamingLint.Toml
