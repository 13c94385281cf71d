import NamingLint.Json.Reader
import NamingLint.Toml.Scan

/-! White space, comments and strings of a TOML document. -/

namespace NamingLint.Toml

open Scan

def isBlank (c : Char) : Bool := c == ' ' || c == '\t'

/-- Characters that comments and strings may hold as they are: tabs, and all that are no control
characters. -/
def isPlain (c : Char) : Bool := c == '\t' || (decide (0x20 ≤ c.toNat) && decide (c.toNat ≠ 0x7F))

def blanks : Scan Unit := do discard (takeWhile isBlank)

def newline : Scan Unit := char '\n' <|> literal ['\r', '\n']

def comment : Scan Unit := do
  char '#'
  discard (takeWhile isPlain)

def lineEnd : Scan Unit := do
  blanks
  discard (maybe comment)
  newline <|> atEnd

def gap : Scan Unit := do
  discard (many (do blanks; discard (maybe comment); newline) (← fuel))
  blanks

def hexValue? (digits : List Char) : Option Nat :=
  digits.foldlM (fun n c => (Json.hexValue? c).map (16 * n + ·)) 0

def scalar? (n : Nat) : Option Char := if n.isValidChar then some (Char.ofNat n) else none

def codePoint (count : Nat) : Scan Char :=
  ofList fun cs =>
    if cs.length < count then none
    else do
      let c ← (hexValue? (cs.take count)).bind scalar?
      return (c, cs.drop count)

def escape : Scan Char := do
  match ← peek? with
  | some 'b' => char 'b'; return '\x08'
  | some 't' => char 't'; return '\t'
  | some 'n' => char 'n'; return '\n'
  | some 'f' => char 'f'; return '\x0c'
  | some 'r' => char 'r'; return '\r'
  | some '"' => char '"'; return '"'
  | some '\\' => char '\\'; return '\\'
  | some 'u' => char 'u'; codePoint 4
  | some 'U' => char 'U'; codePoint 8
  | _ => failure

def plainChar (test : Char → Bool) : Scan Char :=
  ofList fun
    | c :: cs => if isPlain c && test c then some (c, cs) else none
    | [] => none

def basicChar : Scan Char :=
  (do char '\\'; escape) <|> plainChar fun c => c != '"' && c != '\\'

def basicString : Scan (List Char) := do
  char '"'
  let text ← many basicChar (← fuel)
  char '"'
  return text

def literalString : Scan (List Char) := do
  char '\x27'
  let text ← many (plainChar (· != '\x27')) (← fuel)
  char '\x27'
  return text

/-- A backslash at the end of a line, with all the white space behind it. -/
def lineJoin : Scan (List Char) := do
  char '\\'
  blanks
  newline
  discard (many (newline <|> do discard (plainChar isBlank)) (← fuel))
  return []

def innerQuotes (quote : Char) : Scan (List Char) :=
  ofList fun cs =>
    let run := cs.takeWhile (· == quote)
    if run.length = 1 ∨ run.length = 2 then some (run, cs.drop run.length) else none

/-- The quotes that end a string of several lines: three, with up to two more before them that
belong to the string. -/
def closingQuotes (quote : Char) : Scan (List Char) :=
  ofList fun cs =>
    let run := (cs.takeWhile (· == quote)).take 5
    if 3 ≤ run.length then some (run.drop 3, cs.drop run.length) else none

/-- A string of several lines made of the given pieces. A line end right behind the opening quotes
does not count. -/
def multiline (quote : Char) (piece : Scan (List Char)) : Scan (List Char) := do
  literal [quote, quote, quote]
  discard (maybe newline)
  let pieces ← many (piece <|> (do newline; return ['\n']) <|> innerQuotes quote) (← fuel)
  return pieces.flatten ++ (← closingQuotes quote)

def multilineBasic : Scan (List Char) :=
  multiline '"' (lineJoin <|> do return [← basicChar])

def multilineLiteral : Scan (List Char) :=
  multiline '\x27' do return [← plainChar (· != '\x27')]

def stringValue : Scan String := do
  match (← rest).take 3 with
  -- Three quotes are never an empty string and the start of another one.
  | ['"', '"', '"'] => return String.ofList (← multilineBasic)
  | ['\x27', '\x27', '\x27'] => return String.ofList (← multilineLiteral)
  | '"' :: _ => return String.ofList (← basicString)
  | _ => return String.ofList (← literalString)

end NamingLint.Toml
