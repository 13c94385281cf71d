import NamingLint.Toml.Draft
import NamingLint.Toml.Number
import NamingLint.Toml.Text

/-! TOML documents: lines of assignments under table headers. -/

namespace NamingLint.Toml

open Scan

/-- Arrays and inline tables nest at most this deep, and a key has at most as many parts. -/
def nestingLimit : Nat := 79

def isBareKeyChar (c : Char) : Bool := c.isAlphanum || c == '-' || c == '_'

def bareKey : Scan (List Char) := do
  match ← takeWhile isBareKeyChar with
  | [] => failure
  | name => return name

def simpleKey : Scan Key := do
  let (span, name) ← located do
    match ← peek? with
    | some '"' => basicString
    | some '\x27' => literalString
    | _ => bareKey
  return ⟨String.ofList name, span⟩

def dottedKey : Scan (List Key) := do
  let parts ← separated '.' do
    blanks
    let part ← simpleKey
    blanks
    return part
  if nestingLimit < parts.length then failure else return parts

def splitKey (parts : List Key) : Scan (List Key × Key) :=
  match parts.getLast? with
  | some key => return (parts.dropLast, key)
  | none => failure

def assignment (value : Scan (Span × Value)) : Scan Draft.Assignment := do
  let (path, key) ← splitKey (← dottedKey)
  char '='
  blanks
  let (span, value) ← value
  return ⟨path, key, span, value⟩

def item (value : Scan (Span × Value)) : Scan (Option Span × Value) := do
  gap
  let (span, value) ← value
  gap
  return (some span, value)

def array (value : Scan (Span × Value)) : Scan Value := do
  char '['
  let items ← maybe (separated ',' (item value))
  if items.isSome then discard (maybe (char ','))
  gap
  char ']'
  return .array (items.getD [])

def inlineTable (value : Scan (Span × Value)) : Scan Value := do
  char '\x7b'
  let assignments ← maybe (separated ',' (do
    let a ← assignment value
    blanks
    return a))
  blanks
  char '\x7d'
  match Draft.assignAll .outer [] (assignments.getD []) with
  | some entries => return .table (Draft.finishEntries entries)
  | none => failure

def word (text : String) (value : Value) : Scan Value := do
  literal text.toList
  return value

def scalar : Scan Value := do
  match ← peek? with
  | some '"' | some '\x27' => return .string (← stringValue)
  | some 't' => word "true" (.boolean true)
  | some 'f' => word "false" (.boolean false)
  | _ => numeral

def value : Nat → Scan (Span × Value)
  | 0 => located scalar
  | levels + 1 => located do
    match ← peek? with
    | some '[' => array (value levels)
    | some '\x7b' => inlineTable (value levels)
    | _ => scalar

inductive Statement where
  | nothing
  | assign (assignment : Draft.Assignment)
  | table (span : Span) (path : List Key) (key : Key)
  | tableItem (span : Span) (path : List Key) (key : Key)

def header (opening closing : List Char) : Scan (Span × List Key) := do
  let found ← located do
    literal opening
    let parts ← dottedKey
    literal closing
    return parts
  lineEnd
  return found

def tableHeader : Scan Statement := do
  let (span, parts) ← header ['['] [']']
  let (path, key) ← splitKey parts
  return .table span path key

def tableItemHeader : Scan Statement := do
  let (span, parts) ← header ['[', '['] [']', ']']
  let (path, key) ← splitKey parts
  return .tableItem span path key

def statement : Scan Statement := do
  match (← rest).take 2 with
  | '#' :: _ => do
    comment
    newline <|> atEnd
    return .nothing
  | ['[', '['] => tableItemHeader
  | '[' :: _ => tableHeader
  | '\n' :: _ | '\r' :: _ => newline; return .nothing
  | [] => failure
  | _ => do
    let a ← assignment (value nestingLimit)
    lineEnd
    return .assign a

/-- All statements of a text. A mark of the byte order in front of it does not count. -/
def statements : Scan (List Statement) := do
  discard (maybe (char '\ufeff'))
  blanks
  let found ← many (do
    let s ← statement
    blanks
    return s) (← fuel)
  atEnd
  return found

structure Section where
  opening : Statement
  assignments : List Draft.Assignment

def sections : List Statement → List Draft.Assignment × List Section
  | [] => ([], [])
  | .nothing :: statements => sections statements
  | .assign a :: statements =>
    let (top, rest) := sections statements
    (a :: top, rest)
  | opening :: statements =>
    let (assignments, rest) := sections statements
    ([], ⟨opening, assignments⟩ :: rest)

def addSection (entries : Draft.Entries) (s : Section) : Option Draft.Entries :=
  match s.opening with
  | .table span path key =>
    Draft.descend false (fun _ => Draft.openTable span key s.assignments) path .outer entries
  | .tableItem span path key =>
    Draft.descend false (fun _ => Draft.openItem span key s.assignments) path .outer entries
  | .nothing | .assign _ => some entries

def assemble (statements : List Statement) : Option (List Entry) := do
  let (top, rest) := sections statements
  let entries ← Draft.assignAll .outer [] top
  return Draft.finishEntries (← rest.foldlM addSection entries)

def parse? (text : String) : Option (List Entry) := do
  let (found, _) ← statements ⟨0, text.toList⟩
  assemble found

end NamingLint.Toml
