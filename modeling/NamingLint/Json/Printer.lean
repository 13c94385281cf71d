import NamingLint.Json.Value

/-! Printed JSON: one member or item a line, two blanks a level. -/

namespace NamingLint.Json

def hexDigit (n : Nat) : Char := Nat.digitChar n

def unicodeEscape (c : Char) : List Char :=
  ['\\', 'u', '0', '0', hexDigit (c.toNat / 16), hexDigit (c.toNat % 16)]

def escape (c : Char) : List Char :=
  if c = '"' then ['\\', '"']
  else if c = '\\' then ['\\', '\\']
  else if c = '\n' then ['\\', 'n']
  else if c = '\r' then ['\\', 'r']
  else if c = '\t' then ['\\', 't']
  else if c = '\x08' then ['\\', 'b']
  else if c = '\x0c' then ['\\', 'f']
  else if c.toNat < 0x20 then unicodeEscape c
  else [c]

/-- A string literal. A text that is no text is written as half of a surrogate pair. -/
def quote : Text → List Char
  | some text => '"' :: (text.toList.flatMap escape ++ ['"'])
  | none => "\"\\ud800\"".toList

def margin (depth : Nat) : List Char := '\n' :: List.replicate (2 * depth) ' '

mutual

def print (depth : Nat) : Value → List Char
  | .null => "null".toList
  | .boolean true => "true".toList
  | .boolean false => "false".toList
  | .number literal => literal.toList
  | .string text => quote text
  | .array [] => ['[', ']']
  | .array (item :: items) =>
    '[' :: (margin (depth + 1) ++ print (depth + 1) item ++ printItems (depth + 1) items
      ++ margin depth ++ [']'])
  | .object [] => ['\x7b', '\x7d']
  | .object ((key, value) :: members) =>
    '\x7b' :: (margin (depth + 1) ++ quote key ++ [':', ' '] ++ print (depth + 1) value
      ++ printMembers (depth + 1) members ++ margin depth ++ ['\x7d'])

def printItems (depth : Nat) : List Value → List Char
  | [] => []
  | item :: items => ',' :: (margin depth ++ print depth item ++ printItems depth items)

def printMembers (depth : Nat) : List (Text × Value) → List Char
  | [] => []
  | (key, value) :: members =>
    ',' :: (margin depth ++ quote key ++ [':', ' '] ++ print depth value ++ printMembers depth members)

end

def Value.pretty (value : Value) : String := String.ofList (print 0 value)

end NamingLint.Json
