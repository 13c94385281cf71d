/-! JSON values and what they stand for.

A record is an object with every one of its fields, each once and in any order among members that
mean nothing, or an array of its fields in order. -/

namespace NamingLint.Json

/-- The text of a string literal, none if it holds half of a surrogate pair. -/
abbrev Text := Option String

/-- A number is kept as it is written, and members in the order in which they are written. -/
inductive Value where
  | null
  | boolean (value : Bool)
  | number (literal : String)
  | string (text : Text)
  | array (items : List Value)
  | object (members : List (Text × Value))

def isDigit (c : Char) : Bool := decide ('0' ≤ c) && decide (c ≤ '9')

namespace Value

def ofText (text : String) : Value := .string (some text)

def ofNat (n : Nat) : Value := .number (toString n)

def ofMembers (members : List (String × Value)) : Value :=
  .object (members.map fun (key, value) => (some key, value))

/-- The value of a field, none unless exactly one member carries its name. -/
def field? (members : List (Text × Value)) (name : String) : Option Value :=
  match members.filter fun member => member.1 == some name with
  | [(_, value)] => some value
  | _ => none

def record? (value : Value) (names : List String) : Option (List Value) :=
  match value with
  | .array items => if items.length = names.length then some items else none
  | .object members =>
    if members.any fun member => member.1.isNone then none else names.mapM (field? members)
  | _ => none

def text? : Value → Option String
  | .string text => text
  | _ => none

def word64? : Value → Option Nat
  | .number literal =>
    if literal.toList.all isDigit then
      let n := literal.toList.foldl (fun n c => 10 * n + (c.toNat - '0'.toNat)) 0
      if n < UInt64.size then some n else none
    else none
  | _ => none

def list? : Value → Option (List Value)
  | .array items => some items
  | _ => none

end Value

end NamingLint.Json
