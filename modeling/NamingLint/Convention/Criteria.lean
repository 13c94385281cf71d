import NamingLint.Convention.Tip
import NamingLint.Syntax.Kind
import NamingLint.Syntax.Modifier
import NamingLint.Text.Layout

/-! What names are judged by: their letter cases, where a variable is declared and with which keyword, and
the class of a property. Only ASCII letters have a case. -/

namespace NamingLint.Convention

open Syntax

def startsWith (test : Char → Bool) (name : String) : Bool :=
  match name.toList with
  | [] => false
  | c :: _ => test c

def hasUnderscore (name : String) : Bool := name.toList.any (· == '_')

def isPascalCase (name : String) : Bool := !hasUnderscore name && !startsWith Char.isLower name

def isCamelCase (name : String) : Bool := !hasUnderscore name && !startsWith Char.isUpper name

def isLowerSnake (name : String) : Bool := !name.toList.any Char.isUpper

def isUpperSnake (name : String) : Bool := !name.toList.any Char.isLower

/-- A marker letter followed by a capital, as in `IWatch`. -/
def hasTypeMarker (marker : Char) (name : String) : Bool :=
  match name.toList with
  | first :: second :: _ => first == marker && second.isUpper
  | _ => false

def beginsWith (lead name : String) : Bool := lead.toList.isPrefixOf name.toList

inductive Scope where
  | localLevel
  | rootLevel
  | namespaceLevel
  deriving DecidableEq, Repr

namespace Scope

def ofParent : Option Kind → Scope
  | none | some .sourceFile => .rootLevel
  | some .moduleBlock => .namespaceLevel
  | some _ => .localLevel

def isGlobal : Scope → Bool
  | .localLevel => false
  | .rootLevel | .namespaceLevel => true

end Scope

inductive VariableKeyword where
  | varWord
  | constWord
  | letWord
  deriving DecidableEq, Repr

def statementHead (text : String) : List Char := text.toList.takeWhile (· != '=')

/-- A statement is read as `var` if its head mentions `var` anywhere, else as `const` if it mentions
`const`, else as `let`. -/
def VariableKeyword.ofText (text : String) : VariableKeyword :=
  if Text.isInfixOf "var".toList (statementHead text) then .varWord
  else if Text.isInfixOf "const".toList (statementHead text) then .constWord
  else .letWord

inductive PropertyClass where
  | staticReadonly
  | static
  | member
  | hidden
  deriving DecidableEq, Repr

namespace PropertyClass

def ofModifiers (modifiers : Modifiers) : PropertyClass :=
  match modifiers.has .static, modifiers.has .readonly, modifiers.isPublic with
  | true, true, _ => .staticReadonly
  | true, false, _ => .static
  | false, _, true => .member
  | false, _, false => .hidden

def tip : PropertyClass → Tip
  | .staticReadonly => .staticReadonlyProperty
  | .static => .staticProperty
  | .member => .memberProperty
  | .hidden => .privateProperty

def accepts (cls : PropertyClass) (name : String) : Bool :=
  match cls with
  | .staticReadonly => isUpperSnake name
  | .static => beginsWith "s_" name && isLowerSnake name
  | .member => beginsWith "m_" name && isLowerSnake name
  | .hidden => beginsWith "_" name && isLowerSnake name

end PropertyClass

end NamingLint.Convention
