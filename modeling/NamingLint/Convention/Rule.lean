import NamingLint.Convention.Criteria
import NamingLint.Convention.Declaration

/-! The naming checks, from one declaration up to a whole tree. -/

namespace NamingLint.Convention

open Syntax

structure Finding where
  tip : Tip
  span : Span
  message : String
  deriving DecidableEq, Repr

def constantTip (name : String) : Option Tip :=
  if isUpperSnake name && beginsWith "C_" name then none else some .constant

/-- The check that a variable fails. Its letters are looked at before its first two characters. -/
def variableTip (scope : Scope) (name : String) : Option Tip :=
  match scope with
  | .localLevel => none
  | .rootLevel =>
    if !isLowerSnake name then some .globalVariable
    else if !beginsWith "g_" name then some .rootVariable else none
  | .namespaceLevel =>
    if !isLowerSnake name then some .globalVariable
    else if !beginsWith "p_" name then some .namespaceVariable else none

def bindingTip (keyword : VariableKeyword) (scope : Scope) (name : String) : Option Tip :=
  match keyword with
  | .varWord => none
  | .constWord => if scope.isGlobal then constantTip name else none
  | .letWord => variableTip scope name

def methodTip (modifiers : Modifiers) (name : String) : Option Tip :=
  if modifiers.has .static then if isPascalCase name then none else some .staticMethod
  else if isCamelCase name then none else some .method

def propertyTip (modifiers : Modifiers) (name : String) : Option Tip :=
  let cls := PropertyClass.ofModifiers modifiers
  if cls.accepts name then none else some cls.tip

def Declaration.failures : Declaration → List (Tip × Span)
  | .classType name span => if isPascalCase name then [] else [(.className, span)]
  | .interfaceType name span => if hasTypeMarker 'I' name then [] else [(.interfaceName, span)]
  | .enumType name span => if hasTypeMarker 'E' name then [] else [(.enumName, span)]
  | .module name span => if isLowerSnake name then [] else [(.moduleName, span)]
  | .method name nameSpan modifiers => (methodTip modifiers name).toList.map (·, nameSpan)
  | .property name nameSpan modifiers => (propertyTip modifiers name).toList.map (·, nameSpan)
  | .variables text span parent bindings =>
    match VariableKeyword.ofText text with
    | .varWord => [(.varStatement, span)]
    | keyword =>
      bindings.filterMap fun b => (bindingTip keyword (.ofParent parent) b.name).map (·, b.span)

/-- Checks that append to a list of findings. A check that fails leaves the list behind with what it has
appended so far. -/
abbrev Recorder := EStateM TreeError (List Finding)

def Declaration.record (tips : Tips) (declaration : Declaration) : Recorder Unit :=
  declaration.failures.forM fun (tip, span) => modify fun found => found ++ [⟨tip, span, tips tip⟩]

def recordAt (tips : Tips) (tree : SyntaxTree) (id : NodeId) : Recorder Unit := do
  match ← MonadExcept.ofExcept (Declaration.read tree id) with
  | some declaration => declaration.record tips
  | none => return ()

def keep {α : Type} : EStateM.Result TreeError (List Finding) α → Except TreeError (List Finding)
  | .ok _ found => .ok found
  | .error error _ => .error error

/-- The findings of a tree in pre-order. The first node that cannot be read stops the search. -/
def check (tips : Tips) (tree : SyntaxTree) : Except TreeError (List Finding) :=
  keep ((tree.preorder.forM (recordAt tips tree)).run [])

end NamingLint.Convention
