import NamingLint.Concrete.Node

/-! Names bound by a destructuring pattern. -/

namespace NamingLint.Concrete

/-- The parts of a pattern that can bind a name: of a pair its value, of a default its left side, of
an object, an array or a rest every named part. Keys and default values bind nothing. -/
def Kind.binds : Kind → Label → Bool
  | .pairPattern, part => part.field == some .value
  | .assignmentPattern, part => part.field == some .left
  | .objectAssignmentPattern, part => part.field == some .left
  | .objectPattern, part => part.named
  | .arrayPattern, part => part.named
  | .restPattern, part => part.named
  | _, _ => false

def Kind.bindsOnce : Kind → Bool
  | .pairPattern | .assignmentPattern | .objectAssignmentPattern => true
  | _ => false

def Kind.isBinding : Kind → Bool
  | .identifier | .shorthandPropertyIdentifierPattern => true
  | _ => false

mutual

def Node.bindings : Node → List Label
  | .mk label children =>
    if label.kind.isBinding then [label] else Node.bindingsOf label.kind children

def Node.bindingsOf (kind : Kind) : List Node → List Label
  | [] => []
  | part :: parts =>
    if kind.binds part.label then
      Node.bindings part ++ (if kind.bindsOnce then [] else Node.bindingsOf kind parts)
    else Node.bindingsOf kind parts

end

end NamingLint.Concrete
