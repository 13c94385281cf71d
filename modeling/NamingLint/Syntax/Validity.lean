import NamingLint.Syntax.Tree

/-! Validity: every span cuts the source, lies inside its parent's span and holds the name span, and
every node that needs a name has a name span. -/

namespace NamingLint.SyntaxTree

open Syntax

def insideParent (tree : SyntaxTree) (n : Node) : Except TreeError Bool :=
  match n.parent with
  | none => .ok true
  | some parent => do return (← tree.node parent).span.contains n.span

def holdsName (n : Node) : Bool :=
  match n.nameSpan with
  | none => true
  | some nameSpan => n.span.contains nameSpan

/-- Whether an end that is added up for a node leaves the machine word. The end of a name span is not
asked for if it starts before the node. -/
def overflows (n : Node) : Bool :=
  n.span.overflows ||
    n.nameSpan.any fun name => decide (n.span.offset ≤ name.offset) && name.overflows

def validateNode (tree : SyntaxTree) (id : NodeId) : Except TreeError Unit := do
  let n ← tree.node id
  let inside ← tree.insideParent n
  if !((tree.slice? n.span).isSome && inside && holdsName n) then
    -- A span that a machine word cannot hold is never in bounds, so it needs no check of its own.
    throw (if overflows n then .overflow else .spanOutOfBounds n.kind n.span.offset)
  if n.kind.requiresName && n.nameSpan.isNone then
    throw (.missingName n.kind n.span.offset)

def validate (tree : SyntaxTree) : Except TreeError Unit :=
  tree.preorder.forM tree.validateNode

end NamingLint.SyntaxTree
