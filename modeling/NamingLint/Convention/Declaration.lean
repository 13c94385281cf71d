import NamingLint.Syntax.Tree

/-! Declarations as the convention looks at them. -/

namespace NamingLint.Convention

open Syntax

structure Binding where
  name : String
  span : Span
  deriving DecidableEq, Repr

inductive Declaration where
  | classType (name : String) (span : Span)
  | interfaceType (name : String) (span : Span)
  | enumType (name : String) (span : Span)
  | module (name : String) (span : Span)
  | method (name : String) (nameSpan : Span) (modifiers : Modifiers)
  | property (name : String) (nameSpan : Span) (modifiers : Modifiers)
  | variables (text : String) (span : Span) (parent : Option Kind) (bindings : List Binding)
  deriving DecidableEq, Repr

namespace Declaration

def requireName (tree : SyntaxTree) (n : Node) : Except TreeError String :=
  match tree.nameOf? n with
  | some name => .ok name
  | none => .error (.missingName n.kind n.span.offset)

def requireNameSpan (n : Node) : Except TreeError Span :=
  match n.nameSpan with
  | some span => .ok span
  | none => .error (.missingName n.kind n.span.offset)

def bindings (tree : SyntaxTree) : List NodeId → Except TreeError (List Binding)
  | [] => .ok []
  | id :: ids => do
    let child ← tree.node id
    if child.kind = .variableDeclaration then
      let name ← requireName tree child
      return ⟨name, child.span⟩ :: (← bindings tree ids)
    else bindings tree ids

def parentKind (tree : SyntaxTree) (n : Node) : Except TreeError (Option Kind) :=
  match n.parent with
  | none => .ok none
  | some parent => do return some (← tree.node parent).kind

/-- Reads the declaration at a node, none if the convention says nothing about its kind. -/
def ofNode (tree : SyntaxTree) (n : Node) : Except TreeError (Option Declaration) :=
  match n.kind with
  | .classDeclaration => do return some (.classType (← requireName tree n) n.span)
  | .interfaceDeclaration => do return some (.interfaceType (← requireName tree n) n.span)
  | .enumDeclaration => do return some (.enumType (← requireName tree n) n.span)
  | .moduleDeclaration => do return some (.module (← requireName tree n) n.span)
  | .methodDeclaration => do
    return some (.method (← requireName tree n) (← requireNameSpan n) n.modifiers)
  | .propertyDeclaration => do
    return some (.property (← requireName tree n) (← requireNameSpan n) n.modifiers)
  | .variableStatement => do
    let bound ← bindings tree n.children
    return some (.variables (tree.textOf n) n.span (← parentKind tree n) bound)
  | .sourceFile | .moduleBlock | .variableDeclaration | .other => .ok none

def read (tree : SyntaxTree) (id : NodeId) : Except TreeError (Option Declaration) := do
  ofNode tree (← tree.node id)

end Declaration

end NamingLint.Convention
