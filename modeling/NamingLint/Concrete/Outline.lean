import NamingLint.Concrete.Binding
import NamingLint.Syntax.Outline

/-! The outline of a program: its declarations and the nodes that nest them.

A node gives no outline, one outline or those of its parts, so that wrappers such as `export` leave
their parts to the node around them. -/

namespace NamingLint.Concrete

open Syntax (Outline Modifier Modifiers)

inductive Role where
  /-- By its kind. -/
  | statement
  /-- As the block of a module. -/
  | block
  /-- As a method, whatever its kind. -/
  | method
  /-- Only its named parts. -/
  | transparent
  /-- Only the initial value of a variable. -/
  | declarator
  deriving DecidableEq, Repr

/-- What surrounds the parts of a node. It decides which of them are outlined, and how. -/
inductive Context where
  | statements
  | moduleParts
  | globalParts
  | classMembers
  | loopParts
  | declarators
  | initialValue
  | nothing
  deriving DecidableEq, Repr

def Kind.isVariables (kind : Kind) : Bool :=
  kind == .lexicalDeclaration || kind == .variableDeclaration

def Label.isDeclarator (part : Label) : Bool := part.named && part.kind == .variableDeclarator

/-- The role of a named part: the body of a module and the statement block of `declare global` are
blocks, signatures in a class are methods, and the variables of a loop make no statement of their
own. -/
def Context.namedRole (context : Context) (part : Label) : Role :=
  match context with
  | .moduleParts => if part.field = some .body then .block else .statement
  | .globalParts => if part.kind = .statementBlock then .block else .statement
  | .classMembers => if part.kind = .methodSignature then .method else .statement
  | .loopParts =>
    if part.kind.isVariables && part.field == some .initializer then .transparent else .statement
  | _ => .statement

def Context.role? (context : Context) (part : Label) : Option Role :=
  match context with
  | .declarators => if part.isDeclarator then some .declarator else none
  | .initialValue => if part.field = some .value then some .statement else none
  | .nothing => none
  | context => if part.named then some (context.namedRole part) else none

def Context.field? : Context → Option Field
  | .moduleParts => some .body
  | .loopParts => some .initializer
  | .initialValue => some .value
  | _ => none

def Context.behind : Context → Context
  | .initialValue => .nothing
  | _ => .statements

/-- The context behind a part. A field means the first part that has it. -/
def Context.next (context : Context) (part : Label) : Context :=
  match context.field? with
  | some field => if part.field = some field then context.behind else context
  | none => context

def wrapsNamespace (parts : List Node) : Bool :=
  parts.any fun part => part.label.named && part.label.kind == .internalModule

def moduleNameSpan (name : Label) : Span :=
  if name.kind = .string ∧ 2 ≤ name.stop - name.start then .ofRange (name.start + 1) (name.stop - 1)
  else name.span

def nameField? (parts : List Node) : Option Label := (Node.field? .name parts).map Node.label

def memberName? (parts : List Node) : Option Label :=
  (nameField? parts).filter fun name =>
    name.kind == .propertyIdentifier || name.kind == .privatePropertyIdentifier

/-- Accessors are no methods, and neither is a constructor. -/
def methodName? (source : List Char) (parts : List Node) : Option Label :=
  if parts.any fun part => part.label.isToken .get || part.label.isToken .set then none
  else (memberName? parts).filter fun name => name.text source != "constructor"

def modifier? (source : List Char) (part : Label) : Option Modifier :=
  match part.kind with
  | .accessibilityModifier => Modifier.ofKeyword? (part.text source)
  | .static => if part.named then none else some .static
  | .readonly => if part.named then none else some .readonly
  | _ => none

def modifiers (source : List Char) (parts : List Node) : Modifiers :=
  .ofList (parts.filterMap fun part => modifier? source part.label)

def boundNames (parts : List Node) : List Label :=
  (parts.filter fun part => part.label.isDeclarator).flatMap fun part =>
    ((Node.field? .name part.children).map Node.bindings).getD []

inductive Shape where
  | nothing
  /-- The outlines of its parts. -/
  | parts (context : Context)
  /-- One outline, with a child for each bound name before those of its parts. -/
  | node (kind : Syntax.Kind) (nameSpan : Option Span) (modifiers : Modifiers) (bound : List Label)
      (context : Context)

namespace Shape

def plain (parts : List Node) : Shape :=
  if parts.any fun part => part.label.named then .node .other none .empty [] .statements
  else .nothing

def type (kind : Syntax.Kind) (parts : List Node) : Shape :=
  .node kind ((nameField? parts).map Label.span) .empty [] .statements

def member (source : List Char) (kind : Syntax.Kind) (name : Option Label) (parts : List Node) :
    Shape :=
  match name with
  | some name => .node kind (some name.span) (modifiers source parts) [] .statements
  | none => plain parts

def method (source : List Char) (parts : List Node) : Shape :=
  member source .methodDeclaration (methodName? source parts) parts

/-- `declare` is a wrapper, except that `declare global` is a module. -/
def ambient (parts : List Node) : Shape :=
  match parts.find? fun part => part.label.isToken .global with
  | some token => .node .moduleDeclaration (some token.label.span) .empty [] .globalParts
  | none => .parts .statements

def ofKind (source : List Char) (parts : List Node) : Kind → Shape
  | .comment => .nothing
  | .exportStatement => .parts .statements
  | .ambientDeclaration => ambient parts
  | .expressionStatement => if wrapsNamespace parts then .parts .statements else plain parts
  | .moduleNode | .internalModule =>
    .node .moduleDeclaration ((nameField? parts).map moduleNameSpan) .empty [] .moduleParts
  | .classDeclaration | .abstractClassDeclaration => type .classDeclaration parts
  | .interfaceDeclaration => type .interfaceDeclaration parts
  | .enumDeclaration => type .enumDeclaration parts
  | .classBody => .parts .classMembers
  | .methodDefinition | .abstractMethodSignature => method source parts
  | .publicFieldDefinition => member source .propertyDeclaration (memberName? parts) parts
  | .lexicalDeclaration | .variableDeclaration =>
    .node .variableStatement none .empty (boundNames parts) .declarators
  | .forStatement => .node .other none .empty [] .loopParts
  | _ => plain parts

def ofRole (source : List Char) (kind : Kind) (parts : List Node) : Role → Shape
  | .statement => ofKind source parts kind
  | .block => .node .moduleBlock none .empty [] .statements
  | .method => method source parts
  | .transparent => .parts .statements
  | .declarator => .parts .initialValue

end Shape

def bindingOutline (name : Label) : Outline :=
  .node .variableDeclaration name.span (some name.span) .empty []

mutual

def Node.outlines (source : List Char) (role : Role) : Node → List Outline
  | .mk label parts =>
    match Shape.ofRole source label.kind parts role with
    | .nothing => []
    | .parts context => Node.outlinesOf source context parts
    | .node kind nameSpan modifiers bound context =>
      [.node kind label.span nameSpan modifiers
        (bound.map bindingOutline ++ Node.outlinesOf source context parts)]

def Node.outlinesOf (source : List Char) (context : Context) : List Node → List Outline
  | [] => []
  | part :: parts =>
    (match context.role? part.label with
      | some role => Node.outlines source role part
      | none => []) ++ Node.outlinesOf source (context.next part.label) parts

end

def Node.toSyntaxTree (root : Node) (source : String) : SyntaxTree :=
  Syntax.treeOfOutlines source (Node.outlinesOf source.toList .statements root.children)

end NamingLint.Concrete
