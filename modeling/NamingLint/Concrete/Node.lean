import NamingLint.Text.Bytes

/-! Concrete syntax trees of TypeScript, as a grammar delivers them.

A concrete tree holds every token and every comment of its text. Only the kinds that decide how a
program is outlined have a constructor. -/

namespace NamingLint.Concrete

inductive Kind where
  | comment
  | exportStatement
  | ambientDeclaration
  | expressionStatement
  | moduleNode
  | internalModule
  | classDeclaration
  | abstractClassDeclaration
  | interfaceDeclaration
  | enumDeclaration
  | classBody
  | methodDefinition
  | methodSignature
  | abstractMethodSignature
  | publicFieldDefinition
  | lexicalDeclaration
  | variableDeclaration
  | variableDeclarator
  | forStatement
  | statementBlock
  | string
  | identifier
  | shorthandPropertyIdentifierPattern
  | pairPattern
  | assignmentPattern
  | objectAssignmentPattern
  | objectPattern
  | arrayPattern
  | restPattern
  | propertyIdentifier
  | privatePropertyIdentifier
  | accessibilityModifier
  | global
  | get
  | set
  | static
  | readonly
  | other (name : String)
  deriving DecidableEq, Repr

def Kind.table : List (String × Kind) :=
  [("comment", .comment), ("export_statement", .exportStatement),
    ("ambient_declaration", .ambientDeclaration), ("expression_statement", .expressionStatement),
    ("module", .moduleNode), ("internal_module", .internalModule),
    ("class_declaration", .classDeclaration),
    ("abstract_class_declaration", .abstractClassDeclaration),
    ("interface_declaration", .interfaceDeclaration), ("enum_declaration", .enumDeclaration),
    ("class_body", .classBody), ("method_definition", .methodDefinition),
    ("method_signature", .methodSignature), ("abstract_method_signature", .abstractMethodSignature),
    ("public_field_definition", .publicFieldDefinition),
    ("lexical_declaration", .lexicalDeclaration), ("variable_declaration", .variableDeclaration),
    ("variable_declarator", .variableDeclarator), ("for_statement", .forStatement),
    ("statement_block", .statementBlock), ("string", .string), ("identifier", .identifier),
    ("shorthand_property_identifier_pattern", .shorthandPropertyIdentifierPattern),
    ("pair_pattern", .pairPattern), ("assignment_pattern", .assignmentPattern),
    ("object_assignment_pattern", .objectAssignmentPattern), ("object_pattern", .objectPattern),
    ("array_pattern", .arrayPattern), ("rest_pattern", .restPattern),
    ("property_identifier", .propertyIdentifier),
    ("private_property_identifier", .privatePropertyIdentifier),
    ("accessibility_modifier", .accessibilityModifier), ("global", .global), ("get", .get),
    ("set", .set), ("static", .static), ("readonly", .readonly)]

def Kind.ofName (name : String) : Kind := (table.lookup name).getD (.other name)

inductive Field where
  | name
  | value
  | left
  | body
  | initializer
  deriving DecidableEq, Repr

def Field.ofName? : String → Option Field
  | "name" => some .name
  | "value" => some .value
  | "left" => some .left
  | "body" => some .body
  | "initializer" => some .initializer
  | _ => none

/-- What a node says about itself. Tokens written in the grammar itself are not named. -/
structure Label where
  kind : Kind
  named : Bool
  isError : Bool
  isMissing : Bool
  /-- Whether the node or something below it is in error. -/
  hasError : Bool
  start : Nat
  stop : Nat
  field : Option Field
  deriving DecidableEq, Repr

namespace Label

def span (label : Label) : Span := .ofRange label.start label.stop

def text (label : Label) (source : List Char) : String :=
  match Text.slice? label.span.offset label.span.width source with
  | some cs => String.ofList cs
  | none => ""

def isToken (label : Label) (kind : Kind) : Bool := !label.named && label.kind == kind

end Label

inductive Node where
  | mk (label : Label) (children : List Node)

namespace Node

def label : Node → Label
  | mk label _ => label

def children : Node → List Node
  | mk _ children => children

def field? (field : Field) (children : List Node) : Option Node :=
  children.find? fun child => child.label.field == some field

end Node

mutual

/-- The first node in pre-order that is in error or missing. Nodes that have no error are not
searched. -/
def Node.firstError? : Node → Option Label
  | .mk label children =>
    if label.isError || label.isMissing then some label
    else if label.hasError then Node.firstErrorOf? children
    else none

def Node.firstErrorOf? : List Node → Option Label
  | [] => none
  | child :: rest =>
    match Node.firstError? child with
    | some label => some label
    | none => Node.firstErrorOf? rest

end

/-- Where a tree is in error: at its first error or missing node, or else at its root. -/
def Node.errorLabel? (root : Node) : Option Label :=
  if root.label.hasError then some (root.firstError?.getD root.label) else none

end NamingLint.Concrete
