/-! Kinds of nodes of a syntax tree. -/

namespace NamingLint.Syntax

inductive Kind where
  | sourceFile
  | moduleBlock
  | classDeclaration
  | interfaceDeclaration
  | enumDeclaration
  | moduleDeclaration
  | methodDeclaration
  | propertyDeclaration
  | variableStatement
  | variableDeclaration
  | other
  deriving DecidableEq, Repr

namespace Kind

def describe : Kind → String
  | sourceFile => "source file"
  | moduleBlock => "module block"
  | classDeclaration => "class declaration"
  | interfaceDeclaration => "interface declaration"
  | enumDeclaration => "enum declaration"
  | moduleDeclaration => "module declaration"
  | methodDeclaration => "method declaration"
  | propertyDeclaration => "property declaration"
  | variableStatement => "variable statement"
  | variableDeclaration => "variable declaration"
  | other => "node"

def requiresName : Kind → Bool
  | classDeclaration | interfaceDeclaration | enumDeclaration | moduleDeclaration
  | methodDeclaration | propertyDeclaration | variableDeclaration => true
  | sourceFile | moduleBlock | variableStatement | other => false

end Kind

end NamingLint.Syntax
