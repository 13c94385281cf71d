import NamingLint.Concrete.Node
import NamingLint.Concrete.Outline
import NamingLint.Path
import NamingLint.Text.Position

/-! Parsers: what turns the text of a file into a syntax tree. -/

namespace NamingLint

inductive ParseError where
  | language (language message : String)
  | noTree
  | syntaxError (line column : Nat)
  deriving DecidableEq, Repr

def ParseError.message : ParseError → String
  | .language name message => "failed to load " ++ name ++ " grammar: " ++ message
  | .noTree => "parser produced no tree"
  | .syntaxError line column => "syntax error at " ++ toString line ++ ":" ++ toString column

structure Parser where
  languageId : String
  /-- Extensions of the files that the parser takes, dots included. -/
  extensions : List String
  parse : String → Except ParseError SyntaxTree

abbrev Grammar := String → Option Concrete.Node

namespace Parser

def handles (parser : Parser) (path : Path) : Bool := path.hasExtensionIn parser.extensions

/-- A syntax error at a node. Its column counts bytes. -/
def errorAt (source : String) (label : Concrete.Label) : ParseError :=
  let position := Text.Position.ofOffsetInBytes label.start source.toList
  .syntaxError position.line position.column

def ofConcrete (source : String) (root : Concrete.Node) : Except ParseError SyntaxTree :=
  match root.errorLabel? with
  | some label => .error (errorAt source label)
  | none => .ok (root.toSyntaxTree source)

def ofGrammar (languageId : String) (extensions : List String) (grammar : Grammar) : Parser where
  languageId := languageId
  extensions := extensions
  parse source :=
    match grammar source with
    | some root => ofConcrete source root
    | none => .error .noTree

def typescript (grammar : Grammar) : Parser := ofGrammar "typescript" [".ts"] grammar

def tsx (grammar : Grammar) : Parser := ofGrammar "tsx" [".tsx"] grammar

end Parser

end NamingLint
