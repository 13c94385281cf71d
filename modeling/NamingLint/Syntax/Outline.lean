import NamingLint.Syntax.Tree

/-! Syntax trees before they are numbered.

An outline is a node with its children below it. Laying out an outline adds its nodes to a tree, each
before its children, through the tree's own operations. -/

namespace NamingLint.Syntax

inductive Outline where
  | node (kind : Kind) (span : Span) (nameSpan : Option Span) (modifiers : Modifiers)
      (children : List Outline)

/-- Adds a node with its name and modifiers as the last child of `parent`. -/
def pushNode (tree : SyntaxTree) (parent : NodeId) (kind : Kind) (span : Span)
    (nameSpan : Option Span) (modifiers : Modifiers) : SyntaxTree :=
  let id := tree.size
  let added := tree.push parent kind span
  let named := match nameSpan with
    | some name => added.setName id name
    | none => added
  named.setModifiers id modifiers

mutual

def Outline.layOut (tree : SyntaxTree) (parent : NodeId) : Outline → SyntaxTree
  | .node kind span nameSpan modifiers children =>
    Outline.layOutAll (pushNode tree parent kind span nameSpan modifiers) tree.size children

def Outline.layOutAll (tree : SyntaxTree) (parent : NodeId) : List Outline → SyntaxTree
  | [] => tree
  | outline :: outlines => Outline.layOutAll (Outline.layOut tree parent outline) parent outlines

end

def treeOfOutlines (source : String) (outlines : List Outline) : SyntaxTree :=
  Outline.layOutAll (.ofSource source) SyntaxTree.root outlines

end NamingLint.Syntax
