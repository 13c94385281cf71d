import NamingLint.Syntax.Kind
import NamingLint.Syntax.Modifier
import NamingLint.Text.Bytes

/-! Syntax trees as id-indexed stores.

Nodes are numbered in the order in which they are added and the root is node zero. A node records its
parent, and the parent lists it as a child. -/

namespace NamingLint.Syntax

abbrev NodeId := Nat

structure Node where
  kind : Kind
  parent : Option NodeId
  span : Span
  nameSpan : Option Span
  modifiers : Modifiers
  children : List NodeId
  deriving DecidableEq, Repr

inductive TreeError where
  | missingName (kind : Kind) (offset : Nat)
  | spanOutOfBounds (kind : Kind) (offset : Nat)
  | noSuchNode (size : Nat) (id : NodeId)
  /-- An offset left the machine word. -/
  | overflow
  deriving DecidableEq, Repr

def TreeError.message : TreeError → String
  | missingName kind offset => s!"{kind.describe} at byte {offset} has no name"
  | spanOutOfBounds kind offset => s!"{kind.describe} at byte {offset} has a span outside its bounds"
  | noSuchNode size id => s!"index out of bounds: the len is {size} but the index is {id}"
  | overflow => "attempt to add with overflow"

end NamingLint.Syntax

namespace NamingLint

open Syntax

structure SyntaxTree where
  source : String
  nodes : Array Node
  deriving DecidableEq, Repr

namespace SyntaxTree

def root : NodeId := 0

def ofSource (source : String) : SyntaxTree :=
  ⟨source, #[⟨.sourceFile, none, ⟨0, Text.byteLength source.toList⟩, none, .empty, []⟩]⟩

def size (tree : SyntaxTree) : Nat := tree.nodes.size

def node? (tree : SyntaxTree) (id : NodeId) : Option Node := tree.nodes[id]?

def node (tree : SyntaxTree) (id : NodeId) : Except TreeError Node :=
  match tree.node? id with
  | some n => .ok n
  | none => .error (.noSuchNode tree.size id)

/-- Changes one node. An id that names no node changes nothing. -/
def update (tree : SyntaxTree) (id : NodeId) (f : Node → Node) : SyntaxTree :=
  match tree.node? id with
  | some n => { tree with nodes := tree.nodes.setIfInBounds id (f n) }
  | none => tree

/-- Adds a node and then lists it as the last child of its parent. The node is added even if its
parent is no node of the tree, and it may name itself. -/
def push (tree : SyntaxTree) (parent : NodeId) (kind : Kind) (span : Span) : SyntaxTree :=
  let added : SyntaxTree :=
    { tree with nodes := tree.nodes.push ⟨kind, some parent, span, none, .empty, []⟩ }
  added.update parent fun n => { n with children := n.children ++ [tree.size] }

def setName (tree : SyntaxTree) (id : NodeId) (span : Span) : SyntaxTree :=
  tree.update id fun n => { n with nameSpan := some span }

def setModifiers (tree : SyntaxTree) (id : NodeId) (modifiers : Modifiers) : SyntaxTree :=
  tree.update id fun n => { n with modifiers := modifiers }

/-- The source text under a span, if both of its ends fall between two characters. -/
def slice? (tree : SyntaxTree) (span : Span) : Option String :=
  (Text.slice? span.offset span.width tree.source.toList).map String.ofList

def nameOf? (tree : SyntaxTree) (n : Node) : Option String := n.nameSpan.bind tree.slice?

def textOf (tree : SyntaxTree) (n : Node) : String := (tree.slice? n.span).getD ""

def childrenOf (tree : SyntaxTree) (id : NodeId) : List NodeId :=
  match tree.node? id with
  | some n => n.children
  | none => []

def drain (tree : SyntaxTree) : Nat → List NodeId → List NodeId
  | 0, _ => []
  | _ + 1, [] => []
  | steps + 1, id :: pending => id :: drain tree steps (tree.childrenOf id ++ pending)

/-- The nodes below the root in pre-order. No node is listed by two parents, so as many steps as
there are nodes are enough. -/
def preorder (tree : SyntaxTree) : List NodeId := tree.drain tree.size [root]

end SyntaxTree

end NamingLint
