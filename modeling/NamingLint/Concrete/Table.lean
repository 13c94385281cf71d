import NamingLint.Concrete.Node
import NamingLint.Json.Reader

/-! Concrete trees as tables.

A table lists the nodes of a tree in pre-order, each with the index of its parent. As JSON it is an array
of rows, and a row is an array of the node's kind, its flags, where it starts and stops, the index of its
parent and its field. The root has a negative number for a parent. -/

namespace NamingLint.Concrete

open Json (Value)

structure Row where
  label : Label
  parent : Option Nat
  deriving DecidableEq, Repr

/-- Reads one row. The flags are 1 for a named node, 2 for an error, 4 for a missing token and 8 for a
node with an error at or below it. -/
def Row.ofFields (kind : String) (flags start stop : Nat) (parent : Option Nat) (field : String) :
    Row where
  label :=
    { kind := .ofName kind
      named := flags.testBit 0
      isError := flags.testBit 1
      isMissing := flags.testBit 2
      hasError := flags.testBit 3
      start := start
      stop := stop
      field := Field.ofName? field }
  parent := parent

def adopt (row : Row) (index : Nat) (pending : Array (List Node)) : Array (List Node) :=
  match row.parent with
  | some parent =>
    pending.setIfInBounds parent (.mk row.label (pending.getD index []) :: pending.getD parent [])
  | none => pending

def childrenOfRows (rows : List Row) : Array (List Node) :=
  rows.zipIdx.foldr (fun (row, index) pending => adopt row index pending)
    (Array.replicate rows.length [])

def Node.ofRows? (rows : List Row) : Option Node :=
  rows.head?.map fun row => .mk row.label ((childrenOfRows rows).getD 0 [])

def Row.ofJson? (value : Value) : Option Row := do
  match ← value.list? with
  | [kind, flags, start, stop, parent, field] =>
    return .ofFields (← kind.text?) (← flags.word64?) (← start.word64?) (← stop.word64?) parent.word64?
      (← field.text?)
  | _ => none

def Node.parse? (text : String) : Option Node := do
  Node.ofRows? (← (← (← Json.parse? text).list?).mapM Row.ofJson?)

end NamingLint.Concrete
