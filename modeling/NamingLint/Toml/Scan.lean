import NamingLint.Text.Bytes

/-! Reading a document from left to right.

A scan takes text from the front of what is left and fails without a trace, so that another one may be
tried at the same place. -/

namespace NamingLint.Toml

/-- What is left of a text and where it starts. -/
structure Cursor where
  offset : Nat
  rest : List Char
  deriving DecidableEq, Repr

abbrev Scan := StateT Cursor Option

namespace Scan

def ofList {α : Type} (f : List Char → Option (α × List Char)) : Scan α := fun cursor =>
  (f cursor.rest).map fun (value, rest) =>
    (value, ⟨cursor.offset + (Text.byteLength cursor.rest - Text.byteLength rest), rest⟩)

def rest : Scan (List Char) := fun cursor => some (cursor.rest, cursor)

def peek? : Scan (Option Char) := return (← rest).head?

def fuel : Scan Nat := return (← rest).length + 1

def literal (text : List Char) : Scan Unit :=
  ofList fun cs => if text.isPrefixOf cs then some ((), cs.drop text.length) else none

def char (c : Char) : Scan Unit := literal [c]

def takeWhile (test : Char → Bool) : Scan (List Char) :=
  ofList fun cs => some (cs.takeWhile test, cs.dropWhile test)

def located {α : Type} (scan : Scan α) : Scan (Span × α) := fun cursor =>
  (scan cursor).map fun (value, next) => ((.ofRange cursor.offset next.offset, value), next)

def maybe {α : Type} (scan : Scan α) : Scan (Option α) := fun cursor =>
  match scan cursor with
  | some (value, next) => some (some value, next)
  | none => some (none, cursor)

def many {α : Type} (scan : Scan α) : Nat → Scan (List α)
  | 0 => return []
  | steps + 1 => do
    match ← maybe scan with
    | some value => return value :: (← many scan steps)
    | none => return []

def separated {α : Type} (separator : Char) (scan : Scan α) : Scan (List α) := do
  let first ← scan
  return first :: (← many (do char separator; scan) (← fuel))

def atEnd : Scan Unit := do if (← rest).isEmpty then return () else failure

end Scan

end NamingLint.Toml
