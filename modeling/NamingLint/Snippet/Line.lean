import NamingLint.Text.Bytes
import NamingLint.Text.Layout

/-! The lines of a source around a span.

The part that is shown has one line of context on each side. Rows end at a line feed, a carriage return
or both. The lines that are shown end at a line feed only, with a carriage return before it or not. -/

namespace NamingLint.Snippet

structure Row where
  offset : Nat
  body : List Char
  ending : List Char
  deriving DecidableEq, Repr

namespace Row

def text (row : Row) : List Char := row.body ++ row.ending

def stop (row : Row) : Nat := row.offset + Text.byteLength row.text

def isBefore (offset : Nat) (row : Row) : Bool := !row.ending.isEmpty && decide (row.stop ≤ offset)

def endsAt (offset : Nat) (row : Row) : Bool :=
  decide (row.offset + Text.byteLength row.body ≤ offset) && decide (offset < row.stop)

end Row

def splitRows : List Char → List (List Char × List Char)
  | [] => [([], [])]
  | '\r' :: '\n' :: cs => ([], ['\r', '\n']) :: splitRows cs
  | c :: cs =>
    if c = '\n' ∨ c = '\r' then ([], [c]) :: splitRows cs
    else
      match splitRows cs with
      | (body, ending) :: rows => (c :: body, ending) :: rows
      | [] => [([c], [])]

def placeRows (offset : Nat) : List (List Char × List Char) → List Row
  | [] => []
  | (body, ending) :: rows =>
    ⟨offset, body, ending⟩ :: placeRows (offset + Text.byteLength (body ++ ending)) rows

def rowsOf (source : List Char) : List Row := placeRows 0 (splitRows source)

def rowIndex (rows : List Row) (offset : Nat) : Nat := rows.countP (Row.isBefore offset)

/-- The last offset inside a span, or its offset if it is empty. -/
def lastOffset (span : Span) : Nat := max span.offset (span.stop - 1)

/-- How many rows there are up to the end of the context behind a span. A span whose last character
ends a row reaches one row further. -/
def rowsShown (rows : List Row) (span : Span) : Nat :=
  let last := rowIndex rows (lastOffset span)
  let reaches := decide (0 < span.width) && rows.any (Row.endsAt (lastOffset span))
  last + (if reaches then 3 else 2)

structure Line where
  number : Nat
  offset : Nat
  length : Nat
  text : List Char
  deriving DecidableEq, Repr

def cutReturn (piece : List Char) : List Char :=
  if piece.getLast? = some '\r' then piece.dropLast else piece

/-- Lines out of the pieces between line feeds. `number` is that of the line before the first. A rest
without a line feed is a line if there is anything in it. It counts unless it ends in a carriage
return. -/
def linesOf (number offset : Nat) : List (List Char) → List Line
  | [] => []
  | [rest] =>
    if rest.isEmpty then []
    else
      [⟨if rest.getLast? = some '\r' then number else number + 1, offset, Text.byteLength rest, rest⟩]
  | piece :: pieces =>
    ⟨number + 1, offset, Text.byteLength piece + 1, cutReturn piece⟩
      :: linesOf (number + 1) (offset + Text.byteLength piece + 1) pieces

def lines (source : List Char) (span : Span) : List Line :=
  let rows := rowsOf source
  let first := rowIndex rows span.offset - 1
  let shown := (rows.take (rowsShown rows span)).drop first
  match shown with
  | [] => []
  | row :: _ => linesOf first row.offset ((shown.flatMap Row.text).splitOn '\n')

def startOf (source : List Char) (span : Span) : Nat × Nat :=
  let rows := rowsOf source
  let index := rowIndex rows span.offset
  (index + 1, span.offset - ((rows[index]?.map Row.offset).getD 0) + 1)

namespace Line

def stop (line : Line) : Nat := line.offset + line.length

def holds (line : Line) (span : Span) : Bool :=
  decide (line.offset ≤ span.offset) && decide (span.stop ≤ line.stop)

def opens (line : Line) (span : Span) : Bool := decide (line.offset ≤ span.offset)

def closes (line : Line) (span : Span) : Bool :=
  decide (line.offset ≤ span.stop) && decide (span.stop ≤ line.stop)

/-- Whether a line is part of a span. An empty span counts as one byte. -/
def touches (line : Line) (span : Span) : Bool :=
  let reach := span.offset + max span.width 1
  decide (line.offset ≤ span.offset) && decide (span.offset < line.stop)
    || decide (span.offset < line.offset) && decide (line.stop < reach)
    || decide (line.offset < reach) && decide (reach ≤ line.stop)

end Line

end NamingLint.Snippet
