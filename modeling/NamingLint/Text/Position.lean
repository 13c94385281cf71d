import NamingLint.Text.Bytes

/-! Lines and columns.

Both count from one. Only a line feed ends a line. A column counts characters, or bytes where a grammar
gives it. -/

namespace NamingLint.Text

structure Position where
  line : Nat
  column : Nat
  deriving DecidableEq, Repr

def lastLine (text : List Char) : List Char := (text.reverse.takeWhile (· != '\n')).reverse

namespace Position

/-- The largest boundary up to an offset, searched for one byte after the other. None if the search
would leave the text at its start. -/
def stepBack? (text : List Char) : Nat → Option Nat
  | 0 => if (dropBytes? 0 text).isSome then some 0 else none
  | offset + 1 =>
    if (dropBytes? (offset + 1) text).isSome then some (offset + 1) else stepBack? text offset

-- The offset is cut to the text and moved back in front of a character that it falls into.
def ofOffset (offset : Nat) (text : List Char) : Position :=
  let floor := (stepBack? text (min offset (byteLength text))).getD 0
  let before := (takeBytes? floor text).getD []
  ⟨before.count '\n' + 1, (lastLine before).length + 1⟩

def start : Position := ⟨1, 1⟩

def advanceBytes (p : Position) : Nat → List Char → Position
  | _, [] => p
  | n, c :: cs =>
    if c.utf8Size ≤ n then
      advanceBytes (if c = '\n' then ⟨p.line + 1, 1⟩ else ⟨p.line, p.column + c.utf8Size⟩)
        (n - c.utf8Size) cs
    else ⟨p.line, p.column + n⟩

def ofOffsetInBytes (offset : Nat) (text : List Char) : Position := start.advanceBytes offset text

end Position

end NamingLint.Text
