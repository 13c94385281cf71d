/-! Text measured in bytes, and byte ranges of it.

Offsets and widths count the bytes of a text's UTF-8 form. A cut is defined only where both of its
ends fall between two characters. -/

namespace NamingLint.Text

def byteLength : List Char → Nat
  | [] => 0
  | c :: cs => c.utf8Size + byteLength cs

/-- The text after its first `n` bytes, if a character starts or the text ends there. -/
def dropBytes? : Nat → List Char → Option (List Char)
  | 0, cs => some cs
  | _ + 1, [] => none
  | n + 1, c :: cs => if c.utf8Size ≤ n + 1 then dropBytes? (n + 1 - c.utf8Size) cs else none

def takeBytes? : Nat → List Char → Option (List Char)
  | 0, _ => some []
  | _ + 1, [] => none
  | n + 1, c :: cs =>
    if c.utf8Size ≤ n + 1 then (takeBytes? (n + 1 - c.utf8Size) cs).map (c :: ·) else none

def slice? (offset width : Nat) (text : List Char) : Option (List Char) :=
  (dropBytes? offset text).bind (takeBytes? width)

def bytes (text : List Char) : List UInt8 :=
  text.flatMap String.utf8EncodeChar

end NamingLint.Text

namespace NamingLint

structure Span where
  offset : Nat
  width : Nat
  deriving DecidableEq, Repr

namespace Span

def stop (s : Span) : Nat := s.offset + s.width

def overflows (s : Span) : Bool := decide (UInt64.size ≤ s.stop)

/-- The span from `start` up to `stop`, empty if that range runs backwards. -/
def ofRange (start stop : Nat) : Span := ⟨start, stop - start⟩

def contains (outer inner : Span) : Bool :=
  decide (outer.offset ≤ inner.offset) && decide (inner.stop ≤ outer.stop)

end Span

end NamingLint
