/-! Modifiers of class members. -/

namespace NamingLint.Syntax

inductive Modifier where
  | publicAccess
  | privateAccess
  | protectedAccess
  | static
  | readonly
  deriving DecidableEq, Repr

namespace Modifier

def all : List Modifier := [publicAccess, privateAccess, protectedAccess, static, readonly]

def keyword : Modifier → String
  | publicAccess => "public"
  | privateAccess => "private"
  | protectedAccess => "protected"
  | static => "static"
  | readonly => "readonly"

def ofKeyword? (word : String) : Option Modifier := all.find? fun m => m.keyword == word

def bit : Modifier → UInt8
  | publicAccess => 1
  | privateAccess => 2
  | protectedAccess => 4
  | static => 8
  | readonly => 16

theorem bit_lt (m : Modifier) : m.bit < 32 := by
  cases m <;> decide

end Modifier

/-- A set of modifiers as a mask, in which no bit stands for nothing. -/
structure Modifiers where
  mask : UInt8
  known : mask < 32
  deriving DecidableEq, Repr

namespace Modifiers

def empty : Modifiers := ⟨0, by decide⟩

def has (s : Modifiers) (m : Modifier) : Bool := s.mask &&& m.bit != 0

def insert (s : Modifiers) (m : Modifier) : Modifiers where
  mask := s.mask ||| m.bit
  known := by
    have left := UInt8.lt_iff_toNat_lt.mp s.known
    have right := UInt8.lt_iff_toNat_lt.mp m.bit_lt
    rw [UInt8.lt_iff_toNat_lt, UInt8.toNat_or]
    exact Nat.or_lt_two_pow (n := 5) left right

def ofList (members : List Modifier) : Modifiers := members.foldl insert empty

def toList (s : Modifiers) : List Modifier := Modifier.all.filter s.has

/-- Members are public unless they are marked private or protected. -/
def isPublic (s : Modifiers) : Bool := !s.has .privateAccess && !s.has .protectedAccess

end Modifiers

end NamingLint.Syntax
