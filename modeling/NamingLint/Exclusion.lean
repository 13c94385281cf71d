import NamingLint.Glob
import NamingLint.Text.Layout

/-! Patterns of files that are left out.

A path is left out if a pattern matches it as a glob, or if it holds the text of a pattern without the
double stars. -/

namespace NamingLint

structure Exclusion where
  pattern : String
  glob : Glob
  deriving DecidableEq, Repr

namespace Exclusion

def parse (pattern : String) : Except Glob.Error Exclusion := do
  return ⟨pattern, ← Glob.parse pattern⟩

def dropDoubleStars : List Char → List Char
  | '*' :: '*' :: rest => dropDoubleStars rest
  | c :: rest => c :: dropDoubleStars rest
  | [] => []

/-- Whether a path holds what is left of a pattern without its double stars. Nothing and a lone slash
do not count. -/
def holdsText (pattern path : String) : Bool :=
  let core := dropDoubleStars pattern.toList
  !core.isEmpty && core != ['/'] && Text.isInfixOf core path.toList

def excludes (e : Exclusion) (path : String) : Bool :=
  e.glob.matchesPath path || holdsText e.pattern path

end Exclusion

end NamingLint
