/-! Glob patterns over whole paths.

A question mark stands for any character, a star for any text, and both also for slashes. Two stars
between slashes stand for any number of folders. Brackets list characters and ranges of them, or with
an exclamation mark in front the characters that do not match. -/

namespace NamingLint

namespace Glob

inductive Token where
  | char (c : Char)
  | anyChar
  | anySequence
  | anyFolders
  | within (negated : Bool) (members : List (Char × Char))
  deriving DecidableEq, Repr

inductive Problem where
  | wildcards
  | recursiveWildcards
  | invalidRange
  deriving DecidableEq, Repr

structure Error where
  position : Nat
  problem : Problem
  deriving DecidableEq, Repr

def Problem.message : Problem → String
  | wildcards => "wildcards are either regular `*` or recursive `**`"
  | recursiveWildcards => "recursive wildcards must form a single path component"
  | invalidRange => "invalid range pattern"

def Error.message (e : Error) : String :=
  "Pattern syntax error near position " ++ toString e.position ++ ": " ++ e.problem.message

def readMembers : List Char → List (Char × Char)
  | low :: '-' :: high :: rest => (low, high) :: readMembers rest
  | c :: rest => (c, c) :: readMembers rest
  | [] => []

def splitClass (least : Nat) (cs : List Char) : Option (List Char × List Char) :=
  let head := cs.take least
  let tail := cs.drop least
  match tail.dropWhile (· != ']') with
  | [] => none
  | _ :: rest => some (head ++ tail.takeWhile (· != ']'), rest)

/-- The class that opens in front of the given text, and the text behind it. At least one member comes
before its closing bracket. -/
def readClass : List Char → Option (Token × List Char)
  | '!' :: rest => (splitClass 1 rest).map fun (members, rest) => (.within true (readMembers members), rest)
  | cs => (splitClass 1 cs).map fun (members, rest) => (.within false (readMembers members), rest)

/-- The text behind a run of stars, if the run can be one token. `previous` is the character before
the run. -/
def readStars (position : Nat) (previous : Option Char) (cs : List Char) :
    Except Error (Token × List Char) :=
  let count := (cs.takeWhile (· == '*')).length
  let rest := cs.dropWhile (· == '*')
  if 2 < count then .error ⟨position + 2, .wildcards⟩
  else if count = 2 then
    if previous = none ∨ previous = some '/' then
      match rest with
      | [] => .ok (.anyFolders, [])
      | '/' :: rest => .ok (.anyFolders, rest)
      | _ => .error ⟨position + 2, .recursiveWildcards⟩
    else .error ⟨position - 1, .recursiveWildcards⟩
  else .ok (.anySequence, rest)

def push (token : Token) (tokens : List Token) : List Token :=
  if token = .anyFolders ∧ tokens.head? = some .anyFolders then tokens else token :: tokens

def readTokens : Nat → Nat → Option Char → List Char → Except Error (List Token)
  | 0, _, _, _ => .ok []
  | _ + 1, _, _, [] => .ok []
  | fuel + 1, position, previous, c :: cs =>
    let go (token : Token) (rest : List Char) : Except Error (List Token) := do
      let taken := (c :: cs).length - rest.length
      let last := ((c :: cs).take taken).getLast?
      return push token (← readTokens fuel (position + taken) last rest)
    if c = '?' then go .anyChar cs
    else if c = '*' then do
      let (token, rest) ← readStars position previous (c :: cs)
      go token rest
    else if c = '[' then
      match readClass cs with
      | some (token, rest) => go token rest
      | none => .error ⟨position, .invalidRange⟩
    else go (.char c) cs

end Glob

structure Glob where
  tokens : List Glob.Token
  deriving DecidableEq, Repr

namespace Glob

/-- Reads a pattern. Every token takes a character, so the length of the pattern is enough fuel. -/
def parse (pattern : String) : Except Error Glob := do
  return ⟨← readTokens pattern.toList.length 0 none pattern.toList⟩

def Token.accepts (c : Char) : Token → Bool
  | char d => c == d
  | anyChar => true
  | within negated members =>
    (members.any fun range => decide (range.1 ≤ c) && decide (c ≤ range.2)) != negated
  | anySequence | anyFolders => false

def someSuffix (test : List Char → Bool) : List Char → Bool
  | [] => test []
  | c :: cs => test (c :: cs) || someSuffix test cs

def someFolderSuffix (test : List Char → Bool) : List Char → Bool
  | [] => false
  | c :: cs => (c == '/' && test cs) || someFolderSuffix test cs

/-- Whether tokens match a whole text. Folders are nothing, or any text that ends in a slash, or at the
end of a pattern any text. -/
def matchTokens : List Token → List Char → Bool
  | [], cs => cs.isEmpty
  | [.anyFolders], _ => true
  | .anySequence :: tokens, cs => someSuffix (matchTokens tokens) cs
  | .anyFolders :: tokens, cs => matchTokens tokens cs || someFolderSuffix (matchTokens tokens) cs
  | _ :: _, [] => false
  | token :: tokens, c :: cs => token.accepts c && matchTokens tokens cs

def matchesPath (glob : Glob) (path : String) : Bool := matchTokens glob.tokens path.toList

end Glob

end NamingLint
