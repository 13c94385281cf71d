import NamingLint.Text.Bytes
import NamingLint.Text.Characters

/-! Patterns of ignore files.

A pattern is matched against the bytes of a path below the folder of its file. Stars and question marks
stop at slashes, braces hold alternatives, and double stars between slashes stand for folders. -/

namespace NamingLint.Ignore

inductive Token where
  | byte (b : UInt8)
  | anyByte
  | anyBytes
  /-- Double stars in front: any number of folders. -/
  | leadingFolders
  /-- Double stars between slashes: the slash, or folders between two. -/
  | innerFolders
  /-- Double stars at the end: all that is inside a folder. -/
  | trailing
  | within (negated : Bool) (members : List (UInt8 × UInt8))
  | alternatives (choices : List (List Token))

def slash : UInt8 := 47

def Token.isLeading : Token → Bool
  | leadingFolders => true
  | _ => false

def Token.isTrailing : Token → Bool
  | trailing => true
  | _ => false

/-- A group of alternatives that is still open: the finished ones and the tokens before it, both
backwards. -/
structure Group where
  choices : List (List Token)
  before : List Token

def literalTokens (c : Char) : List Token := (Text.bytes [c]).reverse.map Token.byte

/-- A range of characters as ranges of bytes. Between characters of several bytes only the bytes that
meet make a range. -/
def byteRanges (low high : Char) : List (UInt8 × UInt8) :=
  let ends (c : Char) := (Text.bytes [c]).map fun b => (b, b)
  if low = high then ends low
  else
    match (Text.bytes [low]).getLast?, Text.bytes [high] with
    | some last, first :: others =>
      (ends low).dropLast ++ [(last, first)] ++ others.map fun b => (b, b)
    | _, _ => []

/-- Members of a class up to its closing bracket, and the text behind it. `ranging` says that a hyphen
was read, so that the next character ends a range from the last member on. -/
def readMembers (found : List (Char × Char)) (ranging first : Bool) :
    List Char → Option (List (Char × Char) × List Char)
  | [] => none
  | c :: rest =>
    if c = ']' ∧ !first then
      some (if ranging then found ++ [('-', '-')] else found, rest)
    else if ranging then
      match found.getLast? with
      | some (low, _) =>
        if c < low then none else readMembers (found.dropLast ++ [(low, c)]) false false rest
      | none => none
    else if c = '-' ∧ !first then readMembers found true false rest
    else readMembers (found ++ [(c, c)]) false false rest

def readClass : List Char → Option (Token × List Char)
  | c :: rest =>
    let negated := c == '!' || c == '^'
    (readMembers [] false true (if negated then rest else c :: rest)).map fun (members, rest) =>
      (.within negated (members.flatMap fun range => byteRanges range.1 range.2), rest)
  | [] => none

def readDoubleStar (previous : Option Char) (inGroup : Bool) (tokens : List Token)
    (rest : List Char) : List Token × List Char :=
  let plain := (.anyBytes :: tokens, rest)
  match tokens, rest with
  | [], [] => ([.leadingFolders], [])
  | [], '/' :: rest => ([.leadingFolders], rest)
  | [], _ => plain
  | last :: before, rest =>
    if previous != some '/' then plain
    else
      let inside (token : Token) : List Token :=
        if last.isLeading || last.isTrailing then last :: before else token :: before
      match rest with
      | [] => (inside .trailing, [])
      | c :: after =>
        if c = '/' then (inside .innerFolders, after)
        else if inGroup && (c == ',' || c == '\x7d') then (inside .trailing, rest)
        else plain

def readTokens : Nat → Option Char → List Token → List Group → List Char → Option (List Token)
  | 0, _, _, _, _ => none
  | _ + 1, _, tokens, groups, [] => if groups.isEmpty then some tokens.reverse else none
  | fuel + 1, previous, tokens, groups, c :: rest =>
    match c, groups with
    | '?', _ => readTokens fuel (some c) (.anyByte :: tokens) groups rest
    | '[', _ =>
      match readClass rest with
      | some (token, rest) => readTokens fuel (some ']') (token :: tokens) groups rest
      | none => none
    | '\x7b', _ => readTokens fuel (some c) [] (⟨[], tokens⟩ :: groups) rest
    | '\x7d', [] => none
    | '\x7d', group :: groups =>
      let choices := (tokens.reverse :: group.choices).reverse
      readTokens fuel (some c) (.alternatives choices :: group.before) groups rest
    | ',', group :: groups =>
      readTokens fuel (some c) [] (⟨tokens.reverse :: group.choices, group.before⟩ :: groups) rest
    | '\\', _ =>
      match rest with
      | [] => none
      | c :: rest => readTokens fuel (some c) (literalTokens c ++ tokens) groups rest
    | '*', _ =>
      match rest with
      | '*' :: rest =>
        let (tokens, after) := readDoubleStar previous (!groups.isEmpty) tokens rest
        let last := if after.length < rest.length then '/' else '*'
        readTokens fuel (some last) tokens groups after
      | rest => readTokens fuel (some c) (.anyBytes :: tokens) groups rest
    | c, _ => readTokens fuel (some c) (literalTokens c ++ tokens) groups rest

def tokenize? (pattern : List Char) : Option (List Token) :=
  readTokens (pattern.length + 1) none [] [] pattern

def someSuffix (test : List UInt8 → Bool) : List UInt8 → Bool
  | [] => test []
  | b :: bs => test (b :: bs) || someSuffix test bs

def someFolderSuffix (test : List UInt8 → Bool) : List UInt8 → Bool
  | [] => false
  | b :: bs => (b == slash && test bs) || someFolderSuffix test bs

def somePartSuffix (test : List UInt8 → Bool) : List UInt8 → Bool
  | [] => test []
  | b :: bs => test (b :: bs) || (b != slash && somePartSuffix test bs)

def oneByte (accepts : UInt8 → Bool) (test : List UInt8 → Bool) : List UInt8 → Bool
  | [] => false
  | b :: bs => accepts b && test bs

mutual

def Token.isVoid : Token → Bool
  | .alternatives choices => Token.choicesVoid choices
  | _ => false

def Token.areVoid : List Token → Bool
  | [] => true
  | token :: tokens => Token.isVoid token && Token.areVoid tokens

def Token.choicesVoid : List (List Token) → Bool
  | [] => true
  | choice :: choices => Token.areVoid choice && Token.choicesVoid choices

end

mutual

def Token.takes (test : List UInt8 → Bool) (path : List UInt8) : Token → Bool
  | .byte b => oneByte (· == b) test path
  | .anyByte => oneByte (· != slash) test path
  | .anyBytes => somePartSuffix test path
  | .leadingFolders => test path || someFolderSuffix test path
  | .innerFolders =>
    oneByte (· == slash) (fun rest => test rest || someFolderSuffix test rest) path
  | .trailing => oneByte (· == slash) (someSuffix test) path
  | .within negated members =>
    oneByte (fun b => members.any (fun range => decide (range.1 ≤ b) && decide (b ≤ range.2)) != negated)
      test path
  | .alternatives choices =>
    if Token.choicesVoid choices then test path else Token.someTakes test path choices

def Token.allTake (test : List UInt8 → Bool) (path : List UInt8) : List Token → Bool
  | [] => test path
  | token :: tokens => Token.takes (fun rest => Token.allTake test rest tokens) path token

def Token.someTakes (test : List UInt8 → Bool) (path : List UInt8) : List (List Token) → Bool
  | [] => false
  | choice :: choices =>
    -- An alternative without any text does not count.
    (!Token.areVoid choice && Token.allTake test path choice) || Token.someTakes test path choices

end

def matchTokens (tokens : List Token) (path : List UInt8) : Bool :=
  match tokens with
  | [.leadingFolders] => true
  | tokens => Token.allTake List.isEmpty path tokens

structure Pattern where
  tokens : List Token
  /-- Whether a match takes a path out of those that are ignored. -/
  restores : Bool
  foldersOnly : Bool

/-- The text of a pattern without its marks, whether it restores paths, and whether it is tied to the
folder of its file. -/
def readMarks : List Char → Bool × Bool × List Char
  | '\\' :: '!' :: rest => (false, false, '!' :: rest)
  | '\\' :: '#' :: rest => (false, false, '#' :: rest)
  | '!' :: '/' :: rest => (true, true, rest)
  | '!' :: rest => (true, false, rest)
  | '/' :: rest => (false, true, rest)
  | line => (false, false, line)

def cutSlash (line : List Char) : Bool × List Char :=
  match line.reverse with
  | '/' :: '\\' :: rest => (true, rest.reverse)
  | '/' :: rest => (true, rest.reverse)
  | _ => (false, line)

def anchor (tied : Bool) (line : List Char) : List Char :=
  if tied || line.contains '/' || line == ['*', '*'] then line else "**/".toList ++ line

/-- Double stars at the end stand for what is inside a folder, not for the folder. -/
def insideOnly (line : List Char) : List Char :=
  if "/**".toList.isSuffixOf line then line ++ "/*".toList else line

/-- Blanks at the end of a line do not count, unless the last of them is escaped. -/
def trimLine (line : List Char) : List Char :=
  if "\\ ".toList.isSuffixOf line then line else Text.trimEnd line

def Pattern.ofLine? (line : List Char) : Option Pattern :=
  if line.head? = some '#' ∨ trimLine line = [] then none
  else
    let (restores, tied, text) := readMarks (trimLine line)
    let (foldersOnly, text) := cutSlash text
    (tokenize? (insideOnly (anchor tied text))).map fun tokens => ⟨tokens, restores, foldersOnly⟩

def Pattern.applies (pattern : Pattern) (path : List UInt8) (isFolder : Bool) : Bool :=
  (isFolder || !pattern.foldersOnly) && matchTokens pattern.tokens path

end NamingLint.Ignore
