import NamingLint.FileSystem
import NamingLint.Ignore.Pattern

/-! Ignore files and what they say about a path.

Every folder can hold ignore files of three sources. A source with a better rank decides first, and
within a source the file in the deepest folder. Patterns that a user keeps for all folders are not looked
for. -/

namespace NamingLint.Ignore

inductive Source where
  | ignoreFile
  | gitignore
  | gitExclude
  deriving DecidableEq, Repr

def Source.location : Source → List String
  | ignoreFile => [".ignore"]
  | gitignore => [".gitignore"]
  | gitExclude => [".git", "info", "exclude"]

def sources (respectGitignore : Bool) : List Source :=
  if respectGitignore then [.ignoreFile, .gitignore, .gitExclude] else [.ignoreFile, .gitExclude]

inductive Verdict where
  | ignored
  | restored
  deriving DecidableEq, Repr

/-- The last pattern that applies to a path decides. -/
def verdict? (patterns : List Pattern) (path : List UInt8) (isFolder : Bool) : Option Verdict :=
  (patterns.reverse.find? fun pattern => pattern.applies path isFolder).map fun pattern =>
    if pattern.restores then .restored else .ignored

def cutReturn (line : List UInt8) : List UInt8 :=
  if line.getLast? = some 13 then line.dropLast else line

def byteLines (content : List UInt8) : List (List UInt8) :=
  let lines := content.splitOn 10
  lines.dropLast.map cutReturn ++ (lines.getLast?.filter (· != [])).toList

/-- The lines of a file before the first that is no text. -/
def textLines (content : ByteArray) : List (List Char) :=
  ((byteLines content.toList).map fun line => String.fromUTF8? ⟨line.toArray⟩)
    |>.takeWhile Option.isSome |>.filterMap id |>.map String.toList

def cutMarks : List (List Char) → List (List Char)
  | first :: lines => first.dropWhile (· == '\uFEFF') :: lines
  | [] => []

def patternsOf (content : ByteArray) : List Pattern :=
  (cutMarks (textLines content)).filterMap Pattern.ofLine?

def patternsIn (folder : FileSystem.Entry) (source : Source) : List Pattern :=
  match folder.follow source.location with
  | .ok (.file content) => patternsOf content
  | _ => []

structure Level where
  depth : Nat
  ignoreFile : List Pattern
  gitignore : List Pattern
  gitExclude : List Pattern

namespace Level

def ofFolder (depth : Nat) (folder : FileSystem.Entry) : Level where
  depth := depth
  ignoreFile := patternsIn folder .ignoreFile
  gitignore := patternsIn folder .gitignore
  gitExclude := patternsIn folder .gitExclude

def patterns (level : Level) : Source → List Pattern
  | .ignoreFile => level.ignoreFile
  | .gitignore => level.gitignore
  | .gitExclude => level.gitExclude

/-- What the patterns of a source say about the entry that `names` lead to. -/
def verdict? (level : Level) (names : List String) (isFolder : Bool) (source : Source) :
    Option Verdict :=
  Ignore.verdict? (level.patterns source)
    (Text.bytes (Path.joinParts (names.drop level.depth)).toList) isFolder

end Level

/-- Whether an entry is ignored. `levels` are those of the folders above it, deepest first. -/
def isIgnored (sources : List Source) (levels : List Level) (names : List String)
    (isFolder : Bool) : Bool :=
  (sources.findSome? fun source =>
    levels.findSome? fun level => level.verdict? names isFolder source) == some .ignored

end NamingLint.Ignore
