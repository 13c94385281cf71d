import NamingLint.Path

/-! File systems as values.

A folder lists its entries by name. Looking up a path follows its parts from the top folder, and every
part but the last has to be a folder. -/

namespace NamingLint

inductive IoError where
  | notFound
  | notADirectory
  | isADirectory
  | invalidText
  deriving DecidableEq, Repr

def IoError.message : IoError → String
  | notFound => "No such file or directory (os error 2)"
  | notADirectory => "Not a directory (os error 20)"
  | isADirectory => "Is a directory (os error 21)"
  | invalidText => "stream did not contain valid UTF-8"

namespace FileSystem

inductive Entry where
  | file (content : ByteArray)
  | folder (entries : List (String × Entry))

def Entry.empty : Entry := .folder []

def Entry.child? (entry : Entry) (name : String) : Except IoError Entry :=
  match entry with
  | .file _ => .error .notADirectory
  | .folder entries =>
    match entries.lookup name with
    | some child => .ok child
    | none => .error .notFound

def Entry.follow (entry : Entry) : List String → Except IoError Entry
  | [] => .ok entry
  | name :: names => do (← entry.child? name).follow names

def replaceIn (entries : List (String × Entry)) (name : String) (entry : Entry) :
    List (String × Entry) :=
  if entries.any fun e => e.1 == name then
    entries.map fun e => if e.1 == name then (name, entry) else e
  else entries ++ [(name, entry)]

/-- Puts an entry at the end of a way of names, and makes the folders that are missing on it. Files on
the way give place to folders. -/
def Entry.place (new : Entry) : List String → Entry → Entry
  | [], _ => new
  | name :: names, old =>
    let entries := match old with
      | .folder entries => entries
      | .file _ => []
    .folder (replaceIn entries name (new.place names ((entries.lookup name).getD .empty)))

def Entry.remove : List String → Entry → Entry
  | _, .file content => .file content
  | [], entry => entry
  | [name], .folder entries => .folder (entries.filter fun e => e.1 != name)
  | name :: names, .folder entries =>
    .folder (match entries.lookup name with
      | some child => replaceIn entries name (Entry.remove names child)
      | none => entries)

end FileSystem

structure FileSystem where
  top : FileSystem.Entry

namespace FileSystem

def step (fs : FileSystem) (names : List String) (part : String) : Except IoError (List String) := do
  match ← fs.top.follow names with
  -- Even a part that counts for nothing asks for a folder.
  | .file _ => throw .notADirectory
  | .folder entries =>
    if Path.isIdle part then return names
    else if part = ".." then return names.dropLast
    else if (entries.lookup part).isSome then return names ++ [part]
    else throw .notFound

/-- The names that lead to an absolute path, with every `..` resolved. -/
def resolve (fs : FileSystem) (p : Path) : Except IoError (List String) :=
  p.anatomy.2.foldlM fs.step []

def entry (fs : FileSystem) (p : Path) : Except IoError Entry := do
  fs.top.follow (← fs.resolve p)

def isFile (fs : FileSystem) (p : Path) : Bool :=
  match fs.entry p with
  | .ok (.file _) => true
  | _ => false

def contains (fs : FileSystem) (p : Path) : Bool := (fs.entry p).isOk

def readText (fs : FileSystem) (p : Path) : Except IoError String := do
  match ← fs.entry p with
  | .folder _ => throw .isADirectory
  | .file content =>
    match String.fromUTF8? content with
    | some text => return text
    | none => throw .invalidText

def splitLast (p : Path) : Path × String :=
  match p.anatomy.2.getLast? with
  | some name => (⟨"/" ++ Path.joinParts p.anatomy.2.dropLast⟩, name)
  | none => (p, "")

def writeText (fs : FileSystem) (p : Path) (text : String) : Except IoError FileSystem := do
  let (folder, name) := splitLast p
  let names ← fs.resolve folder
  match ← fs.top.follow names with
  | .file _ => throw .notADirectory
  | .folder entries =>
    if Path.isIdle name || name == ".." then throw .isADirectory
    match entries.lookup name with
    | some (.folder _) => throw .isADirectory
    | _ => return ⟨(Entry.file text.toUTF8).place (names ++ [name]) fs.top⟩

end FileSystem

end NamingLint
