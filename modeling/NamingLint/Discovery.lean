import NamingLint.Ignore.Level

/-! The entries below a root that are not ignored. -/

namespace NamingLint.Discovery

open FileSystem (Entry)
open Ignore (Source Level)

def isFolder : Entry → Bool
  | .folder _ => true
  | .file _ => false

mutual

def walkEntry (sources : List Source) (levels : List Level) (names : List String) (path : Path) :
    Entry → List Path
  | .file _ => [path]
  | .folder entries =>
    path :: walkEntries sources (.ofFolder names.length (.folder entries) :: levels) names path entries

def walkEntries (sources : List Source) (levels : List Level) (names : List String) (path : Path) :
    List (String × Entry) → List Path
  | [] => []
  | (name, entry) :: entries =>
    let found :=
      if Ignore.isIgnored sources levels (names ++ [name]) (isFolder entry) then []
      else walkEntry sources levels (names ++ [name]) (path.join ⟨name⟩) entry
    found ++ walkEntries sources levels names path entries

end

def levelsAbove (fs : FileSystem) (names : List String) : List Level :=
  (List.range names.length).reverse.filterMap fun depth =>
    match fs.top.follow (names.take depth) with
    | .ok folder => some (.ofFolder depth folder)
    | .error _ => none

/-- All entries below a root, folders included. The root itself is never ignored. -/
def walk (fs : FileSystem) (respectGitignore : Bool) (root : Path) : Except IoError (List Path) := do
  let names ← fs.resolve root
  let entry ← fs.top.follow names
  return walkEntry (Ignore.sources respectGitignore) (levelsAbove fs names) names root entry

end NamingLint.Discovery
