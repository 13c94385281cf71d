import NamingLint.Concrete.Table
import NamingLint.FileSystem
import NamingLint.Parser

/-! Concrete trees that are kept beside the sources.

The tree of a source is in a file whose name is that of the source with `.cst` behind it. -/

namespace NamingLint.Cli

open FileSystem (Entry)

def treeEnding : String := ".cst"

def textIn (entries : List (String × Entry)) (name : String) : Option String :=
  match entries.lookup name with
  | some (.file content) => String.fromUTF8? content
  | _ => none

/-- The text of the entry with the given name and the tree beside it, if the entry is a source with one
of the given extensions. -/
def treeBeside? (extensions : List String) (entries : List (String × Entry)) (name : String) :
    Option (String × Concrete.Node) := do
  if !(⟨name⟩ : Path).hasExtensionIn extensions then none
  return (← textIn entries name, ← Concrete.Node.parse? (← textIn entries (name ++ treeEnding)))

mutual

def treesIn (extensions : List String) : Entry → List (String × Concrete.Node)
  | .file _ => []
  | .folder entries =>
    (entries.filterMap fun entry => treeBeside? extensions entries entry.1)
      ++ treesInAll extensions entries

def treesInAll (extensions : List String) : List (String × Entry) → List (String × Concrete.Node)
  | [] => []
  | (_, entry) :: entries => treesIn extensions entry ++ treesInAll extensions entries

end

def grammarOf (fs : FileSystem) (extensions : List String) : Grammar :=
  let trees := treesIn extensions fs.top
  fun source => trees.lookup source

def parsersOf (fs : FileSystem) : List Parser :=
  [.typescript (grammarOf fs [".ts"]), .tsx (grammarOf fs [".tsx"])]

end NamingLint.Cli
