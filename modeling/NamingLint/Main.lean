import NamingLint.Cli.Run
import NamingLint.Cli.Trees

/-! The command line program.

It reads the files that a run may ask for, runs the command line on them as a value, prints what comes of
it and writes the file that the run may have changed. -/

namespace NamingLint.Main

open FileSystem (Entry)

/-- Reads an entry of the disk with all that is below it. Links to folders are not followed. -/
partial def load (path : String) : IO (Option Entry) := do
  let target := (← IO.currentDir) / path
  if (← target.symlinkMetadata).type == .dir then
    let entries ← (← target.readDir).toList.filterMapM fun entry => do
      return (← load entry.path.toString).map fun child => (entry.fileName, child)
    return some (.folder entries)
  else if ← target.isDir then return none
  else return some (.file (← IO.FS.readBinFile target))

def fetch (fs : FileSystem) (path : Path) : IO FileSystem := do
  try
    let names := (Path.splitParts (← IO.FS.realPath path.text).toString.toList).filter (!Path.isIdle ·)
    match ← load ("/" ++ Path.joinParts names) with
    | some entry => return ⟨entry.place names fs.top⟩
    | none => return fs
  catch _ => return fs

def ignoreFilesAbove (path : Path) : List Path :=
  let names := (Path.splitParts path.text.toList).filter (!Path.isIdle ·)
  (List.range names.length).flatMap fun depth =>
    (Ignore.sources true).map fun source =>
      ⟨"/" ++ Path.joinParts (names.take depth ++ source.location)⟩

def pathsFor (env : Cli.Environment) (arguments : List String) : List Path :=
  let root := env.workingDirectory
  let given := match Cli.parse arguments with
    | .ok ⟨_, config, .check path _ _⟩ => (config.toList ++ path.toList).map fun p => env.locate ⟨p⟩
    | _ => []
  let folders := (Cli.globalFolder? env).toList.map fun folder => env.locate (folder.join ⟨"config.toml"⟩)
  root :: given ++ folders ++ (root :: given).flatMap ignoreFilesAbove

def save (env : Cli.Environment) (before after : FileSystem) : IO Unit := do
  let path := env.locate ⟨Cli.projectConfig⟩
  match after.readText path with
  | .ok text =>
    if (before.readText path).toOption != some text then IO.FS.writeFile path.text text
  | .error _ => return

def run (arguments : List String) : IO UInt32 := do
  let env : Cli.Environment :=
    { workingDirectory := ⟨(← IO.currentDir).toString⟩
      home := (← IO.getEnv "HOME").map Path.mk
      configDirectory := (← IO.getEnv "EGRET_LINT_CONFIG_DIR").map Path.mk }
  let fs ← (pathsFor env arguments).foldlM fetch ⟨.empty⟩
  let outcome := Cli.run env (.standard (Cli.parsersOf fs)) fs arguments
  outcome.logs.forM fun log => IO.eprintln log.line
  IO.print outcome.output
  outcome.failure.forM fun failure => IO.eprintln failure.report
  save env fs outcome.files
  return outcome.exitCode.toUInt32

end NamingLint.Main

def main (arguments : List String) : IO UInt32 := NamingLint.Main.run arguments
