import NamingLint.Cli.Failure
import NamingLint.Config
import NamingLint.FileSystem

/-! Where the configuration of a run comes from. -/

namespace NamingLint.Cli

structure Environment where
  workingDirectory : Path
  home : Option Path
  /-- The folder of the global configuration, if it is not the usual one. -/
  configDirectory : Option Path
  deriving DecidableEq, Repr

def Environment.locate (env : Environment) (path : Path) : Path := env.workingDirectory.join path

inductive ConfigError where
  | io (path : Path) (error : IoError)
  | parse (source : String) (error : Toml.Error)

namespace ConfigError

def message : ConfigError → String
  | io path error => "Failed to read config file " ++ path.text ++ ": " ++ error.message
  | parse source error => "Failed to parse config: " ++ error.render source

def cause? : ConfigError → Option String
  | io _ error => some error.message
  | parse .. => none

end ConfigError

inductive ConfigSource where
  | explicit (path : Path)
  | project (path : Path)
  | global (path : Path)
  | builtIn
  deriving DecidableEq, Repr

def projectConfig : String := "egret-lint.toml"

def projectConfigs : List String := [projectConfig, "." ++ projectConfig]

def globalFolder? (env : Environment) : Option Path :=
  env.configDirectory.or (env.home.map fun home => home.join ⟨".egret-lint"⟩)

namespace ConfigSource

/-- The first of: the given file, a file of the project, the global file. A given file is taken even if
it does not exist. -/
def find (env : Environment) (fs : FileSystem) (project : Path) (given : Option Path) : ConfigSource :=
  let isFile (path : Path) : Bool := fs.isFile (env.locate path)
  match given with
  | some path => .explicit path
  | none =>
    match (projectConfigs.map fun name => project.join ⟨name⟩).find? isFile with
    | some path => .project path
    | none =>
      match ((globalFolder? env).map fun folder => folder.join ⟨"config.toml"⟩).filter isFile with
      | some path => .global path
      | none => .builtIn

def path? : ConfigSource → Option Path
  | explicit path | project path | global path => some path
  | builtIn => none

def read (env : Environment) (reader : Toml.Reader) (fs : FileSystem) (path : Path) :
    Except ConfigError Config := do
  let source ← (fs.readText (env.locate path)).mapError (.io path)
  (Config.parse reader source).mapError (.parse source)

def load (env : Environment) (reader : Toml.Reader) (fs : FileSystem) (source : ConfigSource) :
    Except Failure Config :=
  match source.path? with
  | none => .ok .default
  | some path =>
    (read env reader fs path).mapError fun error =>
      ⟨"Failed to load config: " ++ path.text, error.message :: error.cause?.toList⟩

end ConfigSource

end NamingLint.Cli
