/-! Command lines.

A command line is read in order, and the first argument that asks for help or is wrong decides. Each
command takes options of its own beside those that all take. -/

namespace NamingLint.Cli

inductive Format where
  | text
  | json
  | compact
  deriving DecidableEq, Repr

def Format.ofName? : String → Option Format
  | "text" => some .text
  | "json" => some .json
  | "compact" => some .compact
  | _ => none

inductive Command where
  | check (path : Option String) (format : Format) (excludes : List String)
  | listRules
  | init (force : Bool)
  deriving DecidableEq, Repr

structure Invocation where
  verbose : Bool
  config : Option String
  command : Command
  deriving DecidableEq, Repr

inductive Refusal where
  | help
  | version
  | usage
  deriving DecidableEq, Repr

inductive Switch where
  | verbose
  | config
  | format
  | exclude
  | force
  | help
  | version
  deriving DecidableEq, Repr

namespace Switch

def longName : Switch → String
  | verbose => "verbose"
  | config => "config"
  | format => "format"
  | exclude => "exclude"
  | force => "force"
  | help => "help"
  | version => "version"

def shortName? : Switch → Option Char
  | verbose => some 'v'
  | config => some 'c'
  | format => some 'f'
  | exclude => some 'e'
  | force => none
  | help => some 'h'
  | version => some 'V'

def takesValue : Switch → Bool
  | config | format | exclude => true
  | verbose | force | help | version => false

def repeats : Switch → Bool
  | exclude => true
  | _ => false

def allows (value : String) : Switch → Bool
  | config => value != ""
  | format => (Format.ofName? value).isSome
  | _ => true

end Switch

inductive Mention where
  | flag (option : Switch)
  | setting (option : Switch) (value : String)
  | word (text : String)
  | wrong
  deriving DecidableEq, Repr

structure Reading where
  mentions : List Mention
  pending : Option Switch

def readLong (options : List Switch) (text : List Char) : Reading :=
  let name := String.ofList (text.takeWhile (· != '='))
  match options.find? fun option => option.longName == name, text.dropWhile (· != '=') with
  | none, _ => ⟨[.wrong], none⟩
  | some option, [] => if option.takesValue then ⟨[], some option⟩ else ⟨[.flag option], none⟩
  | some option, _ :: value =>
    ⟨[if option.takesValue then .setting option (String.ofList value) else .wrong], none⟩

def attached : List Char → String
  | '=' :: value => String.ofList value
  | value => String.ofList value

/-- The letters behind a single hyphen. The first that takes a value takes all that follows it. -/
def readShort (options : List Switch) : List Char → Reading
  | [] => ⟨[], none⟩
  | letter :: rest =>
    match options.find? fun option => option.shortName? == some letter with
    | none => ⟨[.wrong], none⟩
    | some option =>
      if !option.takesValue then
        let reading := readShort options rest
        { reading with mentions := .flag option :: reading.mentions }
      else if rest.isEmpty then ⟨[], some option⟩
      else ⟨[.setting option (attached rest)], none⟩

def isWord (argument : String) : Bool :=
  match argument.toList with
  | '-' :: _ :: _ => false
  | _ => true

def readArgument (options : List Switch) (argument : String) : Reading :=
  match argument.toList with
  | '-' :: '-' :: text => readLong options text
  | '-' :: letter :: letters => readShort options (letter :: letters)
  | _ => ⟨[.word argument], none⟩

/-- What arguments say, and those that are left. If `untilWord` holds, the first word and all behind it
are left. Behind two hyphens alone there are only words. -/
def read (options : List Switch) (untilWord : Bool) : List String → List Mention × List String
  | [] => ([], [])
  | argument :: arguments =>
    if argument = "--" then
      (arguments.map (if untilWord then fun _ => .wrong else .word), [])
    else if untilWord && isWord argument then ([], argument :: arguments)
    else
      let reading := readArgument options argument
      match reading.pending, arguments with
      | none, arguments =>
        let rest := read options untilWord arguments
        (reading.mentions ++ rest.1, rest.2)
      | some _, [] => (reading.mentions ++ [.wrong], [])
      | some option, value :: arguments =>
        if isWord value then
          let rest := read options untilWord arguments
          (reading.mentions ++ .setting option value :: rest.1, rest.2)
        else (reading.mentions ++ [.wrong], [])

structure Given where
  flags : List Switch
  settings : List (Switch × String)
  words : List String

namespace Given

def empty : Given := ⟨[], [], []⟩

def value? (given : Given) (option : Switch) : Option String := given.settings.lookup option

def values (given : Given) (option : Switch) : List String :=
  (given.settings.filter fun setting => setting.1 == option).map Prod.snd

/-- Takes in a mention. At most `capacity` words are given, and none of them is empty. -/
def add (capacity : Nat) (given : Given) : Mention → Except Refusal Given
  | .flag .help => .error .help
  | .flag .version => .error .version
  | .flag option =>
    if given.flags.contains option then .error .usage
    else .ok { given with flags := given.flags ++ [option] }
  | .setting option value =>
    if !option.repeats && (given.value? option).isSome || !option.allows value then .error .usage
    else .ok { given with settings := given.settings ++ [(option, value)] }
  | .word text =>
    if given.words.length < capacity ∧ text ≠ "" then .ok { given with words := given.words ++ [text] }
    else .error .usage
  | .wrong => .error .usage

end Given

def topOptions : List Switch := [.verbose, .config, .help, .version]

def commandOptions? : String → Option (List Switch × Nat)
  | "check" => some ([.verbose, .config, .format, .exclude, .help], 1)
  | "list-rules" => some ([.verbose, .config, .help], 0)
  | "init" => some ([.verbose, .config, .force, .help], 0)
  | _ => none

def commandOf (name : String) (given : Given) : Command :=
  match name with
  | "check" =>
    .check given.words.head? ((given.value? .format).bind Format.ofName? |>.getD .text)
      (given.values .exclude)
  | "init" => .init (given.flags.contains .force)
  | _ => .listRules

def helpOn : List String → Refusal
  | [] => .help
  | [name] => if (commandOptions? name).isSome || name == "help" then .help else .usage
  | _ => .usage

/-- Reads the arguments of a command. Options in front of it count too, unless it has its own. -/
def readCommand (top : Given) (name : String) (arguments : List String) : Except Refusal Invocation :=
  match commandOptions? name with
  | none => .error .usage
  | some (options, capacity) => do
    let given ← (read options false arguments).1.foldlM (Given.add capacity) Given.empty
    return {
      verbose := top.flags.contains .verbose || given.flags.contains .verbose
      config := (given.value? .config).or (top.value? .config)
      command := commandOf name given }

def parse (arguments : List String) : Except Refusal Invocation := do
  let (mentions, rest) := read topOptions true arguments
  let top ← mentions.foldlM (Given.add 0) Given.empty
  match rest with
  | [] => throw .usage
  | "help" :: names => throw (helpOn names)
  | name :: arguments => readCommand top name arguments

end NamingLint.Cli
