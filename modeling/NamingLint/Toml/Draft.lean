import NamingLint.Toml.Value

/-! Tables while a document is read.

Each table remembers how it came about, because that decides what may still be added to it. -/

namespace NamingLint.Toml

/-- How a table came about. -/
inductive Origin where
  /-- From a header of its own. -/
  | header (span : Span)
  /-- From the header of a table inside it. -/
  | outer
  /-- From a dotted key. -/
  | dotted
  deriving DecidableEq, Repr

namespace Origin

def ofPath (dotted : Bool) : Origin := if dotted then .dotted else .outer

/-- Whether a path may lead through a table. A dotted key may not if the table has a header. -/
def admits (dotted : Bool) : Origin → Bool
  | .header _ => !dotted
  | .outer | .dotted => true

def span? : Origin → Option Span
  | .header span => some span
  | .outer | .dotted => none

end Origin

inductive Draft where
  | value (span : Span) (value : Value)
  | table (origin : Origin) (entries : List (Key × Draft))
  /-- The tables of an array, each from a header of its own. -/
  | tables (items : List (Span × List (Key × Draft)))

abbrev Draft.Entries := List (Key × Draft)

namespace Draft

def find? (entries : Entries) (key : Key) : Option Draft :=
  (entries.find? fun entry => entry.1.name == key.name).map Prod.snd

def replace (entries : Entries) (key : Key) (draft : Draft) : Entries :=
  entries.map fun entry => if entry.1.name == key.name then (entry.1, draft) else entry

def erase (entries : Entries) (key : Key) : Entries :=
  entries.filter fun entry => entry.1.name != key.name

/-- Follows a path of keys, making the tables that are missing, and changes the table at its end.
Below an array of tables the path goes on in its last one. -/
def descend (dotted : Bool) (change : Origin → Entries → Option Entries) :
    List Key → Origin → Entries → Option Entries
  | [], origin, entries => change origin entries
  | key :: path, _, entries =>
    match find? entries key with
    | none => do
      let origin := Origin.ofPath dotted
      let inner ← descend dotted change path origin []
      return entries ++ [(key, .table origin inner)]
    | some (.table origin inner) =>
      if origin.admits dotted then do
        let inner ← descend dotted change path origin inner
        return replace entries key (.table origin inner)
      else none
    | some (.tables items) =>
      match items.getLast? with
      | some (span, inner) => do
        let inner ← descend dotted change path (.header span) inner
        return replace entries key (.tables (items.dropLast ++ [(span, inner)]))
      | none => none
    | some (.value _ _) => none

/-- Adds an entry under a new key. A dotted key only adds to tables made by dotted keys. -/
def addEntry (dotted : Bool) (key : Key) (draft : Draft) (origin : Origin) (entries : Entries) :
    Option Entries :=
  if decide (origin = .dotted) != dotted then none
  else match find? entries key with
    | some _ => none
    | none => some (entries ++ [(key, draft)])

structure Assignment where
  path : List Key
  key : Key
  span : Span
  value : Value

def assign (origin : Origin) (entries : Entries) (a : Assignment) : Option Entries :=
  descend true (addEntry (!a.path.isEmpty) a.key (.value a.span a.value)) a.path origin entries

def assignAll (origin : Origin) (entries : Entries) (assignments : List Assignment) :
    Option Entries :=
  assignments.foldlM (assign origin) entries

/-- Fills the table of a header. A table that so far was only mentioned gets its entries and moves to
the end. -/
def openTable (span : Span) (key : Key) (assignments : List Assignment) (entries : Entries) :
    Option Entries := do
  let old ← match find? entries key with
    | none => some []
    | some (.table .outer inner) => some inner
    | some _ => none
  let inner ← assignAll (.header span) old assignments
  return erase entries key ++ [(key, .table (.header span) inner)]

def openItem (span : Span) (key : Key) (assignments : List Assignment) (entries : Entries) :
    Option Entries := do
  let inner ← assignAll (.header span) [] assignments
  match find? entries key with
  | none => return entries ++ [(key, .tables [(span, inner)])]
  | some (.tables items) => return replace entries key (.tables (items ++ [(span, inner)]))
  | some _ => none

def cover (first last : Span) : Span := .ofRange first.offset last.stop

mutual

def finish : Draft → Located
  | .value span content => (some span, content)
  | .table origin entries => (origin.span?, .table (finishEntries entries))
  | .tables items =>
    (match items.head?, items.getLast? with
      | some first, some last => some (cover first.1 last.1)
      | _, _ => none,
    .array (finishItems items))

def finishEntries : List (Key × Draft) → List (Key × Option Span × Value)
  | [] => []
  | (key, draft) :: entries => (key, finish draft) :: finishEntries entries

def finishItems : List (Span × List (Key × Draft)) → List (Option Span × Value)
  | [] => []
  | (span, entries) :: items => (some span, .table (finishEntries entries)) :: finishItems items

end

end Draft

end NamingLint.Toml
