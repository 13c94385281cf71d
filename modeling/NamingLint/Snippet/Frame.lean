import NamingLint.Snippet.Line
import NamingLint.Text.Characters

/-! A source in a frame, with a label at one of its spans. -/

namespace NamingLint.Snippet

def tabWidth : Nat := 4

/-- Characters with the columns that each takes. A tab goes to the next multiple of the tab width, and
what a terminal takes for a command takes no column. -/
def measure (column : Nat) (inCommand : Bool) : List Char → List (Char × Nat)
  | [] => []
  | c :: cs =>
    if inCommand then (c, 0) :: measure column (c != 'm') cs
    else if c = '\x1b' then (c, 0) :: measure column true cs
    else
      let width := if c = '\t' then tabWidth - column % tabWidth else Text.columns c
      (c, width) :: measure (column + width) false cs

def width (text : List Char) : Nat := ((measure 0 false text).map Prod.snd).foldl (· + ·) 0

def expandTabs (text : List Char) : String :=
  String.join ((measure 0 false text).map fun (c, width) =>
    if c = '\t' then Text.blanks width else String.singleton c)

def takeWithin (n : Nat) : List Char → List Char
  | [] => []
  | c :: cs => if c.utf8Size ≤ n then c :: takeWithin (n - c.utf8Size) cs else []

def columnOf (line : Line) (offset : Nat) : Nat :=
  let index := offset - line.offset
  -- All offsets behind the text share the column behind it.
  width (takeWithin index line.text) + (if Text.byteLength line.text < index then 1 else 0)

def repeated (n : Nat) (c : Char) : String := String.ofList (List.replicate n c)

def marks (line : Line) (span : Span) (label : String) : List String :=
  let start := columnOf line span.offset
  let stop := if span.width = 0 then start + 1 else max (columnOf line span.stop) (start + 1)
  let middle := (start + stop) / 2
  let tip := if span.width = 0 then "^" else "|"
  [Text.blanks start ++ repeated (middle - start) '^' ++ tip ++ repeated (stop - middle - 1) '^',
    Text.blanks middle ++ "`-- " ++ label]

def gutter (line : Line) (span : Span) : String :=
  if !line.touches span then "    "
  else if line.opens span then ",-> "
  else if line.closes span then "|-> "
  else "|   "

def lineRows (digits : Nat) (gutters : Bool) (span : Span) (label : String) (line : Line) :
    List String :=
  let side := " " ++ Text.blanks digits ++ " : "
  let border := " " ++ Text.alignRight digits (toString line.number) ++ " | "
  let text := border ++ (if gutters then gutter line span else "") ++ expandTabs line.text
  let below :=
    if !line.touches span then []
    else if line.holds span then marks line span label
    else if line.closes span && !line.opens span then ["`---- " ++ label]
    else []
  text :: below.map (side ++ ·)

/-- What is shown of a source: a heading, and a label at a span of it. -/
structure Diagnostic where
  name : String
  source : String
  heading : String
  label : String
  span : Span
  deriving DecidableEq, Repr

abbrev Renderer := Diagnostic → Option String

def frameAround (name source heading label : String) (span : Span) : String :=
  let lines := lines source.toList span
  let digits := ((lines.getLast?.map fun line => toString line.number).getD "0").length
  let gutters := lines.any fun line => line.touches span && !line.holds span
  let start := startOf source.toList span
  let margin := Text.blanks (digits + 2)
  let place := name ++ ":" ++ toString start.1 ++ ":" ++ toString start.2
  let rows := ["  x " ++ heading, margin ++ ",-[" ++ place ++ "]"]
    ++ lines.flatMap (lineRows digits gutters span label) ++ [margin ++ "`----"]
  String.join (rows.map (· ++ "\n"))

/-- Only a span inside the source can be shown. -/
def frame : Renderer := fun d =>
  if d.span.stop ≤ Text.byteLength d.source.toList then
    some (frameAround d.name d.source d.heading d.label d.span)
  else none

end NamingLint.Snippet
