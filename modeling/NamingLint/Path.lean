/-! File paths as text.

A path is read as a list of components: empty parts and `.` parts count for nothing, except that a
leading `.` is kept. -/

namespace NamingLint

structure Path where
  text : String
  deriving DecidableEq, Repr

namespace Path

inductive Component where
  | root
  | current
  | parent
  | normal (name : String)
  deriving DecidableEq, Repr

inductive Anchor where
  | root
  | current
  | free
  deriving DecidableEq, Repr

def splitParts (text : List Char) : List String := (text.splitOn '/').map String.ofList

def joinParts (parts : List String) : String := String.ofList (['/'].intercalate (parts.map String.toList))

def anatomy (p : Path) : Anchor × List String :=
  match p.text.toList with
  | '/' :: rest => (.root, splitParts rest)
  | cs =>
    match splitParts cs with
    | "." :: parts => (.current, parts)
    | parts => (.free, parts)

def isIdle (part : String) : Bool := part == "" || part == "."

def component? (part : String) : Option Component :=
  if isIdle part then none else if part = ".." then some .parent else some (.normal part)

def Anchor.components : Anchor → List Component
  | .root => [.root]
  | .current => [.current]
  | .free => []

def components (p : Path) : List Component :=
  p.anatomy.1.components ++ p.anatomy.2.filterMap component?

def isAbsolute (p : Path) : Bool := p.text.toList.head? == some '/'

/-- Puts `q` behind `p`, or takes `q` alone if it is absolute. -/
def join (p q : Path) : Path :=
  if q.isAbsolute then q
  else if p.text.isEmpty || p.text.toList.getLast? == some '/' then ⟨p.text ++ q.text⟩
  else ⟨p.text ++ "/" ++ q.text⟩

/-- Drops the parts of a list that stand for the given components, none if they do not match. -/
def dropComponents : List Component → List String → Option (List String)
  | [], parts => some parts
  | _ :: _, [] => none
  | c :: cs, part :: parts =>
    match component? part with
    | none => dropComponents (c :: cs) parts
    | some d => if c = d then dropComponents cs parts else none

def trimEnd (parts : List String) : List String := (parts.reverse.dropWhile isIdle).reverse

def trimmedText (parts : List String) : String := joinParts (trimEnd (parts.dropWhile isIdle))

def trimEndText (p : Path) : String :=
  match p.anatomy with
  | (.root, parts) => "/" ++ joinParts (trimEnd parts)
  | (.current, parts) => joinParts ("." :: trimEnd parts)
  | (.free, parts) => joinParts (trimEnd parts)

/-- The rest of a path below `base`, if the components of `base` start those of the path. The parts
in the middle of the rest stay as they are written. -/
def relativeTo? (p base : Path) : Option Path :=
  match base.components, p.anatomy with
  | [], _ => some ⟨p.trimEndText⟩
  | c :: cs, (anchor, parts) =>
    let rest :=
      match anchor, c with
      | .root, .root => dropComponents cs parts
      | .current, .current => dropComponents cs parts
      | .free, _ => dropComponents (c :: cs) parts
      | _, _ => none
    rest.map fun parts => ⟨trimmedText parts⟩

def relativeTo (p base : Path) : Path := (p.relativeTo? base).getD p

def fileName? (p : Path) : Option String :=
  match p.components.getLast? with
  | some (.normal name) => some name
  | _ => none

/-- The text behind the last dot of a file name. A dot in front of the name starts no extension. -/
def extensionOf? (name : String) : Option String :=
  let after := name.toList.reverse.takeWhile (· != '.')
  match name.toList.reverse.dropWhile (· != '.') with
  | _ :: _ :: _ => some (String.ofList after.reverse)
  | _ => none

def extension? (p : Path) : Option String := p.fileName?.bind extensionOf?

def hasExtensionIn (p : Path) (extensions : List String) : Bool :=
  match p.extension? with
  | some extension => extensions.contains ("." ++ extension)
  | none => false

namespace Component

def rank : Component → Nat
  | root => 0
  | current => 1
  | parent => 2
  | normal _ => 3

def name : Component → String
  | normal name => name
  | _ => ""

def compare (a b : Component) : Ordering :=
  (Ord.compare a.rank b.rank).then (Ord.compare a.name b.name)

end Component

def compare (p q : Path) : Ordering := List.compareLex Component.compare p.components q.components

def precedes (p q : Path) : Bool := p.compare q != .gt

def sort (paths : List Path) : List Path := paths.mergeSort precedes

end Path

end NamingLint
