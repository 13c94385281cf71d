import NamingLint.Parser
import NamingLint.Proofs.Concrete.Order

/-! Where a text that does not parse is said to be in error.

The search for the first fault leaves out what is not flagged. Where flags say what they should, it finds
what a search of the whole tree finds: the first fault in pre-order, tokens and comments included. -/

namespace NamingLint

namespace Concrete

def Label.isFault (label : Label) : Bool := label.isError || label.isMissing

namespace Node

mutual

def nodes : Node → List Node
  | .mk label parts => .mk label parts :: nodesOf parts

def nodesOf : List Node → List Node
  | [] => []
  | part :: parts => nodes part ++ nodesOf parts

end

theorem nodesOf_eq_flatMap (parts : List Node) : nodesOf parts = parts.flatMap nodes := by
  induction parts with
  | nil => rfl
  | cons part parts ih => rw [nodesOf, ih, List.flatMap_cons]

theorem nodes_eq (n : Node) : n.nodes = n :: n.children.flatMap nodes := by
  obtain ⟨label, parts⟩ := n
  rw [nodes, nodesOf_eq_flatMap]
  rfl

theorem mem_nodes_iff {n inner : Node} : inner ∈ n.nodes ↔ ∃ place, n.at? place = some inner := by
  induction n using Node.inductOn with
  | step label parts ih =>
      rw [nodes_eq, List.mem_cons, List.mem_flatMap]
      constructor
      · intro member
        rcases member with rfl | ⟨part, isPart, below⟩
        · exact ⟨[], at?_nil _⟩
        · obtain ⟨place, found⟩ := (ih part isPart).mp below
          obtain ⟨i, child⟩ := List.mem_iff_getElem?.mp isPart
          exact ⟨i :: place, by rw [at?_cons, child, Option.bind_some, found]⟩
      · intro placed
        obtain ⟨place, found⟩ := placed
        cases place with
        | nil =>
            rw [at?_nil, Option.some.injEq] at found
            exact Or.inl found.symm
        | cons i rest =>
            rw [at?_cons] at found
            obtain ⟨part, child, deeper⟩ := Option.bind_eq_some_iff.mp found
            have isPart := List.mem_of_getElem? child
            exact Or.inr ⟨part, isPart, (ih part isPart).mpr ⟨rest, deeper⟩⟩

theorem Everywhere.part {holds : Node → Prop} {n part : Node} (everywhere : n.Everywhere holds)
    (isPart : part ∈ n.children) : part.Everywhere holds := by
  intro place inner found
  obtain ⟨i, child⟩ := List.mem_iff_getElem?.mp isPart
  apply everywhere (i :: place)
  rw [at?_cons, child, Option.bind_some, found]

def firstFault? (n : Node) : Option Node := n.nodes.find? fun inner => inner.label.isFault

/-- Every node is flagged if it is a fault or has one below it, and only then. -/
def FlagsFaults (root : Node) : Prop :=
  root.Everywhere fun n => n.label.hasError = true ↔ ∃ inner ∈ n.nodes, inner.label.isFault = true

instance (root : Node) : Decidable root.FlagsFaults :=
  inferInstanceAs (Decidable (root.Everywhere fun n =>
    n.label.hasError = true ↔ ∃ inner ∈ n.nodes, inner.label.isFault = true))

theorem firstErrorOf?_eq {parts : List Node}
    (each : ∀ part ∈ parts, part.firstError? = part.firstFault?.map label) :
    firstErrorOf? parts = ((nodesOf parts).find? fun inner => inner.label.isFault).map label := by
  induction parts with
  | nil => rfl
  | cons part parts ih =>
      have others := ih fun other member => each other (List.mem_cons_of_mem _ member)
      rw [firstErrorOf?, each part List.mem_cons_self, others, nodesOf, List.find?_append]
      change _ = (part.firstFault?.or _).map label
      cases part.firstFault? with
      | none => rfl
      | some inner => rfl

/-- Leaving out what is not flagged misses no fault. -/
theorem firstError?_eq_firstFault? {n : Node} (flags : n.FlagsFaults) :
    n.firstError? = n.firstFault?.map label := by
  induction n using Node.inductOn with
  | step own parts ih =>
      have here := flags [] (.mk own parts) (at?_nil _)
      have below := firstErrorOf?_eq fun part isPart => ih part isPart (flags.part isPart)
      rw [firstError?, firstFault?, nodes]
      by_cases isFault : (Node.mk own parts).label.isFault = true
      · rw [List.find?_cons_of_pos (p := fun inner : Node => inner.label.isFault) isFault]
        exact if_pos isFault
      · rw [List.find?_cons_of_neg (p := fun inner : Node => inner.label.isFault) isFault]
        rw [show (own.isError || own.isMissing) = false from Bool.eq_false_iff.mpr isFault,
          if_neg Bool.false_ne_true]
        by_cases flagged : own.hasError = true
        · rw [if_pos flagged, below]
        · rw [if_neg flagged]
          -- No flag, so no fault among the parts either.
          have clean : (nodesOf parts).find? (fun inner => inner.label.isFault) = none := by
            rw [List.find?_eq_none]
            intro inner member fault
            apply flagged
            apply here.mpr
            exact ⟨inner, by rw [nodes]; exact List.mem_cons_of_mem _ member, fault⟩
          rw [clean, Option.map_none]

theorem firstFault?_isSome_iff {n : Node} :
    n.firstFault?.isSome = true ↔ ∃ inner ∈ n.nodes, inner.label.isFault = true := by
  rw [firstFault?, List.find?_isSome]

theorem errorLabel?_eq_firstFault? {root : Node} (flags : root.FlagsFaults) :
    root.errorLabel? = root.firstFault?.map label := by
  have here := (flags [] root (at?_nil root)).trans firstFault?_isSome_iff.symm
  rw [errorLabel?, firstError?_eq_firstFault? flags]
  cases found : root.firstFault? with
  | none =>
      rw [found] at here
      rw [if_neg (fun flagged => Bool.noConfusion (here.mp flagged)), Option.map_none]
  | some n =>
      rw [found] at here
      rw [if_pos (here.mpr rfl), Option.map_some, Option.getD_some]

end Node

namespace Ordered

variable {n : Node}

theorem part {part : Node} (ordered : Ordered n) (isPart : part ∈ n.children) : Ordered part :=
  ⟨ordered.forward.part isPart, Node.Everywhere.part ordered.nested isPart, ordered.apart.part isPart⟩

theorem inside {inner : Node} (ordered : Ordered n) (member : inner ∈ n.nodes) :
    n.label.start ≤ inner.label.start ∧ inner.label.start ≤ n.label.stop := by
  obtain ⟨place, found⟩ := Node.mem_nodes_iff.mp member
  have within := ordered.nested.below (Node.at?_nil n) found
  have forward := ordered.forward place inner found
  omega

theorem starts_nodesOf {parts : List Node} (each : ∀ part ∈ parts, Ordered part)
    (apart : parts.Pairwise fun first second => first.label.stop ≤ second.label.start)
    (sorted : ∀ part ∈ parts, part.nodes.Pairwise fun a b => a.label.start ≤ b.label.start) :
    (Node.nodesOf parts).Pairwise fun a b => a.label.start ≤ b.label.start := by
  induction parts with
  | nil => exact List.Pairwise.nil
  | cons part parts ih =>
      rw [List.pairwise_cons] at apart
      rw [Node.nodesOf, List.pairwise_append]
      refine ⟨sorted part List.mem_cons_self, ?_, ?_⟩
      · apply ih _ apart.2
        · intro other member
          exact sorted other (List.mem_cons_of_mem _ member)
        · intro other member
          exact each other (List.mem_cons_of_mem _ member)
      · intro first left second right
        rw [Node.nodesOf_eq_flatMap, List.mem_flatMap] at right
        obtain ⟨other, isOther, right⟩ := right
        calc
          first.label.start ≤ part.label.stop := ((each part List.mem_cons_self).inside left).2
          _ ≤ other.label.start := apart.1 other isOther
          _ ≤ second.label.start := ((each other (List.mem_cons_of_mem _ isOther)).inside right).1

theorem starts_sorted (ordered : Ordered n) :
    n.nodes.Pairwise fun a b => a.label.start ≤ b.label.start := by
  induction n using Node.inductOn with
  | step label parts ih =>
      rw [Node.nodes, List.pairwise_cons]
      constructor
      · intro inner member
        have listed : inner ∈ (Node.mk label parts).nodes := by
          rw [Node.nodes]
          exact List.mem_cons_of_mem _ member
        exact (ordered.inside listed).1
      · apply starts_nodesOf
        · intro part isPart
          exact ordered.part isPart
        · exact ordered.apart [] _ (Node.at?_nil _)
        · intro part isPart
          exact ih part isPart (ordered.part isPart)

theorem firstFault?_leftmost {first : Node} (ordered : Ordered n)
    (found : n.firstFault? = some first) :
    ∀ inner ∈ n.nodes, inner.label.isFault = true → first.label.start ≤ inner.label.start := by
  intro inner member isFault
  obtain ⟨_, before, behind, whole, clean⟩ := List.find?_eq_some_iff_append.mp found
  have sorted := ordered.starts_sorted
  rw [whole] at member sorted
  rcases List.mem_append.mp member with early | late
  · have noFault := clean inner early
    rw [isFault] at noFault
    cases noFault
  · rcases List.mem_cons.mp late with rfl | later
    · exact Nat.le_refl _
    · exact List.rel_of_pairwise_cons (List.pairwise_append.mp sorted).2.1 later

end Ordered

end Concrete

namespace Parser

open Concrete (Node)

variable {languageId : String} {extensions : List String} {grammar : Grammar} {source : String}
  {root : Node}

theorem parse_of_fault (read : grammar source = some root) (flags : root.FlagsFaults) {fault : Node}
    (found : root.firstFault? = some fault) :
    (ofGrammar languageId extensions grammar).parse source =
      .error (errorAt source fault.label) := by
  have label := Node.errorLabel?_eq_firstFault? flags
  rw [found, Option.map_some] at label
  simp only [ofGrammar, read, ofConcrete, label]

theorem parse_of_no_fault (read : grammar source = some root) (flags : root.FlagsFaults)
    (clean : root.firstFault? = none) :
    (ofGrammar languageId extensions grammar).parse source = .ok (root.toSyntaxTree source) := by
  have label := Node.errorLabel?_eq_firstFault? flags
  rw [clean, Option.map_none] at label
  simp only [ofGrammar, read, ofConcrete, label]

end Parser

open Concrete (Node)

/-- Where flags are right, a text has a syntax error exactly if its concrete tree has a fault. The error
is at the start of the first fault in pre-order, which the search always finds, and no fault starts before
it if ranges are in order. -/
theorem syntax_error_is_at_first_fault (languageId : String) (extensions : List String)
    (grammar : Grammar) (source : String) (root : Node) (read : grammar source = some root)
    (flags : root.FlagsFaults) :
    ((∃ line column, (Parser.ofGrammar languageId extensions grammar).parse source =
        .error (.syntaxError line column)) ↔ ∃ n ∈ root.nodes, n.label.isFault = true) ∧
    (root.label.hasError = true → ∃ fault,
      (root.nodes.find? fun n => n.label.isFault) = some fault ∧
      root.firstError? = some fault.label ∧
      (Parser.ofGrammar languageId extensions grammar).parse source =
        .error (Parser.errorAt source fault.label) ∧
      (Concrete.Ordered root → ∀ n ∈ root.nodes, n.label.isFault = true →
        fault.label.start ≤ n.label.start)) ∧
    (root.label.hasError = false →
      (Parser.ofGrammar languageId extensions grammar).parse source =
        .ok (root.toSyntaxTree source)) := by
  have flagged := (flags [] root (Node.at?_nil root)).trans Node.firstFault?_isSome_iff.symm
  have search := Node.firstError?_eq_firstFault? flags
  rw [← Node.firstFault?_isSome_iff]
  cases found : root.firstFault? with
  | none =>
      rw [found] at flagged
      have parsed : (Parser.ofGrammar languageId extensions grammar).parse source = _ :=
        Parser.parse_of_no_fault read flags found
      rw [parsed]
      refine ⟨?_, ?_, fun _ => rfl⟩
      · constructor
        · intro failed
          obtain ⟨_, _, failed⟩ := failed
          cases failed
        · intro absent
          cases absent
      · intro isFlagged
        cases flagged.mp isFlagged
  | some fault =>
      rw [found] at flagged
      have parsed : (Parser.ofGrammar languageId extensions grammar).parse source = _ :=
        Parser.parse_of_fault read flags found
      rw [parsed]
      refine ⟨?_, ?_, ?_⟩
      · exact ⟨fun _ => rfl, fun _ => ⟨_, _, rfl⟩⟩
      · intro _
        rw [found, Option.map_some] at search
        exact ⟨fault, found, search, rfl, fun ordered => ordered.firstFault?_leftmost found⟩
      · intro unflagged
        rw [flagged.mpr rfl] at unflagged
        cases unflagged

section Sample

open Concrete (Kind Field)

def Concrete.Node.flagged (kind : Kind) (start stop : Nat) (field : Option Field)
    (children : List Node) : Node :=
  .mk ⟨kind, true, false, false, true, start, stop, field⟩ children

def Concrete.Node.missing (kind : String) (offset : Nat) : Node :=
  .mk ⟨.ofName kind, false, false, true, true, offset, offset, none⟩ []

def misspeltText : String := "or (;;) \x7b\x7d"

/-- The concrete tree of `misspeltText`: a call with no closing bracket, and then a bracket too many. -/
def misspeltProgram : Node :=
  .flagged (.other "program") 0 10 none
    [.flagged .expressionStatement 0 5 none
      [.flagged (.other "call_expression") 0 4 none
        [.inner .identifier 0 2 none [],
          .flagged (.other "arguments") 3 4 none [.token "(" 3 4, .missing ")" 4]],
        .token ";" 4 5],
      .inner (.other "empty_statement") 5 6 none [.token ";" 5 6],
      .mk ⟨.other "ERROR", true, true, false, true, 6, 7, none⟩ [.token ")" 6 7],
      .inner .statementBlock 8 10 none [.token "\x7b" 8 9, .token "\x7d" 9 10]]

theorem misspeltProgram_error :
    misspeltProgram.FlagsFaults ∧ Concrete.Ordered misspeltProgram ∧
    (Parser.typescript fun _ => some misspeltProgram).parse misspeltText =
      .error (.syntaxError 1 5) ∧
    ∀ n ∈ misspeltProgram.nodes, n.label.isFault = true → 4 ≤ n.label.start := by
  have flags : misspeltProgram.FlagsFaults := by decide
  have ordered : Concrete.Ordered misspeltProgram := ⟨by decide, by decide, by decide⟩
  obtain ⟨_, failed, _⟩ := syntax_error_is_at_first_fault "typescript" [".ts"]
    (fun _ => some misspeltProgram) misspeltText misspeltProgram rfl flags
  obtain ⟨fault, found, search, parsed, leftmost⟩ := failed rfl
  have label : fault.label = (Node.missing ")" 4).label := by
    have known : misspeltProgram.firstError? = some (Node.missing ")" 4).label := by decide
    exact Option.some.inj (search.symm.trans known)
  refine ⟨flags, ordered, ?_, ?_⟩
  · rw [label] at parsed
    exact parsed.trans (by decide +kernel)
  · rw [label] at leftmost
    exact leftmost ordered

end Sample

end NamingLint
