import NamingLint.Proofs.Convention.Names
import NamingLint.Proofs.Convention.Resemblance
import NamingLint.Proofs.Syntax.Subtrees

/-! The nodes that make the check of a tree fail.

A visit fails for want of the node's own name or, at a statement, of the name of a variable declaration
among its children. A variable declaration is never visited for its own name, so one that stands elsewhere
is not missed if it has none. -/

namespace NamingLint

open Syntax
open Convention (Tips findingsAt isNameless missing namesRead)

namespace SyntaxTree

def Unnamed (tree : SyntaxTree) (kinds : List Kind) (id : NodeId) : Prop :=
  ∃ n, tree.node? id = some n ∧ n.kind ∈ kinds ∧ tree.nameOf? n = none

def askedKinds : List Kind :=
  [.classDeclaration, .interfaceDeclaration, .enumDeclaration, .moduleDeclaration, .methodDeclaration,
    .propertyDeclaration]

def Misses (tree : SyntaxTree) (id : NodeId) : Prop :=
  tree.Unnamed askedKinds id ∨
    tree.kindOf? id = some .variableStatement ∧
      ∃ c ∈ tree.childrenOf id, tree.Unnamed [.variableDeclaration] c

/-- Whose name the visit of a node misses first. -/
inductive Blames (tree : SyntaxTree) (id : NodeId) : NodeId → Prop
  | self (unnamed : tree.Unnamed askedKinds id) : Blames tree id id
  | child {elder younger : List NodeId} {c : NodeId}
      (isStatement : tree.kindOf? id = some .variableStatement)
      (order : tree.childrenOf id = elder ++ c :: younger)
      (named : ∀ other ∈ elder, ¬ tree.Unnamed [.variableDeclaration] other)
      (unnamed : tree.Unnamed [.variableDeclaration] c) : Blames tree id c

/-- A variable declaration that is not a child of a statement. -/
def Stray (tree : SyntaxTree) (id : NodeId) : Prop :=
  tree.kindOf? id = some .variableDeclaration ∧
    ∀ up, tree.parentOf? id = some up → tree.kindOf? up ≠ some .variableStatement

variable {tree : SyntaxTree} {id blamed : NodeId} {n m : Node}

theorem unnamed_of_node {kinds : List Kind} (row : tree.node? id = some n) :
    tree.Unnamed kinds id ↔ n.kind ∈ kinds ∧ isNameless tree n = true := by
  rw [Unnamed, row, isNameless, Option.isNone_iff_eq_none]
  simp only [Option.some.injEq, exists_eq_left']

theorem Blames.misses (blames : tree.Blames id blamed) : tree.Misses id := by
  cases blames with
  | self unnamed => exact Or.inl unnamed
  | child isStatement order named unnamed =>
      exact Or.inr ⟨isStatement, blamed, by simp [order], unnamed⟩

theorem find?_declarations_eq_some_iff {ids : List NodeId} :
    ((ids.filterMap tree.node?).filter fun child => child.kind == .variableDeclaration).find?
        (isNameless tree) = some m ↔
      ∃ elder c younger, ids = elder ++ c :: younger ∧
        (∀ other ∈ elder, ¬ tree.Unnamed [.variableDeclaration] other) ∧
        tree.Unnamed [.variableDeclaration] c ∧ tree.node? c = some m := by
  -- Both filters together test whether a declaration without a name has the id.
  have test : ∀ c, ((tree.node? c).any fun child =>
      decide ((child.kind == .variableDeclaration) = true ∧ isNameless tree child = true)) = true ↔
        tree.Unnamed [.variableDeclaration] c := by
    intro c
    cases row : tree.node? c with
    | none => simp [Unnamed, row]
    | some child => simp [unnamed_of_node row]
  rw [List.find?_filter, List.find?_filterMap, Option.bind_eq_some_iff]
  constructor
  · intro found
    obtain ⟨c, isFirst, row⟩ := found
    obtain ⟨hit, elder, younger, order, missed⟩ := List.find?_eq_some_iff_append.mp isFirst
    refine ⟨elder, c, younger, order, ?_, (test c).mp hit, row⟩
    intro other member unnamed
    have passed := missed other member
    rw [(test other).mpr unnamed] at passed
    cases passed
  · intro found
    obtain ⟨elder, c, younger, order, named, unnamed, row⟩ := found
    refine ⟨c, List.find?_eq_some_iff_append.mpr ⟨(test c).mpr unnamed, elder, younger, order, ?_⟩, row⟩
    intro other member
    rw [Bool.not_eq_true', ← Bool.not_eq_true, test]
    exact named other member

theorem blames_of_asked (row : tree.node? id = some n) (asked : n.kind ∈ askedKinds) :
    tree.Blames id blamed ↔ isNameless tree n = true ∧ blamed = id := by
  constructor
  · intro blames
    cases blames with
    | self unnamed => exact ⟨((unnamed_of_node row).mp unnamed).2, rfl⟩
    | child isStatement =>
        rw [kindOf?_of_node row, Option.some.injEq] at isStatement
        simp [isStatement, askedKinds] at asked
  · intro found
    rw [found.2]
    exact .self ((unnamed_of_node row).mpr ⟨asked, found.1⟩)

theorem not_blames_of_silent (row : tree.node? id = some n) (notAsked : n.kind ∉ askedKinds)
    (noStatement : n.kind ≠ .variableStatement) : ¬ tree.Blames id blamed := by
  intro blames
  cases blames with
  | self unnamed => exact notAsked ((unnamed_of_node row).mp unnamed).1
  | child isStatement =>
      rw [kindOf?_of_node row, Option.some.injEq] at isStatement
      exact noStatement isStatement

theorem find?_namesRead_eq_some_iff (row : tree.node? id = some n) :
    (namesRead tree n).find? (isNameless tree) = some m ↔
      ∃ blamed, tree.Blames id blamed ∧ tree.node? blamed = some m := by
  cases isKind : n.kind with
  | sourceFile | moduleBlock | variableDeclaration | other =>
      have silent : ∀ blamed, ¬ tree.Blames id blamed := by
        intro blamed
        apply not_blames_of_silent row <;> simp [isKind, askedKinds]
      simp [namesRead, isKind, silent]
  | classDeclaration | interfaceDeclaration | enumDeclaration | moduleDeclaration
  | methodDeclaration | propertyDeclaration =>
      have asked : n.kind ∈ askedKinds := by simp [isKind, askedKinds]
      simp only [namesRead, isKind, blames_of_asked row asked]
      cases nameless : isNameless tree n <;> simp [nameless, row]
  | variableStatement =>
      simp only [namesRead, isKind]
      rw [find?_declarations_eq_some_iff]
      constructor
      · intro found
        obtain ⟨elder, c, younger, order, named, unnamed, childRow⟩ := found
        rw [← childrenOf_of_node row] at order
        exact ⟨c, .child (by rw [kindOf?_of_node row, isKind]) order named unnamed, childRow⟩
      · intro found
        obtain ⟨c, blames, childRow⟩ := found
        cases blames with
        | self unnamed =>
            have asked := ((unnamed_of_node row).mp unnamed).1
            simp [isKind, askedKinds] at asked
        | child _ order named unnamed =>
            rw [childrenOf_of_node row] at order
            exact ⟨_, c, _, order, named, unnamed, childRow⟩

theorem Unnamed.known {kinds : List Kind} (unnamed : tree.Unnamed kinds id) :
    ∃ m, tree.node? id = some m := by
  obtain ⟨m, row, _⟩ := unnamed
  exact ⟨m, row⟩

theorem Blames.known (blames : tree.Blames id blamed) : ∃ m, tree.node? blamed = some m := by
  cases blames with
  | self unnamed => exact unnamed.known
  | child _ _ _ unnamed => exact unnamed.known

theorem misses_iff_blames : tree.Misses id ↔ ∃ blamed, tree.Blames id blamed := by
  constructor
  · intro misses
    rcases misses with unnamed | ⟨isStatement, child⟩
    · exact ⟨id, .self unnamed⟩
    · obtain ⟨elder, c, younger, order, named, unnamed⟩ := exists_first_of_mem child
      exact ⟨c, .child isStatement order named unnamed⟩
  · intro found
    obtain ⟨blamed, blames⟩ := found
    exact blames.misses

namespace Linked

variable (linked : Linked tree) (tips : Tips)
include linked

theorem findingsAt_eq_error_iff_blames (connected : tree.Connected id) {error : TreeError} :
    findingsAt tips tree id = .error error ↔
      ∃ blamed m, tree.Blames id blamed ∧ tree.node? blamed = some m ∧ error = missing m := by
  obtain ⟨n, row⟩ := connected.known linked
  rw [Convention.findingsAt_eq_error_iff tips row (linked.legible connected row)]
  simp only [find?_namesRead_eq_some_iff row]
  constructor
  · intro failed
    obtain ⟨m, ⟨blamed, blames, blamedRow⟩, isError⟩ := failed
    exact ⟨blamed, m, blames, blamedRow, isError⟩
  · intro failed
    obtain ⟨blamed, m, blames, blamedRow, isError⟩ := failed
    exact ⟨m, ⟨blamed, blames, blamedRow⟩, isError⟩

theorem findingsAt_ok_iff_not_misses (connected : tree.Connected id) :
    (∃ findings, findingsAt tips tree id = .ok findings) ↔ ¬ tree.Misses id := by
  rw [exists_ok_iff, misses_iff_blames]
  simp only [ne_eq, linked.findingsAt_eq_error_iff_blames tips connected]
  constructor
  · intro passed missed
    obtain ⟨blamed, blames⟩ := missed
    obtain ⟨m, row⟩ := blames.known
    exact passed (missing m) ⟨blamed, m, blames, row, rfl⟩
  · intro nobody error failed
    obtain ⟨blamed, _, blames, _⟩ := failed
    exact nobody ⟨blamed, blames⟩

theorem check_eq_error_iff_blames {error : TreeError} :
    Convention.check tips tree = .error error ↔
      ∃ before id after, tree.preorder = before ++ id :: after ∧
        (∀ other ∈ before, ¬ tree.Misses other) ∧
        ∃ blamed m, tree.Blames id blamed ∧ tree.node? blamed = some m ∧ error = missing m := by
  rw [Convention.check_eq_mapM, map_eq_error_iff, mapM_eq_error_iff]
  apply exists_first_congr
  · intro id member
    exact linked.findingsAt_ok_iff_not_misses tips ((linked.mem_preorder_iff id).mp member)
  · intro id member
    exact linked.findingsAt_eq_error_iff_blames tips ((linked.mem_preorder_iff id).mp member)

theorem check_fails_iff_misses :
    (∃ error, Convention.check tips tree = .error error) ↔ ∃ id ∈ tree.preorder, tree.Misses id := by
  constructor
  · intro failed
    obtain ⟨error, failed⟩ := failed
    obtain ⟨before, id, after, walk, _, blamed, m, blames, _⟩ :=
      (linked.check_eq_error_iff_blames tips).mp failed
    exact ⟨id, by simp [walk], blames.misses⟩
  · intro missed
    obtain ⟨before, id, after, walk, earlier, misses⟩ := exists_first_of_mem missed
    obtain ⟨blamed, blames⟩ := misses_iff_blames.mp misses
    obtain ⟨m, row⟩ := blames.known
    exact ⟨missing m, (linked.check_eq_error_iff_blames tips).mpr
      ⟨before, id, after, walk, earlier, blamed, m, blames, row, rfl⟩⟩

theorem check_setName_of_stray (stray : tree.Stray id) (span : Span) :
    Convention.check tips (tree.setName id span) = Convention.check tips tree := by
  have retouches := retouches_setName tree id span
  have renamed : Linked (tree.setName id span) := linked.update id _ (fun _ => rfl) (fun _ => rfl)
  have walk : (tree.setName id span).preorder = tree.preorder.map fun seen => seen := by
    rw [List.map_id', retouches.preorder_eq]
  apply Convention.check_congr walk
  intro seen member
  by_cases isStray : seen = id
  · have isKind : tree.kindOf? seen = some .variableDeclaration := isStray ▸ stray.1
    have stillKind := (retouches.kindOf?_eq seen).trans isKind
    rw [Convention.findingsAt_of_silent isKind (by decide),
      Convention.findingsAt_of_silent stillKind (by decide)]
  · have alike : Resembles tree (tree.setName id span) seen seen := by
      refine ⟨retouches.contents seen isStray, ?_, ?_⟩
      · exact around?_congr (retouches.parents seen) fun up _ => retouches.frames up
      · intro isStatement
        rw [retouches.children]
        apply declarations_congr
        intro c child
        -- Statements list no stray declaration, since a child records the node that lists it.
        have notStray : c ≠ id := by
          intro same
          exact stray.2 seen (same ▸ (linked.child seen c child).2) isStatement
        exact retouches.contents c notStray
    have connected := (linked.mem_preorder_iff seen).mp member
    have stillConnected := (renamed.mem_preorder_iff seen).mp (retouches.preorder_eq ▸ member)
    exact (alike.verdicts_eq retouches.source linked connected renamed stillConnected).2 tips

end Linked

/-- The check of a tree fails exactly if some visit misses a name. The error then names the kind and the
offset of the node that is blamed at the first such visit, which at a statement is the first child without
a name. No span is reported, and a stray declaration can be given a name without any effect. -/
theorem check_fails_at_first_unnamed {source : String} {tree : SyntaxTree} (grown : Grown source tree)
    (tips : Tips) :
    ((∃ error, Convention.check tips tree = .error error) ↔
      ∃ id ∈ tree.preorder, tree.Misses id) ∧
    (∀ error, Convention.check tips tree = .error error ↔
      ∃ before id after, tree.preorder = before ++ id :: after ∧
        (∀ other ∈ before, ¬ tree.Misses other) ∧
        ∃ blamed m, tree.Blames id blamed ∧ tree.node? blamed = some m ∧
          error = .missingName m.kind m.span.offset) ∧
    (∀ kind offset, Convention.check tips tree ≠ .error (.spanOutOfBounds kind offset)) ∧
    ∀ id span, tree.Stray id →
      Convention.check tips (tree.setName id span) = Convention.check tips tree := by
  have linked := grown.built.linked
  refine ⟨linked.check_fails_iff_misses tips, fun error => linked.check_eq_error_iff_blames tips, ?_, ?_⟩
  · intro kind offset failed
    obtain ⟨_, _, _, _, _, _, m, _, _, impossible⟩ :=
      (linked.check_eq_error_iff_blames tips).mp failed
    cases impossible
  · intro id span stray
    exact linked.check_setName_of_stray tips stray span

def namelessTree : SyntaxTree :=
  ((((((ofSource "let a, , ; class").push 0 .variableDeclaration ⟨0, 0⟩).push 0 .variableStatement
    ⟨0, 10⟩).push 0 .classDeclaration ⟨11, 5⟩).push 2 .variableDeclaration ⟨4, 1⟩).setName 4 ⟨4, 1⟩).push 2
    .variableDeclaration ⟨7, 0⟩ |>.push 2 .variableDeclaration ⟨9, 0⟩

theorem namelessTree_grown : Grown "let a, , ; class" namelessTree :=
  .push (.push (.setName (.push (.push (.push (.push .fresh _ _ _ (by decide)) _ _ _ (by decide)) _ _ _
    (by decide)) _ _ _ (by decide)) ..) _ _ _ (by decide)) _ _ _ (by decide)

theorem namelessTree_blames_second_declaration :
    namelessTree.preorder = [0, 1, 2, 4, 5, 6, 3] ∧
    (∃ before id after, namelessTree.preorder = before ++ id :: after ∧
      (∀ other ∈ before, ¬ namelessTree.Misses other) ∧
      ∃ blamed m, namelessTree.Blames id blamed ∧ namelessTree.node? blamed = some m ∧
        TreeError.missingName .variableDeclaration 7 = .missingName m.kind m.span.offset) ∧
    namelessTree.Stray 1 ∧
    Convention.check .egret (namelessTree.setName 1 ⟨4, 1⟩) =
      .error (.missingName .variableDeclaration 7) := by
  obtain ⟨_, first, _, naming⟩ := check_fails_at_first_unnamed namelessTree_grown .egret
  have failed : Convention.check .egret namelessTree =
      .error (.missingName .variableDeclaration 7) := by decide +kernel
  have stray : namelessTree.Stray 1 := by
    refine ⟨by decide +kernel, ?_⟩
    intro up isParent
    have atRoot : namelessTree.parentOf? 1 = some 0 := by decide +kernel
    rw [atRoot, Option.some.injEq] at isParent
    subst isParent
    decide +kernel
  exact ⟨by decide +kernel, (first _).mp failed, stray, (naming 1 ⟨4, 1⟩ stray).trans failed⟩

end SyntaxTree

end NamingLint
