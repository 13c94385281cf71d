import NamingLint.Proofs.Convention.Names

/-! Visits that append to a list of findings, and what they leave behind when they fail.

A visit reads all of a declaration, down to its last binding, before it appends anything. So a failure
finds the list as it was, and what a success appends is the same for every list. -/

namespace NamingLint.Convention

open Syntax
open SyntaxTree (Built Legible Linked)

def leftBy {α : Type} : EStateM.Result TreeError (List Finding) α → List Finding
  | .ok _ found => found
  | .error _ found => found

/-- The list of a host that visits some nodes one by one and goes on where a visit fails. -/
def recordEach (tips : Tips) (tree : SyntaxTree) (ids : List NodeId) (found : List Finding) :
    List Finding :=
  ids.foldl (fun found id => leftBy ((recordAt tips tree id).run found)) found

variable {tips : Tips} {tree : SyntaxTree} {id : NodeId} {n : Node}

theorem recordEach_cons {fresh : List Finding} (read : findingsAt tips tree id = .ok fresh)
    (ids : List NodeId) (found : List Finding) :
    recordEach tips tree (id :: ids) found = recordEach tips tree ids (found ++ fresh) := by
  rw [recordEach, List.foldl_cons, recordAt_of_ok read]
  rfl

theorem run_forM_recordAt_append {before : List NodeId}
    (passed : ∀ other ∈ before, ∃ fresh, findingsAt tips tree other = .ok fresh) (after : List NodeId)
    (found : List Finding) :
    ((before ++ after).forM (recordAt tips tree)).run found =
      (after.forM (recordAt tips tree)).run (recordEach tips tree before found) := by
  induction before generalizing found with
  | nil => rfl
  | cons id before ih =>
      obtain ⟨fresh, read⟩ := passed id List.mem_cons_self
      have later := ih fun other member => passed other (List.mem_cons_of_mem id member)
      calc
        ((id :: before ++ after).forM (recordAt tips tree)).run found =
            ((before ++ after).forM (recordAt tips tree)).run (found ++ fresh) :=
          run_forM_recordAt_cons read (before ++ after) found
        _ = (after.forM (recordAt tips tree)).run (recordEach tips tree before (found ++ fresh)) :=
          later (found ++ fresh)
        _ = (after.forM (recordAt tips tree)).run (recordEach tips tree (id :: before) found) := by
          rw [recordEach_cons read]

theorem legible_of_parent (linked : Linked tree) (row : tree.node? id = some n)
    (within : ∀ up, n.parent = some up → up < tree.size) : Legible tree n := by
  constructor
  · intro c member
    rw [← SyntaxTree.childrenOf_of_node row] at member
    apply Option.isSome_iff_exists.mp
    apply (SyntaxTree.node?_isSome_iff tree c).mpr
    exact SyntaxTree.parentOf?_eq_some_lt (linked.child id c member).2
  · intro up isParent
    apply Option.isSome_iff_exists.mp
    exact (SyntaxTree.node?_isSome_iff tree up).mpr (within up isParent)

theorem recordAt_all_or_nothing (tips : Tips) (row : tree.node? id = some n) (legible : Legible tree n) :
    (∃ m : Node, ∀ found, (recordAt tips tree id).run found = .error (missing m) found) ∨
      ∃ fresh, ∀ found, (recordAt tips tree id).run found = .ok () (found ++ fresh) := by
  cases read : findingsAt tips tree id with
  | error error =>
      obtain ⟨m, _, rfl⟩ := (findingsAt_eq_error_iff tips row legible).mp read
      exact Or.inl ⟨m, recordAt_of_error read⟩
  | ok fresh => exact Or.inr ⟨fresh, recordAt_of_ok read⟩

theorem check_of_passed
    (passed : ∀ id ∈ tree.preorder, ∃ fresh, findingsAt tips tree id = .ok fresh) :
    check tips tree = .ok (recordEach tips tree tree.preorder []) := by
  have run := run_forM_recordAt_append passed [] []
  rw [List.append_nil] at run
  rw [check, run]
  rfl

/-- A visit of a node that is there, as its parent is, either misses a name and leaves the list of
findings as it was, or appends findings that do not depend on the list. So the check of a tree is the fold
of its visits that stops at the first failure. A host that visits the nodes one by one has found the same
as the check where none fails, and up to the first failure otherwise. -/
theorem visits_append_all_or_nothing {source : String} {tree : SyntaxTree} (built : Built source tree)
    (tips : Tips) :
    (∀ id n, tree.node? id = some n → (∀ up, n.parent = some up → up < tree.size) →
      (∃ kind offset, ∀ found,
        (recordAt tips tree id).run found = .error (.missingName kind offset) found) ∨
      ∃ fresh, ∀ found, (recordAt tips tree id).run found = .ok () (found ++ fresh)) ∧
    check tips tree =
      tree.preorder.foldlM (fun found id => keep ((recordAt tips tree id).run found)) [] ∧
    (∀ found, check tips tree = .ok found → recordEach tips tree tree.preorder [] = found) ∧
    ∀ error, check tips tree = .error error →
      ∃ before id after, tree.preorder = before ++ id :: after ∧
        (∀ other ∈ before, ∃ fresh, ∀ found,
          (recordAt tips tree other).run found = .ok () (found ++ fresh)) ∧
        (∀ found, (recordAt tips tree id).run found = .error error found) ∧
        (tree.preorder.forM (recordAt tips tree)).run [] =
          .error error (recordEach tips tree before []) := by
  refine ⟨?_, ?_, ?_, ?_⟩
  · intro id n row within
    have legible := legible_of_parent built.linked row within
    rcases recordAt_all_or_nothing tips row legible with ⟨m, failed⟩ | passed
    · exact Or.inl ⟨m.kind, m.span.offset, failed⟩
    · exact Or.inr passed
  · exact check_eq_foldlM tips tree
  · intro found passed
    rw [check_eq_mapM, map_eq_ok_iff] at passed
    obtain ⟨rows, read, rfl⟩ := passed
    have each : ∀ id ∈ tree.preorder, ∃ fresh, findingsAt tips tree id = .ok fresh := by
      intro id member
      obtain ⟨fresh, _, here⟩ := exists_value_of_forall₂ (mapM_eq_ok_iff.mp read) id member
      exact ⟨fresh, here⟩
    have whole := check_of_passed each
    rw [check_eq_mapM, read] at whole
    exact (Except.ok.inj whole).symm
  · intro error failed
    rw [check_eq_mapM, map_eq_error_iff, mapM_eq_error_iff] at failed
    obtain ⟨before, id, after, walk, earlier, failed⟩ := failed
    refine ⟨before, id, after, walk, ?_, recordAt_of_error failed, ?_⟩
    · intro other member
      obtain ⟨fresh, read⟩ := earlier other member
      exact ⟨fresh, recordAt_of_ok read⟩
    · rw [walk, run_forM_recordAt_append earlier, run_forM_recordAt_error failed]

def halfNamedTree : SyntaxTree :=
  ((((((SyntaxTree.ofSource "class a let B, C, ;").push 0 .classDeclaration ⟨0, 7⟩).setName 1 ⟨6, 1⟩).push 0
    .variableStatement ⟨8, 11⟩).push 2 .variableDeclaration ⟨12, 1⟩).setName 3 ⟨12, 1⟩).push 2
    .variableDeclaration ⟨15, 1⟩ |>.setName 4 ⟨15, 1⟩ |>.push 2 .variableDeclaration ⟨18, 0⟩

theorem halfNamedTree_built : Built "class a let B, C, ;" halfNamedTree :=
  .push (.setName (.push (.setName (.push (.push (.setName (.push .fresh ..) ..) ..) ..) ..) ..) ..) ..

theorem halfNamedTree_keeps_list :
    (∀ found, (recordAt .egret halfNamedTree 2).run found =
      .error (.missingName .variableDeclaration 18) found) ∧
    check .egret halfNamedTree = .error (.missingName .variableDeclaration 18) ∧
    ∃ before id after, halfNamedTree.preorder = before ++ id :: after ∧
      (halfNamedTree.preorder.forM (recordAt .egret halfNamedTree)).run [] =
        .error (.missingName .variableDeclaration 18) (recordEach .egret halfNamedTree before []) := by
  obtain ⟨each, _, _, stops⟩ := visits_append_all_or_nothing halfNamedTree_built .egret
  have failed : findingsAt .egret halfNamedTree 2 = .error (.missingName .variableDeclaration 18) := by
    decide +kernel
  have stopped : check .egret halfNamedTree = .error (.missingName .variableDeclaration 18) := by
    decide +kernel
  have row : halfNamedTree.node? 2 =
      some ⟨.variableStatement, some 0, ⟨8, 11⟩, none, .empty, [3, 4, 5]⟩ := by decide +kernel
  refine ⟨?_, stopped, ?_⟩
  · have empty := recordAt_of_error failed []
    rcases each 2 _ row (by decide +kernel) with ⟨kind, offset, leaves⟩ | ⟨fresh, appends⟩
    · rw [leaves [], EStateM.Result.error.injEq] at empty
      rw [← empty.1]
      exact leaves
    · rw [appends []] at empty
      cases empty
  · obtain ⟨before, id, after, walk, _, _, run⟩ := stops _ stopped
    exact ⟨before, id, after, walk, run⟩

end NamingLint.Convention
