import NamingLint.Convention.Rule
import NamingLint.Proofs.Syntax.Validity

/-! Reading declarations: the check of a tree is the check of its nodes in pre-order, and it gives a
result wherever names, children and parents can be read. -/

namespace NamingLint.Convention

open Syntax

/-- What a host that has found something has found after the visit of a node. -/
def visit (tips : Tips) (tree : SyntaxTree) (found : List Finding) (id : NodeId) :
    Except TreeError (List Finding) := keep ((recordAt tips tree id).run found)

def findingsAt (tips : Tips) (tree : SyntaxTree) (id : NodeId) : Except TreeError (List Finding) :=
  visit tips tree [] id

def Declaration.findings (tips : Tips) (declaration : Declaration) : List Finding :=
  declaration.failures.map fun (tip, span) => ⟨tip, span, tips tip⟩

theorem run_forM_append {α : Type} (finding : α → Finding) (items : List α) (found : List Finding) :
    (items.forM fun item => (modify fun found => found ++ [finding item] : Recorder Unit)).run found =
      .ok () (found ++ items.map finding) := by
  induction items generalizing found with
  | nil =>
      rw [List.map_nil, List.append_nil]
      rfl
  | cons item items ih =>
      have later := ih (found ++ [finding item])
      rw [List.append_assoc, List.singleton_append] at later
      exact later

section Visit

variable {tips : Tips} {tree : SyntaxTree} {id : NodeId}

theorem recordAt_of_read_error {error : TreeError} (read : Declaration.read tree id = .error error)
    (found : List Finding) : (recordAt tips tree id).run found = .error error found := by
  rw [recordAt, read]
  rfl

theorem recordAt_of_read {declaration : Option Declaration}
    (read : Declaration.read tree id = .ok declaration) (found : List Finding) :
    (recordAt tips tree id).run found =
      .ok () (found ++ declaration.elim [] fun declaration => declaration.findings tips) := by
  rw [recordAt, read]
  cases declaration with
  | none =>
      rw [Option.elim_none, List.append_nil]
      rfl
  | some declaration => exact run_forM_append _ declaration.failures found

theorem findingsAt_eq_read (tips : Tips) (tree : SyntaxTree) (id : NodeId) :
    findingsAt tips tree id = (Declaration.read tree id).map fun declaration =>
      declaration.elim [] fun declaration => declaration.findings tips := by
  rw [findingsAt, visit]
  cases read : Declaration.read tree id with
  | error error =>
      rw [recordAt_of_read_error read]
      rfl
  | ok declaration =>
      rw [recordAt_of_read read]
      rfl

theorem recordAt_of_ok {fresh : List Finding} (read : findingsAt tips tree id = .ok fresh)
    (found : List Finding) : (recordAt tips tree id).run found = .ok () (found ++ fresh) := by
  rw [findingsAt_eq_read, map_eq_ok_iff] at read
  obtain ⟨declaration, known, rfl⟩ := read
  exact recordAt_of_read known found

theorem recordAt_of_error {error : TreeError} (failed : findingsAt tips tree id = .error error)
    (found : List Finding) : (recordAt tips tree id).run found = .error error found := by
  rw [findingsAt_eq_read, map_eq_error_iff] at failed
  exact recordAt_of_read_error failed found

theorem visit_eq (tips : Tips) (tree : SyntaxTree) (found : List Finding) (id : NodeId) :
    visit tips tree found id = (findingsAt tips tree id).map (found ++ ·) := by
  cases read : findingsAt tips tree id with
  | error error =>
      rw [visit, recordAt_of_error read]
      rfl
  | ok fresh =>
      rw [visit, recordAt_of_ok read]
      rfl

end Visit

theorem foldlM_visit (tips : Tips) (tree : SyntaxTree) (found : List Finding) (ids : List NodeId) :
    ids.foldlM (visit tips tree) found =
      (ids.mapM (findingsAt tips tree)).map fun rows => found ++ rows.flatten := by
  induction ids generalizing found with
  | nil => simp [pure, Except.pure, Except.map]
  | cons id ids ih =>
      rw [List.foldlM_cons, List.mapM_cons, visit_eq]
      cases findingsAt tips tree id with
      | error error => rfl
      | ok here =>
          simp only [bind, Except.bind, pure, Except.pure, ih]
          cases ids.mapM (findingsAt tips tree) with
          | error error => rfl
          | ok rows => simp [Except.map]

theorem run_forM_recordAt_cons {tips : Tips} {tree : SyntaxTree} {id : NodeId} {fresh : List Finding}
    (read : findingsAt tips tree id = .ok fresh) (ids : List NodeId) (found : List Finding) :
    ((id :: ids).forM (recordAt tips tree)).run found =
      (ids.forM (recordAt tips tree)).run (found ++ fresh) := by
  have first := recordAt_of_ok read found
  simp only [EStateM.run] at first ⊢
  simp only [List.forM_eq_forM, List.forM_cons, bind, EStateM.bind, first]

theorem run_forM_recordAt_error {tips : Tips} {tree : SyntaxTree} {id : NodeId} {error : TreeError}
    (failed : findingsAt tips tree id = .error error) (ids : List NodeId) (found : List Finding) :
    ((id :: ids).forM (recordAt tips tree)).run found = .error error found := by
  have first := recordAt_of_error failed found
  simp only [EStateM.run] at first ⊢
  simp only [List.forM_eq_forM, List.forM_cons, bind, EStateM.bind, first]

theorem keep_run_forM (tips : Tips) (tree : SyntaxTree) (ids : List NodeId) (found : List Finding) :
    keep ((ids.forM (recordAt tips tree)).run found) = ids.foldlM (visit tips tree) found := by
  induction ids generalizing found with
  | nil => rfl
  | cons id ids ih =>
      rw [List.foldlM_cons, visit_eq]
      cases read : findingsAt tips tree id with
      | error error =>
          rw [run_forM_recordAt_error read]
          rfl
      | ok fresh =>
          rw [run_forM_recordAt_cons read]
          exact ih (found ++ fresh)

theorem check_eq_foldlM (tips : Tips) (tree : SyntaxTree) :
    check tips tree = tree.preorder.foldlM (visit tips tree) [] := keep_run_forM tips tree _ []

theorem check_eq_mapM (tips : Tips) (tree : SyntaxTree) :
    check tips tree = (tree.preorder.mapM (findingsAt tips tree)).map List.flatten := by
  rw [check_eq_foldlM, foldlM_visit]
  simp only [List.nil_append]

/-- A node whose name, children and parent can be read. -/
structure Readable (tree : SyntaxTree) (n : Node) : Prop where
  name : n.kind.requiresName = true → (tree.nameOf? n).isSome = true
  children : ∀ id ∈ n.children, ∃ child, tree.node? id = some child ∧
    (child.kind.requiresName = true → (tree.nameOf? child).isSome = true)
  parent : ∀ up, n.parent = some up → (tree.node? up).isSome = true

namespace Declaration

variable {tree : SyntaxTree} {n : Node}

theorem requireName_eq_ok_iff {name : String} :
    requireName tree n = .ok name ↔ tree.nameOf? n = some name := by
  rw [requireName]
  split <;> simp_all

theorem requireNameSpan_eq_ok_iff {span : Span} :
    requireNameSpan n = .ok span ↔ n.nameSpan = some span := by
  rw [requireNameSpan]
  split <;> simp_all

theorem requireName_ok (named : (tree.nameOf? n).isSome = true) :
    ∃ name, requireName tree n = .ok name := by
  obtain ⟨name, known⟩ := Option.isSome_iff_exists.mp named
  exact ⟨name, requireName_eq_ok_iff.mpr known⟩

theorem requireNameSpan_ok (named : (tree.nameOf? n).isSome = true) :
    ∃ span, requireNameSpan n = .ok span := by
  obtain ⟨name, known⟩ := Option.isSome_iff_exists.mp named
  obtain ⟨span, isSpan, _⟩ := Option.bind_eq_some_iff.mp known
  exact ⟨span, requireNameSpan_eq_ok_iff.mpr isSpan⟩

theorem bindings_ok {ids : List NodeId}
    (each : ∀ id ∈ ids, ∃ child, tree.node? id = some child ∧
      (child.kind.requiresName = true → (tree.nameOf? child).isSome = true)) :
    ∃ bound, bindings tree ids = .ok bound := by
  induction ids with
  | nil => exact ⟨[], rfl⟩
  | cons id ids ih =>
      obtain ⟨child, row, named⟩ := each id List.mem_cons_self
      obtain ⟨bound, rest⟩ := ih fun other member => each other (List.mem_cons_of_mem id member)
      rw [bindings, SyntaxTree.node_eq_ok_iff.mpr row]
      simp only [bind, Except.bind, rest]
      split
      · rename_i isBinding
        obtain ⟨name, known⟩ := requireName_ok (named (by rw [isBinding]; rfl))
        exact ⟨_, by rw [known]; rfl⟩
      · exact ⟨bound, rfl⟩

theorem parentKind_ok (known : ∀ up, n.parent = some up → (tree.node? up).isSome = true) :
    ∃ kind, parentKind tree n = .ok kind := by
  rw [parentKind]
  split
  · exact ⟨none, rfl⟩
  · rename_i up isParent
    obtain ⟨outer, row⟩ := Option.isSome_iff_exists.mp (known up isParent)
    refine ⟨some outer.kind, ?_⟩
    rw [SyntaxTree.node_eq_ok_iff.mpr row]
    rfl

theorem ofNode_ok (readable : Readable tree n) : ∃ declaration, ofNode tree n = .ok declaration := by
  cases kind : n.kind with
  | sourceFile | moduleBlock | variableDeclaration | other =>
      exact ⟨none, by simp only [ofNode, kind]⟩
  | variableStatement =>
      obtain ⟨bound, isBound⟩ := bindings_ok readable.children
      obtain ⟨parent, isParent⟩ := parentKind_ok readable.parent
      exact ⟨_, by simp only [ofNode, kind, isBound, isParent]; rfl⟩
  | classDeclaration | interfaceDeclaration | enumDeclaration | moduleDeclaration
  | methodDeclaration | propertyDeclaration =>
      have named := readable.name (by rw [kind]; rfl)
      obtain ⟨name, isName⟩ := requireName_ok named
      obtain ⟨span, isSpan⟩ := requireNameSpan_ok named
      exact ⟨_, by simp only [ofNode, kind, isName, isSpan]; rfl⟩

end Declaration

theorem findingsAt_ok {tree : SyntaxTree} {id : NodeId} {n : Node} (tips : Tips)
    (row : tree.node? id = some n) (readable : Readable tree n) :
    ∃ findings, findingsAt tips tree id = .ok findings := by
  obtain ⟨declaration, known⟩ := Declaration.ofNode_ok readable
  have read : Declaration.read tree id = .ok declaration := by
    rw [Declaration.read, SyntaxTree.node_eq_ok_iff.mpr row]
    exact known
  exact ⟨_, by rw [findingsAt_eq_read, read]; rfl⟩

theorem check_ok {tree : SyntaxTree} (tips : Tips)
    (each : ∀ id ∈ tree.preorder, ∃ n, tree.node? id = some n ∧ Readable tree n) :
    ∃ findings, check tips tree = .ok findings := by
  have rows : ∃ rows, tree.preorder.mapM (findingsAt tips tree) = .ok rows := by
    apply mapM_ok_of_forall
    intro id member
    obtain ⟨n, row, readable⟩ := each id member
    exact findingsAt_ok tips row readable
  obtain ⟨rows, known⟩ := rows
  exact ⟨rows.flatten, by rw [check_eq_mapM, known]; rfl⟩

end NamingLint.Convention
