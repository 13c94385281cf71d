import NamingLint.Proofs.Convention.Reading
import NamingLint.Proofs.Convention.Table
import NamingLint.Proofs.Syntax.Connected

/-! What the convention prescribes for a node, and that the check of a tree reports just that. -/

namespace NamingLint.Convention

open Syntax

/-- A name, the checks that it is held against in order of precedence, and the place to report. -/
structure Obligation where
  checks : List Tip
  name : String
  anchor : Span
  deriving DecidableEq, Repr

/-- The failed checks of some obligations: each is reported under the first check that it fails. -/
def reports (obligations : List Obligation) : List (Tip × Span) :=
  obligations.filterMap fun o => (verdict o.name o.checks).map (·, o.anchor)

def declarationCheck : Kind → Option Tip
  | .classDeclaration => some .className
  | .interfaceDeclaration => some .interfaceName
  | .enumDeclaration => some .enumName
  | .moduleDeclaration => some .moduleName
  | _ => none

def memberCheck (modifiers : Modifiers) : Kind → Option Tip
  | .methodDeclaration => some (if modifiers.has .static then .staticMethod else .method)
  | .propertyDeclaration =>
    some (if modifiers.has .static then
        if modifiers.has .readonly then .staticReadonlyProperty else .staticProperty
      else if modifiers.has .privateAccess || modifiers.has .protectedAccess then .privateProperty
      else .memberProperty)
  | _ => none

def constantChecks : Option Kind → List Tip
  | none | some .sourceFile | some .moduleBlock => [.constant]
  | some _ => []

def variableChecks : Option Kind → List Tip
  | none | some .sourceFile => [.globalVariable, .rootVariable]
  | some .moduleBlock => [.globalVariable, .namespaceVariable]
  | some _ => []

inductive Binds (tree : SyntaxTree) : List NodeId → List Binding → Prop
  | nil : Binds tree [] []
  | declaration (id : NodeId) (ids : List NodeId) (child : Node) (name : String)
      (bound : List Binding) (row : tree.node? id = some child)
      (isKind : child.kind = .variableDeclaration) (called : tree.nameOf? child = some name)
      (rest : Binds tree ids bound) : Binds tree (id :: ids) (⟨name, child.span⟩ :: bound)
  | other (id : NodeId) (ids : List NodeId) (child : Node) (bound : List Binding)
      (row : tree.node? id = some child) (isOther : child.kind ≠ .variableDeclaration)
      (rest : Binds tree ids bound) : Binds tree (id :: ids) bound

def Around (tree : SyntaxTree) (n : Node) (kind : Option Kind) : Prop :=
  (n.parent = none ∧ kind = none) ∨
    ∃ up outer, n.parent = some up ∧ tree.node? up = some outer ∧ kind = some outer.kind

/-- What the convention asks of a node. -/
inductive Obliges (tree : SyntaxTree) (n : Node) : List Obligation → Prop
  | nothing (isKind : n.kind ∈ [.sourceFile, .moduleBlock, .variableDeclaration, .other]) :
      Obliges tree n []
  | declaration (tip : Tip) (name : String) (isKind : declarationCheck n.kind = some tip)
      (called : tree.nameOf? n = some name) : Obliges tree n [⟨[tip], name, n.span⟩]
  | member (tip : Tip) (name : String) (nameSpan : Span)
      (isKind : memberCheck n.modifiers n.kind = some tip)
      (called : tree.nameOf? n = some name) (placed : n.nameSpan = some nameSpan) :
      Obliges tree n [⟨[tip], name, nameSpan⟩]
  | varStatement (bound : List Binding) (kind : Option Kind) (isKind : n.kind = .variableStatement)
      (binds : Binds tree n.children bound) (around : Around tree n kind)
      (isVar : Mentions "var" (tree.textOf n).toList) :
      Obliges tree n [⟨[.varStatement], tree.textOf n, n.span⟩]
  | constStatement (bound : List Binding) (kind : Option Kind) (isKind : n.kind = .variableStatement)
      (binds : Binds tree n.children bound) (around : Around tree n kind)
      (noVar : ¬ Mentions "var" (tree.textOf n).toList)
      (isConst : Mentions "const" (tree.textOf n).toList) :
      Obliges tree n (bound.map fun b => ⟨constantChecks kind, b.name, b.span⟩)
  | letStatement (bound : List Binding) (kind : Option Kind) (isKind : n.kind = .variableStatement)
      (binds : Binds tree n.children bound) (around : Around tree n kind)
      (noVar : ¬ Mentions "var" (tree.textOf n).toList)
      (noConst : ¬ Mentions "const" (tree.textOf n).toList) :
      Obliges tree n (bound.map fun b => ⟨variableChecks kind, b.name, b.span⟩)

/-- The failed checks that the convention prescribes for the node with the given id. -/
def Prescribes (tree : SyntaxTree) (id : NodeId) (row : List (Tip × Span)) : Prop :=
  ∃ n obligations, tree.node? id = some n ∧ Obliges tree n obligations ∧ row = reports obligations

section Verdict

theorem verdict_eq_find? (name : String) (checks : List Tip) :
    verdict name checks = checks.find? fun tip => !follows name tip := by
  unfold verdict
  congr 1
  funext tip
  rw [Bool.eq_iff_iff, decide_eq_true_eq, Bool.not_eq_true', ← Bool.not_eq_true, follows_iff,
    Classical.not_not]

theorem reports_singleton (tip : Tip) (name : String) (anchor : Span) :
    reports [⟨[tip], name, anchor⟩] = if follows name tip then [] else [(tip, anchor)] := by
  cases passed : follows name tip <;> simp [reports, verdict_eq_find?, passed]

theorem constantTip_eq_verdict (name : String) (parent : Option Kind) :
    bindingTip .constWord (.ofParent parent) name = verdict name (constantChecks parent) := by
  have single : constantTip name = verdict name [.constant] := by
    rw [verdict_eq_find?, constantTip]
    cases letters : isUpperSnake name <;> cases lead : beginsWith "C_" name <;>
      simp [follows, letters, lead]
  cases parent with
  | none => exact single
  | some kind => cases kind <;> first | exact single | rfl

theorem variableTip_eq_verdict (name : String) (parent : Option Kind) :
    bindingTip .letWord (.ofParent parent) name = verdict name (variableChecks parent) := by
  have root : variableTip .rootLevel name = verdict name [.globalVariable, .rootVariable] := by
    rw [verdict_eq_find?, variableTip]
    cases letters : isLowerSnake name <;> cases lead : beginsWith "g_" name <;>
      simp [follows, letters, lead]
  have block : variableTip .namespaceLevel name =
      verdict name [.globalVariable, .namespaceVariable] := by
    rw [verdict_eq_find?, variableTip]
    cases letters : isLowerSnake name <;> cases lead : beginsWith "p_" name <;>
      simp [follows, letters, lead]
  cases parent with
  | none => exact root
  | some kind => cases kind <;> first | exact root | exact block | rfl

theorem accepts_eq_follows (cls : PropertyClass) (name : String) :
    cls.accepts name = follows name cls.tip := by
  cases cls <;> rfl

theorem VariableKeyword.ofText_cases (text : String) :
    (VariableKeyword.ofText text = .varWord ∧ Mentions "var" text.toList) ∨
    (VariableKeyword.ofText text = .constWord ∧ ¬ Mentions "var" text.toList ∧
      Mentions "const" text.toList) ∨
    (VariableKeyword.ofText text = .letWord ∧ ¬ Mentions "var" text.toList ∧
      ¬ Mentions "const" text.toList) := by
  simp only [← mentions_iff, VariableKeyword.ofText]
  split
  · exact Or.inl ⟨rfl, ‹_›⟩
  · split
    · exact Or.inr (Or.inl ⟨rfl, ‹_›, ‹_›⟩)
    · exact Or.inr (Or.inr ⟨rfl, ‹_›, ‹_›⟩)

end Verdict

namespace Declaration

def obligations : Declaration → List Obligation
  | .classType name span => [⟨[.className], name, span⟩]
  | .interfaceType name span => [⟨[.interfaceName], name, span⟩]
  | .enumType name span => [⟨[.enumName], name, span⟩]
  | .module name span => [⟨[.moduleName], name, span⟩]
  | .method name nameSpan modifiers =>
    [⟨[if modifiers.has .static then .staticMethod else .method], name, nameSpan⟩]
  | .property name nameSpan modifiers =>
    [⟨[(PropertyClass.ofModifiers modifiers).tip], name, nameSpan⟩]
  | .variables text span parent bindings =>
    match VariableKeyword.ofText text with
    | .varWord => [⟨[.varStatement], text, span⟩]
    | .constWord => bindings.map fun b => ⟨constantChecks parent, b.name, b.span⟩
    | .letWord => bindings.map fun b => ⟨variableChecks parent, b.name, b.span⟩

theorem failures_of_bindings (checks : List Tip) (tip : String → Option Tip)
    (agree : ∀ name, tip name = verdict name checks) (bindings : List Binding) :
    bindings.filterMap (fun b => (tip b.name).map (·, b.span)) =
      reports (bindings.map fun b => ⟨checks, b.name, b.span⟩) := by
  rw [reports, List.filterMap_map]
  simp only [agree]
  rfl

theorem failures_eq_reports :
    (declaration : Declaration) → declaration.failures = reports declaration.obligations
  | .classType _ _ | .interfaceType _ _ | .enumType _ _ | .module _ _ => by
      rw [failures, obligations, reports_singleton]
      rfl
  | .method name nameSpan modifiers => by
      rw [failures, obligations, reports_singleton, methodTip]
      cases isStatic : modifiers.has .static with
      | false =>
          simp only [follows, Bool.false_eq_true, if_false]
          split <;> rfl
      | true =>
          simp only [follows, if_true]
          split <;> rfl
  | .property name nameSpan modifiers => by
      rw [failures, obligations, reports_singleton, propertyTip, accepts_eq_follows]
      split <;> rfl
  | .variables text span parent bindings => by
      rw [failures, obligations]
      rcases VariableKeyword.ofText_cases text with ⟨word, isVar⟩ | ⟨word, _⟩ | ⟨word, _⟩
      · have banned : follows text .varStatement = false := by
          rw [← Bool.not_eq_true, follows_iff, Classical.not_not]
          exact isVar
        simp only [word, reports_singleton, banned]
        rfl
      · simp only [word]
        exact failures_of_bindings _ _ (fun name => constantTip_eq_verdict name parent) bindings
      · simp only [word]
        exact failures_of_bindings _ _ (fun name => variableTip_eq_verdict name parent) bindings

theorem parentKind_eq_ok_iff {tree : SyntaxTree} {n : Node} {kind : Option Kind} :
    parentKind tree n = .ok kind ↔ Around tree n kind := by
  rw [parentKind, Around]
  split
  · rename_i noParent
    simp [noParent, eq_comm]
  · rename_i up isParent
    simp only [isParent, bind_eq_ok_iff, SyntaxTree.node_eq_ok_iff, pure, Except.pure]
    constructor
    · rintro ⟨outer, row, same⟩
      cases same
      exact Or.inr ⟨up, outer, rfl, row, rfl⟩
    · rintro (⟨impossible, _⟩ | ⟨up', outer, same, row, rfl⟩)
      · cases impossible
      · cases same
        exact ⟨outer, row, rfl⟩

theorem bindings_eq_ok_iff {tree : SyntaxTree} {ids : List NodeId} {bound : List Binding} :
    bindings tree ids = .ok bound ↔ Binds tree ids bound := by
  induction ids generalizing bound with
  | nil =>
      constructor
      · intro read
        cases read
        exact .nil
      · intro binds
        cases binds
        rfl
  | cons id ids ih =>
      rw [bindings, bind_eq_ok_iff]
      constructor
      · rintro ⟨child, row, read⟩
        rw [SyntaxTree.node_eq_ok_iff] at row
        split at read
        · rename_i isKind
          obtain ⟨name, called, read⟩ := bind_eq_ok_iff.mp read
          obtain ⟨rest, later, read⟩ := bind_eq_ok_iff.mp read
          cases read
          exact .declaration id ids child name rest row isKind (requireName_eq_ok_iff.mp called)
            (ih.mp later)
        · rename_i isOther
          exact .other id ids child bound row isOther (ih.mp read)
      · intro binds
        cases binds with
        | declaration _ _ child name rest row isKind called later =>
            refine ⟨child, SyntaxTree.node_eq_ok_iff.mpr row, ?_⟩
            rw [if_pos isKind, requireName_eq_ok_iff.mpr called, ih.mpr later]
            rfl
        | other _ _ child _ row isOther later =>
            refine ⟨child, SyntaxTree.node_eq_ok_iff.mpr row, ?_⟩
            rw [if_neg isOther, ih.mpr later]

theorem memberCheck_property (modifiers : Modifiers) :
    memberCheck modifiers .propertyDeclaration = some (PropertyClass.ofModifiers modifiers).tip := by
  rw [memberCheck, PropertyClass.ofModifiers, Modifiers.isPublic]
  cases modifiers.has .static <;> cases modifiers.has .readonly <;>
    cases modifiers.has .privateAccess <;> cases modifiers.has .protectedAccess <;> rfl

theorem obliges_of_ofNode {tree : SyntaxTree} {n : Node} {declaration : Option Declaration}
    (read : ofNode tree n = .ok declaration) :
    Obliges tree n ((declaration.map obligations).getD []) := by
  cases kind : n.kind with
  | sourceFile | moduleBlock | variableDeclaration | other =>
      simp only [ofNode, kind] at read
      cases read
      exact .nothing (by simp [kind])
  | classDeclaration | interfaceDeclaration | enumDeclaration | moduleDeclaration =>
      simp only [ofNode, kind] at read
      obtain ⟨name, called, read⟩ := bind_eq_ok_iff.mp read
      cases read
      exact .declaration _ name (by rw [kind]; rfl) (requireName_eq_ok_iff.mp called)
  | methodDeclaration =>
      simp only [ofNode, kind] at read
      obtain ⟨name, called, read⟩ := bind_eq_ok_iff.mp read
      obtain ⟨span, placed, read⟩ := bind_eq_ok_iff.mp read
      cases read
      exact .member _ name span (by rw [kind]; rfl) (requireName_eq_ok_iff.mp called)
        (requireNameSpan_eq_ok_iff.mp placed)
  | propertyDeclaration =>
      simp only [ofNode, kind] at read
      obtain ⟨name, called, read⟩ := bind_eq_ok_iff.mp read
      obtain ⟨span, placed, read⟩ := bind_eq_ok_iff.mp read
      cases read
      exact .member _ name span (by rw [kind, memberCheck_property])
        (requireName_eq_ok_iff.mp called) (requireNameSpan_eq_ok_iff.mp placed)
  | variableStatement =>
      simp only [ofNode, kind] at read
      obtain ⟨bound, binds, read⟩ := bind_eq_ok_iff.mp read
      obtain ⟨parent, around, read⟩ := bind_eq_ok_iff.mp read
      cases read
      rw [bindings_eq_ok_iff] at binds
      rw [parentKind_eq_ok_iff] at around
      rw [Option.map_some, Option.getD_some, obligations]
      rcases VariableKeyword.ofText_cases (tree.textOf n) with
        ⟨word, isVar⟩ | ⟨word, noVar, isConst⟩ | ⟨word, noVar, noConst⟩
      · rw [word]
        exact .varStatement bound parent kind binds around isVar
      · rw [word]
        exact .constStatement bound parent kind binds around noVar isConst
      · rw [word]
        exact .letStatement bound parent kind binds around noVar noConst

theorem ofNode_variableStatement {tree : SyntaxTree} {n : Node} {bound : List Binding}
    {parent : Option Kind} (isKind : n.kind = .variableStatement)
    (binds : Binds tree n.children bound) (around : Around tree n parent) :
    ofNode tree n = .ok (some (.variables (tree.textOf n) n.span parent bound)) := by
  simp only [ofNode, isKind, bindings_eq_ok_iff.mpr binds, parentKind_eq_ok_iff.mpr around]
  rfl

theorem ofNode_of_obliges {tree : SyntaxTree} {n : Node} {asked : List Obligation}
    (obliges : Obliges tree n asked) :
    ∃ declaration, ofNode tree n = .ok declaration ∧
      asked = (declaration.map obligations).getD [] := by
  cases obliges with
  | nothing isKind =>
      simp only [List.mem_cons, List.not_mem_nil, or_false] at isKind
      rcases isKind with kind | kind | kind | kind <;> exact ⟨none, by simp only [ofNode, kind], rfl⟩
  | declaration tip name isKind called =>
      have read := requireName_eq_ok_iff.mpr called
      cases kind : n.kind <;> rw [kind] at isKind <;> cases isKind <;>
        exact ⟨some _, by simp only [ofNode, kind, read]; rfl, rfl⟩
  | member tip name span isKind called placed =>
      have read := requireName_eq_ok_iff.mpr called
      have readSpan := requireNameSpan_eq_ok_iff.mpr placed
      cases kind : n.kind with
      | methodDeclaration =>
          rw [kind] at isKind
          cases isKind
          exact ⟨some (.method name span n.modifiers), by simp only [ofNode, kind, read, readSpan]; rfl,
            rfl⟩
      | propertyDeclaration =>
          rw [kind, memberCheck_property] at isKind
          cases isKind
          exact ⟨some (.property name span n.modifiers),
            by simp only [ofNode, kind, read, readSpan]; rfl, rfl⟩
      | _ =>
          rw [kind] at isKind
          cases isKind
  | varStatement bound parent isKind binds around isVar =>
      refine ⟨_, ofNode_variableStatement isKind binds around, ?_⟩
      rcases VariableKeyword.ofText_cases (tree.textOf n) with ⟨word, _⟩ | ⟨_, noVar, _⟩ | ⟨_, noVar, _⟩
      · simp only [Option.map_some, Option.getD_some, obligations, word]
      · exact absurd isVar noVar
      · exact absurd isVar noVar
  | constStatement bound parent isKind binds around noVar isConst =>
      refine ⟨_, ofNode_variableStatement isKind binds around, ?_⟩
      rcases VariableKeyword.ofText_cases (tree.textOf n) with ⟨_, isVar⟩ | ⟨word, _⟩ | ⟨_, _, noConst⟩
      · exact absurd isVar noVar
      · simp only [Option.map_some, Option.getD_some, obligations, word]
      · exact absurd isConst noConst
  | letStatement bound parent isKind binds around noVar noConst =>
      refine ⟨_, ofNode_variableStatement isKind binds around, ?_⟩
      rcases VariableKeyword.ofText_cases (tree.textOf n) with ⟨_, isVar⟩ | ⟨_, _, isConst⟩ | ⟨word, _⟩
      · exact absurd isVar noVar
      · exact absurd isConst noConst
      · simp only [Option.map_some, Option.getD_some, obligations, word]

end Declaration

def Tips.finding (tips : Tips) (failed : Tip × Span) : Finding :=
  ⟨failed.1, failed.2, tips failed.1⟩

theorem findingsAt_of_node {tips : Tips} {tree : SyntaxTree} {id : NodeId} {n : Node}
    (row : tree.node? id = some n) :
    findingsAt tips tree id = (Declaration.ofNode tree n).map fun declaration =>
      (reports ((declaration.map Declaration.obligations).getD [])).map tips.finding := by
  have read : Declaration.read tree id = Declaration.ofNode tree n := by
    rw [Declaration.read, SyntaxTree.node_eq_ok_iff.mpr row]
    rfl
  rw [findingsAt_eq_read, read]
  cases Declaration.ofNode tree n with
  | error error => rfl
  | ok declaration =>
      cases declaration with
      | none => rfl
      | some declaration =>
          simp only [Except.map, Option.map_some, Option.getD_some,
            ← Declaration.failures_eq_reports]
          rfl

theorem findingsAt_eq_ok_iff {tips : Tips} {tree : SyntaxTree} {id : NodeId}
    {findings : List Finding} :
    findingsAt tips tree id = .ok findings ↔
      ∃ row, Prescribes tree id row ∧ findings = row.map tips.finding := by
  constructor
  · intro found
    have steps := found
    rw [findingsAt_eq_read, map_eq_ok_iff] at steps
    obtain ⟨_, read, _⟩ := steps
    obtain ⟨n, row, _⟩ := bind_eq_ok_iff.mp read
    rw [SyntaxTree.node_eq_ok_iff] at row
    rw [findingsAt_of_node row] at found
    cases read : Declaration.ofNode tree n with
    | error error =>
        rw [read] at found
        cases found
    | ok declaration =>
        rw [read] at found
        cases found
        exact ⟨_, ⟨n, _, row, Declaration.obliges_of_ofNode read, rfl⟩, rfl⟩
  · rintro ⟨_, ⟨n, asked, row, obliges, rfl⟩, rfl⟩
    obtain ⟨declaration, read, rfl⟩ := Declaration.ofNode_of_obliges obliges
    rw [findingsAt_of_node row, read]
    rfl

theorem forall₂_findingsAt {tips : Tips} {tree : SyntaxTree} {ids : List NodeId}
    {found : List (List Finding)} :
    List.Forall₂ (fun id findings => findingsAt tips tree id = .ok findings) ids found ↔
      ∃ rows, List.Forall₂ (Prescribes tree) ids rows ∧ found = rows.map (List.map tips.finding) := by
  constructor
  · intro pairs
    induction pairs with
    | nil => exact ⟨[], .nil, rfl⟩
    | cons first _ ih =>
        obtain ⟨row, prescribes, rfl⟩ := findingsAt_eq_ok_iff.mp first
        obtain ⟨rows, later, rfl⟩ := ih
        exact ⟨row :: rows, .cons prescribes later, rfl⟩
  · rintro ⟨rows, pairs, rfl⟩
    induction pairs with
    | nil => exact .nil
    | cons prescribes _ ih => exact .cons (findingsAt_eq_ok_iff.mpr ⟨_, prescribes, rfl⟩) ih

theorem mapM_findingsAt_eq_ok_iff {tips : Tips} {tree : SyntaxTree} {ids : List NodeId}
    {findings : List Finding} :
    (ids.mapM (findingsAt tips tree)).map List.flatten = .ok findings ↔
      ∃ rows, List.Forall₂ (Prescribes tree) ids rows ∧ findings = rows.flatten.map tips.finding := by
  rw [map_eq_ok_iff]
  constructor
  · rintro ⟨found, read, rfl⟩
    obtain ⟨rows, pairs, rfl⟩ := forall₂_findingsAt.mp (mapM_eq_ok_iff.mp read)
    exact ⟨rows, pairs, List.map_flatten.symm⟩
  · rintro ⟨rows, pairs, rfl⟩
    exact ⟨_, mapM_eq_ok_iff.mpr (forall₂_findingsAt.mpr ⟨rows, pairs, rfl⟩), List.map_flatten⟩

/-- The walk starts at the root, takes the children of a node after it and before what is left, and so
lists every connected node once. The check of a tree gives a list of findings exactly if the convention
prescribes something for every node of the walk, and then the list is what it prescribes for these nodes,
one after the other. -/
theorem check_eq_ok_iff_prescribed {source : String} {tree : SyntaxTree}
    (built : SyntaxTree.Built source tree) (tips : Tips) :
    ∃ ids, tree.Visits [SyntaxTree.root] ids ∧ ids.Nodup ∧
      (∀ id, id ∈ ids ↔ tree.Connected id) ∧
      ∀ findings, check tips tree = .ok findings ↔
        ∃ rows, List.Forall₂ (Prescribes tree) ids rows ∧
          findings = rows.flatten.map tips.finding := by
  have linked := built.linked
  refine ⟨tree.preorder, linked.visits_preorder, linked.preorder_nodup, linked.mem_preorder_iff, ?_⟩
  intro findings
  rw [check_eq_mapM]
  exact mapM_findingsAt_eq_ok_iff

def misnamedTree : SyntaxTree :=
  (SyntaxTree.ofSource "class a \x7b B() \x7d let X").push 0 .classDeclaration ⟨0, 15⟩
    |>.setName 1 ⟨6, 1⟩ |>.push 0 .variableStatement ⟨16, 5⟩ |>.push 1 .methodDeclaration ⟨10, 3⟩
    |>.setName 3 ⟨10, 1⟩ |>.push 2 .variableDeclaration ⟨20, 1⟩ |>.setName 4 ⟨20, 1⟩

theorem misnamedTree_findings :
    check .egret misnamedTree =
      .ok [⟨.className, ⟨0, 15⟩, Tips.egret .className⟩, ⟨.method, ⟨10, 1⟩, Tips.egret .method⟩,
        ⟨.globalVariable, ⟨20, 1⟩, Tips.egret .globalVariable⟩] ∧
    ∃ rows, List.Forall₂ (Prescribes misnamedTree) [0, 1, 3, 2, 4] rows ∧
      rows.flatten.map Tips.egret.finding =
        [⟨.className, ⟨0, 15⟩, Tips.egret .className⟩, ⟨.method, ⟨10, 1⟩, Tips.egret .method⟩,
          ⟨.globalVariable, ⟨20, 1⟩, Tips.egret .globalVariable⟩] := by
  have built : SyntaxTree.Built "class a \x7b B() \x7d let X" misnamedTree :=
    .setName (.push (.setName (.push (.push (.setName (.push .fresh ..) ..) ..) ..) ..) ..) ..
  have order : misnamedTree.preorder = [0, 1, 3, 2, 4] := by decide +kernel
  have found : check .egret misnamedTree =
      .ok [⟨.className, ⟨0, 15⟩, Tips.egret .className⟩, ⟨.method, ⟨10, 1⟩, Tips.egret .method⟩,
        ⟨.globalVariable, ⟨20, 1⟩, Tips.egret .globalVariable⟩] := by decide +kernel
  obtain ⟨ids, walk, _, _, prescribed⟩ := check_eq_ok_iff_prescribed built .egret
  have listed : ids = [0, 1, 3, 2, 4] := by
    rw [← order]
    exact walk.unique built.linked.visits_preorder
  obtain ⟨rows, pairs, same⟩ := (prescribed _).mp found
  exact ⟨found, rows, listed ▸ pairs, same.symm⟩

end NamingLint.Convention
