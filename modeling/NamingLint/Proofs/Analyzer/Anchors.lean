import NamingLint.Proofs.Analyzer.Source
import NamingLint.Proofs.Convention.Prescription
import NamingLint.Proofs.Syntax.Nesting
import NamingLint.Proofs.Text.Position

/-! Where violations stand: at a node, at its name or at one of its children, and so inside the node
that is judged and inside everything around it. -/

namespace NamingLint

open Syntax (Kind Node NodeId)
open Convention (Binds Binding Finding Obligation Obliges Tips)
open SyntaxTree (Built Linked)
open Text (byteLength lastLine)

namespace Convention

def judgedKinds : List Kind :=
  [.classDeclaration, .interfaceDeclaration, .enumDeclaration, .moduleDeclaration, .methodDeclaration,
    .propertyDeclaration, .variableStatement]

/-- The spans that the judgement of a node is reported at. -/
inductive Anchors (tree : SyntaxTree) (n : Node) : Span → Prop
  | whole : Anchors tree n n.span
  | name (span : Span) (text : String) (placed : n.nameSpan = some span)
      (called : tree.slice? span = some text) : Anchors tree n span
  | child (id : NodeId) (child : Node) (member : id ∈ n.children) (row : tree.node? id = some child) :
      Anchors tree n child.span

variable {tree : SyntaxTree}

theorem Binds.exists_child {ids : List NodeId} {bound : List Binding} (binds : Binds tree ids bound) :
    ∀ b ∈ bound, ∃ id child, id ∈ ids ∧ tree.node? id = some child ∧ b.span = child.span := by
  induction binds with
  | nil => simp
  | declaration id ids child name bound row isKind called rest ih =>
      intro b member
      rcases List.mem_cons.mp member with isFirst | later
      · exact ⟨id, child, List.mem_cons_self, row, by rw [isFirst]⟩
      · obtain ⟨other, found, among, rest⟩ := ih b later
        exact ⟨other, found, List.mem_cons_of_mem id among, rest⟩
  | other id ids child bound row isOther rest ih =>
      intro b member
      obtain ⟨other, found, among, rest⟩ := ih b member
      exact ⟨other, found, List.mem_cons_of_mem id among, rest⟩

theorem Binds.anchors {n : Node} {bound : List Binding} (binds : Binds tree n.children bound)
    {checks : List Tip} {o : Obligation}
    (member : o ∈ bound.map fun b => ⟨checks, b.name, b.span⟩) : Anchors tree n o.anchor := by
  obtain ⟨b, bMember, rfl⟩ := List.mem_map.mp member
  obtain ⟨id, child, among, row, same⟩ := binds.exists_child b bMember
  simp only [same]
  exact .child id child among row

theorem declarationCheck_judged {kind : Kind} {tip : Tip} (isKind : declarationCheck kind = some tip) :
    kind ∈ judgedKinds := by
  cases kind <;> first | decide | cases isKind

theorem memberCheck_judged {modifiers : Syntax.Modifiers} {kind : Kind} {tip : Tip}
    (isKind : memberCheck modifiers kind = some tip) : kind ∈ judgedKinds := by
  cases kind <;> first | decide | cases isKind

theorem Obliges.anchors {n : Node} {asked : List Obligation} (obliges : Obliges tree n asked)
    {o : Obligation} (member : o ∈ asked) : n.kind ∈ judgedKinds ∧ Anchors tree n o.anchor := by
  cases obliges with
  | nothing => simp at member
  | declaration tip name isKind called =>
      rw [List.mem_singleton.mp member]
      exact ⟨declarationCheck_judged isKind, .whole⟩
  | member tip name span isKind called placed =>
      rw [List.mem_singleton.mp member]
      rw [SyntaxTree.nameOf?, placed, Option.bind_some] at called
      exact ⟨memberCheck_judged isKind, .name span name placed called⟩
  | varStatement bound kind isKind =>
      rw [List.mem_singleton.mp member]
      exact ⟨by rw [isKind]; decide, .whole⟩
  | constStatement bound kind isKind binds | letStatement bound kind isKind binds =>
      exact ⟨by rw [isKind]; decide, binds.anchors member⟩

theorem findingsAt_anchors {tips : Tips} {id : NodeId} {findings : List Finding}
    (found : findingsAt tips tree id = .ok findings) {finding : Finding} (member : finding ∈ findings) :
    ∃ n, tree.node? id = some n ∧ n.kind ∈ judgedKinds ∧ Anchors tree n finding.span := by
  obtain ⟨_, prescribes, rfl⟩ := findingsAt_eq_ok_iff.mp found
  obtain ⟨n, asked, row, obliges, rfl⟩ := prescribes
  obtain ⟨failed, reported, rfl⟩ := List.mem_map.mp member
  obtain ⟨o, oMember, verdict⟩ := List.mem_filterMap.mp reported
  obtain ⟨tip, _, rfl⟩ := Option.map_eq_some_iff.mp verdict
  exact ⟨n, row, obliges.anchors oMember⟩

theorem mem_check_iff {tips : Tips} {findings : List Finding} (checked : check tips tree = .ok findings)
    {finding : Finding} :
    finding ∈ findings ↔
      ∃ id ∈ tree.preorder, ∃ row, findingsAt tips tree id = .ok row ∧ finding ∈ row := by
  rw [check_eq_mapM] at checked
  cases read : tree.preorder.mapM (findingsAt tips tree) with
  | error error =>
      rw [read] at checked
      cases checked
  | ok rows =>
      rw [read] at checked
      cases checked
      have pairs := mapM_eq_ok_iff.mp read
      constructor
      · intro member
        obtain ⟨row, rowMember, inRow⟩ := List.mem_flatten.mp member
        obtain ⟨id, visited, found⟩ := exists_item_of_forall₂ pairs row rowMember
        exact ⟨id, visited, row, found, inRow⟩
      · intro located
        obtain ⟨id, visited, row, found, inRow⟩ := located
        obtain ⟨same, rowMember, again⟩ := exists_value_of_forall₂ pairs id visited
        rw [found, Except.ok.injEq] at again
        exact List.mem_flatten.mpr ⟨row, again ▸ rowMember, inRow⟩

theorem Anchors.inside {n : Node} {span : Span} (anchors : Anchors tree n span) (linked : Linked tree)
    (valid : tree.validate = .ok ()) {id : NodeId} (connected : tree.Connected id)
    (row : tree.node? id = some n) :
    n.span.contains span = true ∧ (tree.slice? span).isSome = true := by
  have sound := linked.sound valid connected row
  cases anchors with
  | whole => exact ⟨Span.contains_refl n.span, sound.cuts⟩
  | name span text placed called => exact ⟨sound.holds span placed, by rw [called]; rfl⟩
  | child c child member childRow =>
      have below := linked.sound valid (connected.of_child linked row member) childRow
      exact ⟨linked.child_contained valid connected row member childRow, below.cuts⟩

end Convention

def Location.Cuts (location : Location) (text : List Char) : Prop :=
  ∃ front inner back, text = front ++ inner ++ back ∧ byteLength front = location.offset ∧
    byteLength inner = location.length ∧ location.line = front.count '\n' + 1 ∧
    location.column = (lastLine front).length + 1

theorem SourceFile.location_cuts {file : SourceFile} {span : Span}
    (cuts : (Text.slice? span.offset span.width file.content.toList).isSome = true) :
    (file.location span).Cuts file.content.toList := by
  obtain ⟨inner, cut⟩ := Option.isSome_iff_exists.mp cuts
  obtain ⟨front, back, whole, before, within⟩ := Text.slice?_eq_some_iff.mp cut
  have position : Text.Position.ofOffset span.offset file.content.toList =
      ⟨front.count '\n' + 1, (lastLine front).length + 1⟩ := by
    rw [whole, ← before, List.append_assoc, Text.Position.ofOffset_append]
  refine ⟨front, inner, back, whole, before, within, ?_, ?_⟩
  · rw [location, position]
  · rw [location, position]

namespace Analyzer

variable {a : Analyzer} {path : Path} {source : String} {file : SourceFile} {tree : SyntaxTree}

/-- An enabled convention, held against a node of the walk, gives the violation. -/
def Triggers (a : Analyzer) (file : SourceFile) (tree : SyntaxTree) (id : NodeId)
    (violation : Violation) : Prop :=
  id ∈ tree.preorder ∧ ∃ tips findings, Rule.egret tips ∈ a.enabledRules ∧
    Convention.findingsAt tips tree id = .ok findings ∧
    violation ∈ findings.map (Rule.egretViolation file)

theorem mem_applyRules_iff (conventions : ∀ rule ∈ a.rules, ∃ tips, rule = .egret tips)
    {violations : List Violation} (applied : a.applyRules file tree = .ok violations)
    (violation : Violation) :
    violation ∈ violations ↔ ∃ id, a.Triggers file tree id violation := by
  obtain ⟨rows, pairs, rfl⟩ := applyRules_eq_ok_iff.mp applied
  constructor
  · intro member
    obtain ⟨row, rowMember, inRow⟩ := List.mem_flatten.mp member
    obtain ⟨rule, enabled, checked⟩ := exists_item_of_forall₂ pairs row rowMember
    obtain ⟨tips, rfl⟩ := conventions rule (mem_enabledRules.mp enabled).1
    obtain ⟨findings, judged, rfl⟩ := Rule.egret_check_eq_ok_iff.mp checked
    obtain ⟨finding, among, rfl⟩ := List.mem_map.mp inRow
    obtain ⟨id, visited, here, found, inHere⟩ := (Convention.mem_check_iff judged).mp among
    exact ⟨id, visited, tips, here, enabled, found, List.mem_map_of_mem inHere⟩
  · intro triggered
    obtain ⟨id, visited, tips, here, enabled, found, inHere⟩ := triggered
    obtain ⟨finding, among, rfl⟩ := List.mem_map.mp inHere
    obtain ⟨row, rowMember, checked⟩ := exists_value_of_forall₂ pairs (Rule.egret tips) enabled
    obtain ⟨findings, judged, rfl⟩ := Rule.egret_check_eq_ok_iff.mp checked
    apply List.mem_flatten.mpr
    refine ⟨_, rowMember, List.mem_map_of_mem ?_⟩
    exact (Convention.mem_check_iff judged).mpr ⟨id, visited, here, found, among⟩

theorem Triggers.inside {id : NodeId} {violation : Violation}
    (triggers : a.Triggers file tree id violation) (linked : Linked tree)
    (valid : tree.validate = .ok ()) :
    ∃ n span, tree.node? id = some n ∧ n.kind ∈ Convention.judgedKinds ∧
      n.span.contains span = true ∧ (tree.slice? span).isSome = true ∧
      violation.location = file.location span := by
  obtain ⟨visited, tips, findings, _, found, member⟩ := triggers
  obtain ⟨finding, among, rfl⟩ := List.mem_map.mp member
  obtain ⟨n, row, judged, anchors⟩ := Convention.findingsAt_anchors found among
  have connected := (linked.mem_preorder_iff id).mp visited
  have inside := anchors.inside linked valid connected row
  exact ⟨n, finding.span, row, judged, inside.1, inside.2, rfl⟩

end Analyzer

/-- Every violation of a source text cuts it between characters, at the line and column of its offset,
and lies inside the declaration or the variable statement that triggers it and inside every node above
that one. -/
theorem violations_within_judged_nodes {a : Analyzer} {path : Path} {source : String}
    {violations : List Violation} (conventions : ∀ rule ∈ a.rules, ∃ tips, rule = .egret tips)
    (builds : ∀ parser ∈ a.parsers, ∀ tree, parser.parse source = .ok tree → Built source tree)
    (checked : a.checkSource path source = .ok violations) :
    ∃ parser tree, a.parserFor? path = some parser ∧ parser.parse source = .ok tree ∧
      (∀ violation, violation ∈ violations ↔
        ∃ id, a.Triggers (.ofPath path source a.root) tree id violation) ∧
      ∀ violation ∈ violations, violation.location.Cuts source.toList ∧
        ∀ id, a.Triggers (.ofPath path source a.root) tree id violation →
          (∃ n, tree.node? id = some n ∧ n.kind ∈ Convention.judgedKinds) ∧
          ∀ up, tree.Reaches id up → ∃ outer, tree.node? up = some outer ∧
            outer.span.contains ⟨violation.location.offset, violation.location.length⟩ = true := by
  obtain ⟨parser, tree, chosen, parsed, valid, applied⟩ := Analyzer.checkSource_eq_ok_iff.mp checked
  have built := builds parser (List.mem_of_find?_eq_some chosen) tree parsed
  have linked := built.linked
  have triggered := Analyzer.mem_applyRules_iff conventions applied
  refine ⟨parser, tree, chosen, parsed, triggered, ?_⟩
  intro violation member
  constructor
  · obtain ⟨id, triggers⟩ := (triggered violation).mp member
    obtain ⟨n, span, _, _, _, cuts, place⟩ := triggers.inside linked valid
    rw [SyntaxTree.slice?, Option.isSome_map, built.source_eq] at cuts
    rw [place]
    exact SourceFile.location_cuts cuts
  · intro id triggers
    obtain ⟨n, span, row, judged, inside, _, place⟩ := triggers.inside linked valid
    have connected := (linked.mem_preorder_iff id).mp triggers.1
    refine ⟨⟨n, row, judged⟩, ?_⟩
    intro up reaches
    obtain ⟨outer, outerRow⟩ := (connected.reaches linked reaches).known linked
    rw [place]
    exact ⟨outer, outerRow, linked.ancestor_contains valid connected row reaches outerRow inside⟩

def twoLines : String := "class aé \x7b Foo \x7d\nlet é"

/-- A class with a method, and a statement on the next line that binds a name of two bytes. -/
def twoLineTree : SyntaxTree :=
  (((((((SyntaxTree.ofSource twoLines).push 0 .classDeclaration ⟨0, 17⟩).setName 1 ⟨6, 3⟩).push 1
    .methodDeclaration ⟨12, 3⟩).setName 2 ⟨12, 3⟩).push 0 .variableStatement ⟨18, 6⟩).push 3
    .variableDeclaration ⟨22, 2⟩).setName 4 ⟨22, 2⟩

theorem twoLineTree_built : Built twoLines twoLineTree :=
  .setName (.push (.push (.setName (.push (.setName (.push .fresh ..) ..) ..) ..) ..) ..) ..

def twoLineAnalyzer : Analyzer :=
  ⟨⟨"/work"⟩, [⟨"typescript", [".ts"], fun _ => .ok twoLineTree⟩], [.egret .egret], [], .default, false⟩

theorem twoLineTree_violations_within :
    ∃ violations, twoLineAnalyzer.checkSource ⟨"/work/a.ts"⟩ twoLines = .ok violations ∧
      violations.map (fun v => (v.location.line, v.location.column, v.location.offset,
        v.location.length)) = [(1, 1, 0, 17), (1, 12, 12, 3), (2, 5, 22, 2)] ∧
      ∀ v ∈ violations, v.location.Cuts twoLines.toList ∧
        ∀ id, twoLineAnalyzer.Triggers (.ofPath ⟨"/work/a.ts"⟩ twoLines ⟨"/work"⟩) twoLineTree id v →
          ∀ up, twoLineTree.Reaches id up → ∃ outer, twoLineTree.node? up = some outer ∧
            outer.span.contains ⟨v.location.offset, v.location.length⟩ = true := by
  have checked : twoLineAnalyzer.checkSource ⟨"/work/a.ts"⟩ twoLines = .ok
      [⟨Rule.egretCode, Rule.egretName, .error, ⟨⟨"a.ts"⟩, 1, 1, 0, 17⟩, Tips.egret .className⟩,
        ⟨Rule.egretCode, Rule.egretName, .error, ⟨⟨"a.ts"⟩, 1, 12, 12, 3⟩, Tips.egret .method⟩,
        ⟨Rule.egretCode, Rule.egretName, .error, ⟨⟨"a.ts"⟩, 2, 5, 22, 2⟩, Tips.egret .rootVariable⟩] := by
    decide +kernel
  refine ⟨_, checked, rfl, ?_⟩
  obtain ⟨parser, tree, chosen, parsed, _, within⟩ :=
    violations_within_judged_nodes
      (fun rule member => ⟨.egret, List.mem_singleton.mp member⟩)
      (by
        intro parser member tree parsed
        rw [List.mem_singleton.mp member] at parsed
        cases parsed
        exact twoLineTree_built)
      checked
  rw [List.mem_singleton.mp (List.mem_of_find?_eq_some chosen)] at parsed
  cases parsed
  intro v member
  exact ⟨(within v member).1, fun id triggers => ((within v member).2 id triggers).2⟩

end NamingLint
