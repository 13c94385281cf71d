import NamingLint.Syntax.Outline
import NamingLint.Syntax.Tree

/-! How outlines lie in a tree.

An outline takes a run of ids, its own first and then those of its children, so the pre-order of a
tree of outlines is the order of its ids. -/

namespace NamingLint.SyntaxTree

open Syntax

private theorem modify_append_left {α : Type} (front back : List α) (i : Nat) (f : α → α)
    (inside : i < front.length) : (front ++ back).modify i f = front.modify i f ++ back := by
  induction front generalizing i with
  | nil => simp at inside
  | cons head tail ih =>
      cases i with
      | zero => simp
      | succ i =>
          simp only [List.length_cons, Nat.add_lt_add_iff_right] at inside
          simp [ih i inside]

private theorem modify_last {α : Type} (front : List α) (last : α) (i : Nat) (f : α → α)
    (atEnd : i = front.length) : (front ++ [last]).modify i f = front ++ [f last] := by
  subst atEnd
  induction front with
  | nil => simp
  | cons head tail ih => simp [ih]

theorem update_nodes (tree : SyntaxTree) (id : NodeId) (f : Node → Node) :
    (tree.update id f).nodes.toList = tree.nodes.toList.modify id f := by
  cases found : tree.node? id with
  | none =>
      have outside : tree.nodes.toList.length ≤ id := by
        simpa [node?] using found
      simp only [update, found, List.modify_eq_self outside]
  | some n =>
      have known : tree.nodes.toList[id]? = some n := by
        simpa [node?] using found
      simp only [update, found, Array.toList_setIfInBounds]
      apply List.ext_getElem?
      intro i
      by_cases same : id = i
      · subst same
        obtain ⟨inside, _⟩ := List.getElem?_eq_some_iff.mp known
        simp [List.getElem?_set_self inside, known]
      · rw [List.getElem?_set_ne same, List.getElem?_modify_ne f _ same]

theorem update_source (tree : SyntaxTree) (id : NodeId) (f : Node → Node) :
    (tree.update id f).source = tree.source := by
  unfold update
  split <;> rfl

def adopt (ids : List NodeId) (n : Node) : Node := { n with children := n.children ++ ids }

theorem adopt_adopt (first second : List NodeId) :
    adopt second ∘ adopt first = adopt (first ++ second) := by
  funext n
  simp [adopt]

theorem push_nodes (tree : SyntaxTree) (parent : NodeId) (kind : Kind) (span : Span)
    (inside : parent < tree.size) :
    (tree.push parent kind span).nodes.toList =
      tree.nodes.toList.modify parent (adopt [tree.size]) ++
        [⟨kind, some parent, span, none, .empty, []⟩] := by
  simp only [push, update_nodes, Array.toList_push]
  exact modify_append_left _ _ parent _ inside

theorem pushNode_nodes (tree : SyntaxTree) (parent : NodeId) (kind : Kind) (span : Span)
    (nameSpan : Option Span) (modifiers : Modifiers) (inside : parent < tree.size) :
    (pushNode tree parent kind span nameSpan modifiers).nodes.toList =
      tree.nodes.toList.modify parent (adopt [tree.size]) ++
        [⟨kind, some parent, span, nameSpan, modifiers, []⟩] := by
  have atEnd : tree.size = (tree.nodes.toList.modify parent (adopt [tree.size])).length := by
    rw [List.length_modify]
    rfl
  have pushed := push_nodes tree parent kind span inside
  cases nameSpan with
  | none =>
      simp only [pushNode, setModifiers, update_nodes, pushed]
      rw [modify_last _ _ _ _ atEnd]
  | some name =>
      simp only [pushNode, setModifiers, setName, update_nodes, pushed]
      rw [modify_last _ _ _ _ atEnd, modify_last _ _ _ _ atEnd]

theorem pushNode_source (tree : SyntaxTree) (parent : NodeId) (kind : Kind) (span : Span)
    (nameSpan : Option Span) (modifiers : Modifiers) :
    (pushNode tree parent kind span nameSpan modifiers).source = tree.source := by
  cases nameSpan <;> simp [pushNode, push, setName, setModifiers, update_source]

end NamingLint.SyntaxTree

namespace NamingLint.Syntax

open SyntaxTree (adopt adopt_adopt pushNode_nodes pushNode_source)

mutual

def Outline.size : Outline → Nat
  | .node _ _ _ _ children => Outline.sizeAll children + 1

def Outline.sizeAll : List Outline → Nat
  | [] => 0
  | outline :: outlines => Outline.size outline + Outline.sizeAll outlines

end

def Outline.ids (start : NodeId) : List Outline → List NodeId
  | [] => []
  | outline :: outlines => start :: Outline.ids (start + outline.size) outlines

mutual

def Outline.listing (parent start : NodeId) : Outline → List Node
  | .node kind span nameSpan modifiers children =>
    ⟨kind, some parent, span, nameSpan, modifiers, Outline.ids (start + 1) children⟩ ::
      Outline.listingAll start (start + 1) children

def Outline.listingAll (parent start : NodeId) : List Outline → List Node
  | [] => []
  | outline :: outlines =>
    Outline.listing parent start outline ++
      Outline.listingAll parent (start + Outline.size outline) outlines

end

mutual

theorem Outline.length_listing (parent start : NodeId) :
    (outline : Outline) → (outline.listing parent start).length = outline.size
  | .node _ _ _ _ children => by
      rw [Outline.listing, Outline.size, List.length_cons, Outline.length_listingAll]

theorem Outline.length_listingAll (parent start : NodeId) :
    (outlines : List Outline) →
      (Outline.listingAll parent start outlines).length = Outline.sizeAll outlines
  | [] => rfl
  | outline :: outlines => by
      rw [Outline.listingAll, Outline.sizeAll, List.length_append, Outline.length_listing,
        Outline.length_listingAll]

end

mutual

theorem Outline.layOut_source (tree : SyntaxTree) (parent : NodeId) :
    (outline : Outline) → (outline.layOut tree parent).source = tree.source
  | .node _ _ _ _ children => by
      rw [Outline.layOut, Outline.layOutAll_source, pushNode_source]

theorem Outline.layOutAll_source (tree : SyntaxTree) (parent : NodeId) :
    (outlines : List Outline) → (Outline.layOutAll tree parent outlines).source = tree.source
  | [] => rfl
  | outline :: outlines => by
      rw [Outline.layOutAll, Outline.layOutAll_source, Outline.layOut_source]

end

mutual

theorem Outline.layOut_nodes (tree : SyntaxTree) (parent : NodeId) (inside : parent < tree.size) :
    (outline : Outline) → (outline.layOut tree parent).nodes.toList =
      tree.nodes.toList.modify parent (adopt [tree.size]) ++ outline.listing parent tree.size
  | .node kind span nameSpan modifiers children => by
      have pushed := pushNode_nodes tree parent kind span nameSpan modifiers inside
      have grown : (pushNode tree parent kind span nameSpan modifiers).size = tree.size + 1 := by
        have lengths := congrArg List.length pushed
        simpa [SyntaxTree.size] using lengths
      have known : tree.size < (pushNode tree parent kind span nameSpan modifiers).size := by omega
      rw [Outline.layOut, Outline.layOutAll_nodes _ tree.size known children, pushed, grown,
        Outline.listing]
      rw [SyntaxTree.modify_last _ _ _ _ (by simp [SyntaxTree.size])]
      simp [adopt]

theorem Outline.layOutAll_nodes (tree : SyntaxTree) (parent : NodeId)
    (inside : parent < tree.size) :
    (outlines : List Outline) → (Outline.layOutAll tree parent outlines).nodes.toList =
      tree.nodes.toList.modify parent (adopt (Outline.ids tree.size outlines)) ++
        Outline.listingAll parent tree.size outlines
  | [] => by
      have nothing : adopt [] = id := by
        funext n
        simp [adopt]
      simp [Outline.layOutAll, Outline.ids, Outline.listingAll, nothing]
  | outline :: outlines => by
      have first := Outline.layOut_nodes tree parent inside outline
      have grown : (outline.layOut tree parent).size = tree.size + outline.size := by
        have lengths := congrArg List.length first
        simpa [SyntaxTree.size, Outline.length_listing] using lengths
      have known : parent < (outline.layOut tree parent).size :=
        Nat.lt_of_lt_of_le inside (by omega)
      rw [Outline.layOutAll, Outline.layOutAll_nodes _ parent known outlines, first, grown]
      rw [SyntaxTree.modify_append_left _ _ parent _ (by simpa [SyntaxTree.size] using inside),
        List.modify_modify_eq, adopt_adopt]
      simp [Outline.ids, Outline.listingAll]

end

mutual

/-- An outline lies at `id` if its node and those of its children stand where laying it out there puts
them. -/
def Outline.Lies (tree : SyntaxTree) (parent id : NodeId) : Outline → Prop
  | .node kind span nameSpan modifiers children =>
    tree.node? id =
        some ⟨kind, some parent, span, nameSpan, modifiers, Outline.ids (id + 1) children⟩ ∧
      Outline.LieAll tree id (id + 1) children

def Outline.LieAll (tree : SyntaxTree) (parent id : NodeId) : List Outline → Prop
  | [] => True
  | outline :: outlines =>
    Outline.Lies tree parent id outline ∧
      Outline.LieAll tree parent (id + Outline.size outline) outlines

end

mutual

theorem Outline.lies_of_nodes (tree : SyntaxTree) (parent id : NodeId) (front back : List Node)
    (start : front.length = id) :
    (outline : Outline) → tree.nodes.toList = front ++ (outline.listing parent id ++ back) →
      outline.Lies tree parent id
  | .node kind span nameSpan modifiers children => by
      intro nodes
      rw [Outline.listing] at nodes
      constructor
      · simp [SyntaxTree.node?, ← Array.getElem?_toList, nodes, ← start]
      · apply Outline.lieAll_of_nodes tree id (id + 1) (front ++ [_]) back (by simp [start]) children
        rw [nodes, List.append_assoc, List.singleton_append, List.cons_append]

theorem Outline.lieAll_of_nodes (tree : SyntaxTree) (parent id : NodeId) (front back : List Node)
    (start : front.length = id) :
    (outlines : List Outline) →
      tree.nodes.toList = front ++ (Outline.listingAll parent id outlines ++ back) →
      Outline.LieAll tree parent id outlines
  | [] => fun _ => trivial
  | outline :: outlines => by
      intro nodes
      rw [Outline.listingAll, List.append_assoc] at nodes
      constructor
      · exact Outline.lies_of_nodes tree parent id front _ start outline nodes
      · apply Outline.lieAll_of_nodes tree parent (id + outline.size)
          (front ++ outline.listing parent id) back ?_ outlines
        · rw [nodes, List.append_assoc]
        · rw [List.length_append, Outline.length_listing, start]

end

theorem Outline.LieAll.known {tree : SyntaxTree} {parent : NodeId} {outlines : List Outline}
    {id : NodeId} (lie : Outline.LieAll tree parent id outlines) :
    ∀ child ∈ Outline.ids id outlines, (tree.node? child).isSome = true := by
  induction outlines generalizing id with
  | nil => simp [Outline.ids]
  | cons outline outlines ih =>
      intro child member
      rw [Outline.ids, List.mem_cons] at member
      rcases member with rfl | later
      · obtain ⟨kind, span, nameSpan, modifiers, children⟩ := outline
        rw [lie.1.1]
        rfl
      · exact ih lie.2 child later

mutual

/-- Draining a laid outline lists its run of ids and comes to what was pending behind it. -/
theorem Outline.drain_lies (tree : SyntaxTree) (parent id : NodeId) (steps : Nat)
    (pending : List NodeId) :
    (outline : Outline) → outline.Lies tree parent id →
      tree.drain (outline.size + steps) (id :: pending) =
        List.range' id outline.size ++ tree.drain steps pending
  | .node kind span nameSpan modifiers children => by
      intro lies
      have below : tree.childrenOf id = Outline.ids (id + 1) children := by
        simp [SyntaxTree.childrenOf, lies.1]
      rw [Outline.size, Nat.add_right_comm, SyntaxTree.drain, below,
        Outline.drain_lieAll tree id (id + 1) steps pending children lies.2]
      simp [List.range'_succ]

theorem Outline.drain_lieAll (tree : SyntaxTree) (parent id : NodeId) (steps : Nat)
    (pending : List NodeId) :
    (outlines : List Outline) → Outline.LieAll tree parent id outlines →
      tree.drain (Outline.sizeAll outlines + steps) (Outline.ids id outlines ++ pending) =
        List.range' id (Outline.sizeAll outlines) ++ tree.drain steps pending
  | [] => by simp [Outline.sizeAll, Outline.ids]
  | outline :: outlines => by
      intro lie
      rw [Outline.sizeAll, Outline.ids, List.cons_append, Nat.add_assoc,
        Outline.drain_lies tree parent id _ _ outline lie.1,
        Outline.drain_lieAll tree parent (id + outline.size) steps pending outlines lie.2,
        ← List.append_assoc, List.range'_append_1]

end

section Source

variable (source : String) (outlines : List Outline)

theorem treeOfOutlines_source : (treeOfOutlines source outlines).source = source := by
  rw [treeOfOutlines, Outline.layOutAll_source]
  rfl

theorem treeOfOutlines_nodes :
    (treeOfOutlines source outlines).nodes.toList =
      ⟨.sourceFile, none, ⟨0, Text.byteLength source.toList⟩, none, .empty, Outline.ids 1 outlines⟩ ::
        Outline.listingAll SyntaxTree.root 1 outlines := by
  rw [treeOfOutlines, Outline.layOutAll_nodes _ _ (by simp [SyntaxTree.size, SyntaxTree.ofSource,
    SyntaxTree.root])]
  simp [SyntaxTree.ofSource, SyntaxTree.size, SyntaxTree.root, adopt]

theorem treeOfOutlines_size :
    (treeOfOutlines source outlines).size = Outline.sizeAll outlines + 1 := by
  have lengths := congrArg List.length (treeOfOutlines_nodes source outlines)
  simpa [SyntaxTree.size, Outline.length_listingAll] using lengths

theorem treeOfOutlines_root :
    (treeOfOutlines source outlines).node? SyntaxTree.root =
      some ⟨.sourceFile, none, ⟨0, Text.byteLength source.toList⟩, none, .empty,
        Outline.ids 1 outlines⟩ := by
  rw [SyntaxTree.node?, ← Array.getElem?_toList, treeOfOutlines_nodes]
  rfl

theorem treeOfOutlines_lieAll :
    Outline.LieAll (treeOfOutlines source outlines) SyntaxTree.root 1 outlines := by
  apply Outline.lieAll_of_nodes _ SyntaxTree.root 1 [_] [] rfl outlines
  rw [treeOfOutlines_nodes, List.append_nil, List.singleton_append]

theorem treeOfOutlines_preorder :
    (treeOfOutlines source outlines).preorder =
      List.range (treeOfOutlines source outlines).size := by
  have below : (treeOfOutlines source outlines).childrenOf SyntaxTree.root =
      Outline.ids 1 outlines := by
    simp [SyntaxTree.childrenOf, treeOfOutlines_root]
  have drained := Outline.drain_lieAll _ _ _ 0 [] outlines (treeOfOutlines_lieAll source outlines)
  rw [SyntaxTree.preorder, treeOfOutlines_size, SyntaxTree.drain, below]
  rw [Nat.add_zero] at drained
  rw [drained, SyntaxTree.drain, List.append_nil, List.range_eq_range', List.range'_succ]
  rfl

end Source

end NamingLint.Syntax
