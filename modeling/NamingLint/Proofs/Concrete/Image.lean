import Mathlib.Data.List.Nodup
import NamingLint.Convention.Criteria
import NamingLint.Convention.Declaration
import NamingLint.Proofs.Concrete.Grammar

/-! The image of a concrete tree in its syntax tree.

Every node of the syntax tree is the image of one concrete node, and parents follow the places: the
parent of an image is the image of the nearest ancestor that has one. -/

namespace NamingLint.Concrete

open Syntax (NodeId Outline)

namespace Node

/-- The places that the nodes of a program's tree come from, in the order of their ids. -/
def origins (source : List Char) (root : Node) : List Place :=
  [] :: (Trace.allOf (root.forest source)).map Trace.place

def image (source : List Char) (root : Node) (place : Place) : Option NodeId :=
  (root.origins source).idxOf? place

variable {source : List Char} {root : Node}

theorem forest_place_ne_nil : ∀ trace ∈ Trace.allOf (root.forest source), trace.place ≠ [] := by
  intro trace member atRoot
  obtain ⟨label, parts⟩ := root
  obtain ⟨top, isTop, within⟩ :=
    Trace.prefix_allOf _ (laminar_forest source (.mk label parts)) trace member
  obtain ⟨i, part, role, _, _, inside⟩ := mem_tracesOf isTop
  have lengths := ((part.traces_within role _ top inside).trans within).length_le
  simp [atRoot] at lengths

theorem origins_nodup (source : List Char) (root : Node) : (root.origins source).Nodup := by
  rw [origins, List.nodup_cons]
  refine ⟨?_, Trace.places_nodup _ (laminar_forest source root)⟩
  intro listed
  obtain ⟨trace, member, atRoot⟩ := List.mem_map.mp listed
  exact forest_place_ne_nil trace member atRoot

theorem image_eq_some_iff {place : Place} {id : NodeId} :
    root.image source place = some id ↔ (root.origins source)[id]? = some place := by
  rw [image, List.idxOf?_eq_some_iff, List.getElem?_eq_some_iff]
  constructor
  · rintro ⟨bound, same, _⟩
    exact ⟨bound, same⟩
  · rintro ⟨bound, same⟩
    refine ⟨bound, same, ?_⟩
    intro j earlier again
    have position := (List.Nodup.getElem_inj_iff (origins_nodup source root)).mp (again.trans same.symm)
    exact absurd position (Nat.ne_of_lt earlier)

theorem image_isSome_iff {place : Place} :
    (root.image source place).isSome = true ↔ place ∈ root.origins source := List.isSome_idxOf?

theorem image_root : root.image source [] = some SyntaxTree.root := image_eq_some_iff.mpr rfl

theorem image_trace {k : Nat} {trace : Trace}
    (listed : (Trace.allOf (root.forest source))[k]? = some trace) :
    root.image source trace.place = some (k + 1) := by
  apply image_eq_some_iff.mpr
  rw [origins, List.getElem?_cons_succ, List.getElem?_map, listed, Option.map_some]

theorem trace_of_image {place : Place} {id : NodeId} (known : root.image source place = some id)
    (inside : place ≠ []) :
    ∃ k trace, id = k + 1 ∧ (Trace.allOf (root.forest source))[k]? = some trace ∧
      trace.place = place := by
  have listed := image_eq_some_iff.mp known
  cases id with
  | zero =>
      rw [origins, List.getElem?_cons_zero, Option.some.injEq] at listed
      exact absurd listed.symm inside
  | succ k =>
      rw [origins, List.getElem?_cons_succ, List.getElem?_map, Option.map_eq_some_iff] at listed
      obtain ⟨trace, found, same⟩ := listed
      exact ⟨k, trace, rfl, found, same⟩

theorem mem_origins_iff {place : Place} :
    place ∈ root.origins source ↔
      place = [] ∨ ∃ trace ∈ Trace.allOf (root.forest source), trace.place = place := by
  rw [origins, List.mem_cons, List.mem_map]

end Node

theorem Stands.at?_place {source : List Char} {root : Node} {trace : Trace}
    (stands : Stands source root trace) :
    ∃ n, root.at? trace.place = some n ∧ n.label = trace.label := by
  cases stands with
  | node place n role kind nameSpan mods bound context visited found shape => exact ⟨n, found, rfl⟩
  | binding place n found binds => exact ⟨n, found, rfl⟩

/-- The nearest place above another one among those that have an image. -/
def Nearest (image : Place → Option NodeId) (place above : Place) : Prop :=
  above <+: place ∧ above ≠ place ∧ (image above).isSome = true ∧
    ∀ other, other <+: place → other ≠ place → (image other).isSome = true → other <+: above

namespace Node

variable (source : String) (root : Node)

theorem origins_length :
    (root.origins source.toList).length = (root.toSyntaxTree source).size := by
  rw [toSyntaxTree_eq, Syntax.treeOfOutlines_size, origins, List.length_cons, List.length_map,
    Trace.length_allOf]

theorem toSyntaxTree_root :
    (root.toSyntaxTree source).node? SyntaxTree.root =
      some ⟨.sourceFile, none, ⟨0, Text.byteLength source.toList⟩, none, .empty,
        Outline.ids 1 (Trace.outlines (root.forest source.toList))⟩ := by
  rw [toSyntaxTree_eq, Syntax.treeOfOutlines_root]

variable {source root}

theorem node_of_trace {k : Nat} {trace : Trace}
    (listed : (Trace.allOf (root.forest source.toList))[k]? = some trace) :
    ∃ up above, (root.toSyntaxTree source).node? (k + 1) =
        some ⟨trace.kind, some up, trace.label.span, trace.nameSpan, trace.modifiers,
          Outline.ids (k + 2) (Trace.outlines trace.children)⟩ ∧
      root.image source.toList above = some up ∧
      ((above = [] ∧ trace ∈ root.forest source.toList) ∨
        ∃ outer ∈ Trace.allOf (root.forest source.toList),
          outer.place = above ∧ trace ∈ outer.children) := by
  have lie := Syntax.treeOfOutlines_lieAll source (Trace.outlines (root.forest source.toList))
  rw [← toSyntaxTree_eq] at lie
  obtain ⟨up, lies, hangs⟩ := Trace.lieAll_allOf _ _ _ _ lie k trace listed
  obtain ⟨place, label, kind, nameSpan, modifiers, children⟩ := trace
  have row := lies.1
  rw [Nat.add_comm 1 k] at row
  rcases hangs with ⟨atTop, member⟩ | ⟨j, outer, found, position, member⟩
  · subst atTop
    exact ⟨SyntaxTree.root, [], row, image_root, Or.inl ⟨rfl, member⟩⟩
  · subst position
    refine ⟨1 + j, outer.place, row, ?_, Or.inr ⟨outer, List.mem_of_getElem? found, rfl, member⟩⟩
    rw [Nat.add_comm 1 j]
    exact image_trace found

theorem trace_of_lt {k : Nat} (within : k + 1 < (root.toSyntaxTree source).size) :
    ∃ trace, (Trace.allOf (root.forest source.toList))[k]? = some trace := by
  rw [← origins_length, origins, List.length_cons, List.length_map, Nat.add_lt_add_iff_right] at within
  exact ⟨_, List.getElem?_eq_getElem within⟩

theorem children_of_row {id : NodeId} {node : Syntax.Node}
    (row : (root.toSyntaxTree source).node? id = some node) :
    ∃ traces, node.children = Outline.ids (id + 1) (Trace.outlines traces) ∧
      Outline.LieAll (root.toSyntaxTree source) id (id + 1) (Trace.outlines traces) ∧
      ((node.kind = .sourceFile ∧ traces = root.forest source.toList) ∨
        ∃ trace ∈ Trace.allOf (root.forest source.toList),
          (root.origins source.toList)[id]? = some trace.place ∧ node.kind = trace.kind ∧
          traces = trace.children) := by
  have lie := Syntax.treeOfOutlines_lieAll source (Trace.outlines (root.forest source.toList))
  rw [← toSyntaxTree_eq] at lie
  cases id with
  | zero =>
      have same := row.symm.trans (toSyntaxTree_root source root)
      rw [Option.some.injEq] at same
      subst same
      exact ⟨_, rfl, lie, Or.inl ⟨rfl, rfl⟩⟩
  | succ k =>
      have within : k + 1 < (root.toSyntaxTree source).size := (Array.getElem?_eq_some_iff.mp row).1
      obtain ⟨trace, listed⟩ := trace_of_lt within
      obtain ⟨up, lies, _⟩ := Trace.lieAll_allOf _ _ _ _ lie k trace listed
      have origin := image_eq_some_iff.mp (image_trace listed)
      have member := List.mem_of_getElem? listed
      obtain ⟨place, label, kind, nameSpan, modifiers, children⟩ := trace
      rw [Nat.add_comm 1 k] at lies
      rw [lies.1, Option.some.injEq] at row
      subst row
      exact ⟨children, rfl, lies.2, Or.inr ⟨_, member, origin, rfl, rfl⟩⟩

theorem children_known {id : NodeId} {node : Syntax.Node}
    (row : (root.toSyntaxTree source).node? id = some node) :
    ∀ child ∈ node.children, ((root.toSyntaxTree source).node? child).isSome = true := by
  obtain ⟨traces, children, lie, _⟩ := children_of_row row
  rw [children]
  exact lie.known

theorem nearest_of_trace {trace : Trace} {above : Place}
    (member : trace ∈ Trace.allOf (root.forest source.toList))
    (hangs : (above = [] ∧ trace ∈ root.forest source.toList) ∨
      ∃ outer ∈ Trace.allOf (root.forest source.toList),
        outer.place = above ∧ trace ∈ outer.children) :
    Nearest (root.image source.toList) trace.place above := by
  have laminar := laminar_forest source.toList root
  rcases hangs with ⟨rfl, isTop⟩ | ⟨outer, outerMember, rfl, isChild⟩
  · refine ⟨List.nil_prefix, (forest_place_ne_nil trace member).symm, ?_, ?_⟩
    · rw [image_root]
      rfl
    · intro other within differ known
      rcases mem_origins_iff.mp (image_isSome_iff.mp known) with rfl | ⟨further, listed, rfl⟩
      · exact List.prefix_rfl
      · exact absurd (laminar.top isTop listed within) differ
  · obtain ⟨within, differ⟩ := laminar.below outer outerMember trace isChild
    refine ⟨within, differ, ?_, ?_⟩
    · exact image_isSome_iff.mpr (mem_origins_iff.mpr (Or.inr ⟨outer, outerMember, rfl⟩))
    · intro other inside apart known
      rcases mem_origins_iff.mp (image_isSome_iff.mp known) with rfl | ⟨further, listed, rfl⟩
      · exact List.nil_prefix
      · exact (laminar.nearest outerMember isChild listed inside).resolve_left apart

end Node

theorem Node.shape_of_image {source : List Char} {root n : Node} {place : Place}
    (imaged : (root.image source place).isSome = true) (inside : place ≠ [])
    (found : root.at? place = some n) (noBinding : n.label.kind.isBinding = false) :
    ∃ role kind nameSpan mods bound context, root.role? source place = some role ∧
      Shape.ofRole source n.label.kind n.children role = .node kind nameSpan mods bound context := by
  rcases mem_origins_iff.mp (image_isSome_iff.mp imaged) with atRoot | ⟨trace, member, same⟩
  · exact absurd atRoot inside
  cases stands_forest trace member with
  | binding here m known binds =>
      change here = place at same
      subst same
      rw [found, Option.some.injEq] at known
      subst known
      rw [noBinding] at binds
      cases binds
  | node here m role kind nameSpan mods bound context visited known shape =>
      change here = place at same
      subst same
      rw [found, Option.some.injEq] at known
      subst known
      exact ⟨role, kind, nameSpan, mods, bound, context, visited, shape⟩

/-- A syntax tree follows a concrete tree through the images of its nodes: it has no other nodes, byte
ranges are kept, and the parent of an image is the image of the nearest ancestor that has one. -/
structure Follows (root : Node) (tree : SyntaxTree) (image : Place → Option NodeId) : Prop where
  program : image [] = some SyntaxTree.root
  placed : ∀ place id, image place = some id → (root.at? place).isSome = true ∧ id < tree.size
  injective : ∀ first second id, image first = some id → image second = some id → first = second
  onto : ∀ id, id < tree.size → ∃ place, image place = some id
  top : ∃ node, tree.node? SyntaxTree.root = some node ∧ node.kind = .sourceFile ∧
    node.span = ⟨0, Text.byteLength tree.source.toList⟩ ∧ node.parent = none
  below : ∀ place id n, place ≠ [] → image place = some id → root.at? place = some n →
    ∃ node above, tree.node? id = some node ∧ node.span = n.label.span ∧
      Nearest image place above ∧ node.parent = image above

theorem Node.follows (source : String) (root : Node) :
    Follows root (root.toSyntaxTree source) (root.image source.toList) where
  program := image_root
  placed := by
    intro place id known
    have listed := image_eq_some_iff.mp known
    constructor
    · by_cases inside : place = []
      · subst inside
        rw [at?_nil]
        rfl
      · obtain ⟨k, trace, _, member, rfl⟩ := trace_of_image known inside
        obtain ⟨n, found, _⟩ := (stands_forest trace (List.mem_of_getElem? member)).at?_place
        rw [found]
        rfl
    · rw [← origins_length]
      exact (List.getElem?_eq_some_iff.mp listed).1
  injective := by
    intro first second id left right
    have listed := image_eq_some_iff.mp left
    rw [image_eq_some_iff.mp right, Option.some.injEq] at listed
    exact listed.symm
  onto := by
    intro id within
    rw [← origins_length] at within
    exact ⟨_, image_eq_some_iff.mpr (List.getElem?_eq_getElem within)⟩
  top := by
    refine ⟨_, toSyntaxTree_root source root, rfl, ?_, rfl⟩
    rw [toSyntaxTree_eq, Syntax.treeOfOutlines_source]
  below := by
    intro place id n inside known found
    obtain ⟨k, trace, rfl, listed, rfl⟩ := trace_of_image known inside
    have member := List.mem_of_getElem? listed
    obtain ⟨up, above, row, parent, hangs⟩ := node_of_trace listed
    obtain ⟨same, again, label⟩ := (stands_forest trace member).at?_place
    rw [found, Option.some.injEq] at again
    subst again
    refine ⟨_, above, row, ?_, nearest_of_trace member hangs, parent.symm⟩
    rw [label]

end NamingLint.Concrete
