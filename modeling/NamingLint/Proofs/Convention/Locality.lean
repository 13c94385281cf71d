import NamingLint.Proofs.Convention.Resemblance
import NamingLint.Proofs.Syntax.Leaves

/-! A leaf adds its own findings to those of a tree and changes no others.

The node above a leaf lists one child more. Only a statement looks at its children, and only at variable
declarations among them, so any other leaf is unseen by the nodes that were there before. -/

namespace NamingLint

open Syntax
open SyntaxTree (AddsLeaf Grown Linked Resembles)

namespace Convention

variable {tree : SyntaxTree} {tips : Tips}

def findingsAlong (tips : Tips) (tree : SyntaxTree) (ids : List NodeId) :
    Except TreeError (List Finding) :=
  ids.foldlM (visit tips tree) []

theorem check_eq_findingsAlong (tips : Tips) (tree : SyntaxTree) :
    check tips tree = findingsAlong tips tree tree.preorder := check_eq_foldlM tips tree

theorem findingsAlong_eq_mapM (tips : Tips) (tree : SyntaxTree) (ids : List NodeId) :
    findingsAlong tips tree ids = (ids.mapM (findingsAt tips tree)).map List.flatten := by
  rw [findingsAlong, foldlM_visit]
  simp only [List.nil_append]

theorem findingsAlong_singleton (id : NodeId) :
    findingsAlong tips tree [id] = visit tips tree [] id := by
  rw [findingsAlong, List.foldlM_cons]
  simp only [List.foldlM_nil, bind_pure]

theorem findingsAlong_append (front back : List NodeId) :
    findingsAlong tips tree (front ++ back) = do
      return (← findingsAlong tips tree front) ++ (← findingsAlong tips tree back) := by
  simp only [findingsAlong_eq_mapM, List.mapM_append]
  cases front.mapM (findingsAt tips tree) with
  | error error => rfl
  | ok rows =>
      cases back.mapM (findingsAt tips tree) with
      | error error => rfl
      | ok others => simp [bind, Except.bind, pure, Except.pure, Except.map]

theorem findingsAlong_append_eq_ok_iff {front back : List NodeId} {found : List Finding} :
    findingsAlong tips tree (front ++ back) = .ok found ↔
      ∃ first second, findingsAlong tips tree front = .ok first ∧
        findingsAlong tips tree back = .ok second ∧ found = first ++ second := by
  rw [findingsAlong_append, bind_eq_ok_iff]
  simp only [bind_pure_eq_ok_iff, exists_and_left]

theorem findingsAlong_congr {other : SyntaxTree} {ids : List NodeId}
    (same : ∀ id ∈ ids, findingsAt tips other id = findingsAt tips tree id) :
    findingsAlong tips other ids = findingsAlong tips tree ids := by
  rw [findingsAlong_eq_mapM, findingsAlong_eq_mapM, mapM_congr same]

end Convention

namespace SyntaxTree.AddsLeaf

open Convention

variable {source : String} {tree wider : SyntaxTree} {up : Nat} {kind : Kind} {span : Span}
  (adds : AddsLeaf tree up kind span wider) (grew : Grown source tree) (earlier : up < tree.size)
  (unbound : ¬ (kind = .variableDeclaration ∧ tree.kindOf? up = some .variableStatement))
include adds grew earlier unbound

theorem resembles {id : Nat} (old : id < tree.size) : Resembles tree wider id id := by
  have linked := grew.built.linked
  refine ⟨adds.contentOf?_eq old, ?_, ?_⟩
  · apply around?_congr
    · rw [adds.parentOf?_eq, if_neg (Nat.ne_of_lt old)]
    · intro above isParent
      have within := ((grew.connected old).parent linked isParent).2.lt_size linked
      rw [frameOf?_eq_content, adds.contentOf?_eq within, frameOf?_eq_content]
  · intro isStatement
    have oldChildren : wider.declarations (tree.childrenOf id) =
        tree.declarations (tree.childrenOf id) := by
      apply declarations_congr
      intro c member
      exact adds.contentOf?_eq (grew.child_later member).2.1
    have leafUnseen : wider.declarations (if id = up then [tree.size] else []) = [] := by
      split
      · rename_i isParent
        have isOther : kind ≠ .variableDeclaration := by
          intro isDeclaration
          exact unbound ⟨isDeclaration, isParent ▸ isStatement⟩
        rw [declarations, List.filterMap_cons,
          declared?_eq_none (adds.kindOf?_leaf earlier) isOther, List.filterMap_nil]
      · rfl
    calc
      wider.declarations (wider.childrenOf id) =
          wider.declarations (tree.childrenOf id) ++
            wider.declarations (if id = up then [tree.size] else []) := by
        rw [adds.childrenOf_eq earlier, declarations, List.filterMap_append, declarations, declarations]
      _ = tree.declarations (tree.childrenOf id) := by
        rw [leafUnseen, List.append_nil, oldChildren]

theorem findingsAt_eq {id : Nat} (old : id < tree.size) (tips : Tips) :
    findingsAt tips wider id = findingsAt tips tree id := by
  have grownWider := adds.grown grew earlier
  have stillOld : id < wider.size := by
    rw [adds.size_eq]
    omega
  exact ((adds.resembles grew earlier unbound old).verdicts_eq adds.source_eq grew.built.linked
    (grew.connected old) grownWider.built.linked (grownWider.connected stillOld)).2 tips

theorem findingsAlong_eq {ids : List NodeId} (old : ∀ id ∈ ids, id ∈ tree.preorder) (tips : Tips) :
    findingsAlong tips wider ids = findingsAlong tips tree ids := by
  apply findingsAlong_congr
  intro id member
  have connected := (grew.built.linked.mem_preorder_iff id).mp (old id member)
  exact adds.findingsAt_eq grew earlier unbound (connected.lt_size grew.built.linked) tips

/-- The check of the wider tree, in the findings of the old nodes and those at the leaf. -/
theorem check_eq {front behind : List NodeId} (walk : tree.preorder = front ++ behind)
    (wideWalk : wider.preorder = front ++ tree.size :: behind) (tips : Tips) :
    check tips wider = do
      let first ← findingsAlong tips tree front
      let here ← visit tips wider [] tree.size
      let second ← findingsAlong tips tree behind
      return first ++ (here ++ second) := by
  have sameFront := adds.findingsAlong_eq grew earlier unbound
    (fun id (member : id ∈ front) => by simp [walk, member]) tips
  have sameBehind := adds.findingsAlong_eq grew earlier unbound
    (fun id (member : id ∈ behind) => by simp [walk, member]) tips
  have split : front ++ tree.size :: behind = front ++ ([tree.size] ++ behind) := rfl
  rw [check_eq_findingsAlong, wideWalk, split, findingsAlong_append, findingsAlong_append,
    findingsAlong_singleton, sameFront, sameBehind]
  simp only [bind_assoc, pure_bind]

end SyntaxTree.AddsLeaf

namespace Convention

/-- A leaf that is no variable declaration of a statement leaves the findings at all other nodes as they
are. The walk comes to it right behind the subtree of its parent, so if the tree passes and the leaf can be
read, its findings are put in between, behind those of the subtree. A leaf of a kind that the convention
says nothing about changes nothing. -/
theorem leaf_adds_its_own_findings {source : String} {tree wider : SyntaxTree} {up : NodeId} {kind : Kind}
    {span : Span} (grown : Grown source tree) (earlier : up < tree.size)
    (adds : AddsLeaf tree up kind span wider)
    (unbound : ¬ (kind = .variableDeclaration ∧ tree.kindOf? up = some .variableStatement))
    (tips : Tips) :
    (∀ id < tree.size, findingsAt tips wider id = findingsAt tips tree id) ∧
    (∃ ahead behind, tree.preorder = ahead ++ tree.subtree up ++ behind ∧
      wider.preorder = ahead ++ tree.subtree up ++ tree.size :: behind ∧
      ∀ found here, check tips tree = .ok found → visit tips wider [] tree.size = .ok here →
        ∃ before inside after, findingsAlong tips tree ahead = .ok before ∧
          findingsAlong tips tree (tree.subtree up) = .ok inside ∧
          findingsAlong tips tree behind = .ok after ∧
          found = before ++ inside ++ after ∧
          check tips wider = .ok (before ++ inside ++ here ++ after)) ∧
    (kind ∈ silentKinds → check tips wider = check tips tree) := by
  obtain ⟨ahead, behind, walk, wideWalk⟩ := adds.preorder_split grown earlier
  have wideCheck := adds.check_eq grown earlier unbound walk wideWalk tips
  refine ⟨fun id old => adds.findingsAt_eq grown earlier unbound old tips,
    ⟨ahead, behind, walk, wideWalk, ?_⟩, ?_⟩
  · intro found here passed atLeaf
    rw [check_eq_findingsAlong, walk, findingsAlong_append_eq_ok_iff] at passed
    obtain ⟨front, after, isFront, isAfter, rfl⟩ := passed
    obtain ⟨before, inside, isBefore, isInside, rfl⟩ := findingsAlong_append_eq_ok_iff.mp isFront
    refine ⟨before, inside, after, isBefore, isInside, isAfter, rfl, ?_⟩
    rw [wideCheck, isFront, atLeaf, isAfter, List.append_assoc _ here after]
    rfl
  · intro silent
    have atLeaf : visit tips wider [] tree.size = .ok [] := by
      rw [visit_eq, findingsAt_of_silent (adds.kindOf?_leaf earlier) silent]
      rfl
    rw [wideCheck, atLeaf, check_eq_findingsAlong, walk,
      findingsAlong_append (ahead ++ tree.subtree up) behind]
    rfl

def twoClassTree : SyntaxTree :=
  ((((SyntaxTree.ofSource "class a (b) class c let D").push 0 .classDeclaration ⟨0, 11⟩).setName 1
    ⟨6, 1⟩).push 0 .classDeclaration ⟨12, 7⟩).setName 2 ⟨18, 1⟩ |>.push 0 .variableStatement ⟨20, 5⟩

theorem twoClassTree_grown : Grown "class a (b) class c let D" twoClassTree :=
  .push (.setName (.push (.setName (.push .fresh _ _ _ (by decide)) ..) _ _ _ (by decide)) ..) _ _ _
    (by decide)

def methodTree : SyntaxTree :=
  ((twoClassTree.push 1 .methodDeclaration ⟨9, 1⟩).setName 4 ⟨9, 1⟩).setModifiers 4 (.ofList [.static])

theorem twoClassTree_with_leaf :
    check .egret twoClassTree = .ok
      [⟨.className, ⟨0, 11⟩, Tips.egret .className⟩, ⟨.className, ⟨12, 7⟩, Tips.egret .className⟩] ∧
    visit .egret methodTree [] 4 = .ok [⟨.staticMethod, ⟨9, 1⟩, Tips.egret .staticMethod⟩] ∧
    (∃ before inside after,
      findingsAlong .egret twoClassTree (twoClassTree.subtree 1) = .ok inside ∧
      [⟨.className, ⟨0, 11⟩, Tips.egret .className⟩, ⟨.className, ⟨12, 7⟩, Tips.egret .className⟩] =
        before ++ inside ++ after ∧
      check .egret methodTree =
        .ok (before ++ inside ++ [⟨.staticMethod, ⟨9, 1⟩, Tips.egret .staticMethod⟩] ++ after)) ∧
    check .egret (twoClassTree.push 3 .moduleBlock ⟨20, 5⟩) = check .egret twoClassTree := by
  have passed : check .egret twoClassTree = .ok [⟨.className, ⟨0, 11⟩, Tips.egret .className⟩,
      ⟨.className, ⟨12, 7⟩, Tips.egret .className⟩] := by decide +kernel
  have atLeaf : visit .egret methodTree [] 4 =
      .ok [⟨.staticMethod, ⟨9, 1⟩, Tips.egret .staticMethod⟩] := by decide +kernel
  have adds : AddsLeaf twoClassTree 1 .methodDeclaration ⟨9, 1⟩ methodTree :=
    .setModifiers (.setName .push _) _
  obtain ⟨_, ⟨_, _, _, _, inserted⟩, _⟩ :=
    leaf_adds_its_own_findings twoClassTree_grown (by decide) adds (by decide) .egret
  obtain ⟨before, inside, after, _, isInside, _, split, result⟩ := inserted _ _ passed atLeaf
  have addsBlock : AddsLeaf twoClassTree 3 .moduleBlock ⟨20, 5⟩
      (twoClassTree.push 3 .moduleBlock ⟨20, 5⟩) := .push
  obtain ⟨_, _, unseen⟩ :=
    leaf_adds_its_own_findings twoClassTree_grown (by decide) addsBlock (by decide) .egret
  exact ⟨passed, atLeaf, ⟨before, inside, after, isInside, split, result⟩, unseen (by decide)⟩

end Convention

end NamingLint
