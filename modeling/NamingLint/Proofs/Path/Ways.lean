import NamingLint.Proofs.Path.Join

/-! Ways down from a folder.

A walk puts one name at a time behind the path that it has come to. The path at the end of the way is the
folder joined with all names at once, and different ways end at paths with different components. -/

namespace NamingLint.Path

def descend (root : Path) (way : List String) : Path := way.foldl (fun p name => p.join ⟨name⟩) root

/-- What stands in front of a path that is put behind a folder. -/
def lead (root : Path) : String :=
  if root.text.isEmpty || root.text.toList.getLast? == some '/' then root.text else root.text ++ "/"

variable {root : Path} {way : List String}

theorem join_eq_lead {p : Path} (relative : p.text.toList.head? ≠ some '/') :
    root.join p = ⟨root.lead ++ p.text⟩ := by
  have notAbsolute : p.isAbsolute = false := beq_eq_false_iff_ne.mpr relative
  rw [join, notAbsolute, if_neg Bool.false_ne_true, lead]
  split <;> rfl

theorem IsStep.relative {name : String} (step : IsStep name) : name.toList.head? ≠ some '/' := by
  intro slash
  exact step.2 (List.mem_of_head? slash)

theorem lead_join {name : String} (step : IsStep name) :
    (root.join ⟨name⟩).lead = root.lead ++ name ++ "/" := by
  have written : name.toList ≠ [] := by
    intro empty
    rw [String.toList_eq_nil_iff] at empty
    rw [empty] at step
    exact absurd step.1 (by decide)
  have notEmpty : (root.lead ++ name).isEmpty = false := by
    rw [Bool.eq_false_iff, ne_eq, String.isEmpty_iff, ← String.toList_eq_nil_iff, String.toList_append,
      List.append_eq_nil_iff]
    exact fun empty => written empty.2
  have noSlash : (root.lead ++ name).toList.getLast? ≠ some '/' := by
    intro slash
    rw [String.toList_append, List.getLast?_append, List.getLast?_eq_some_getLast written,
      Option.some_or, Option.some.injEq] at slash
    exact step.2 (slash ▸ List.getLast_mem written)
  rw [join_eq_lead step.relative, lead, notEmpty, Bool.false_or,
    if_neg fun same => noSlash (beq_iff_eq.mp same)]

theorem joinParts_cons_cons (first second : String) (rest : List String) :
    joinParts (first :: second :: rest) = first ++ "/" ++ joinParts (second :: rest) := by
  rw [← String.toList_inj, toList_joinParts, String.toList_append, String.toList_append, toList_joinParts]
  simp

theorem descend_eq_join (some : way ≠ []) (steps : ∀ name ∈ way, IsStep name) :
    root.descend way = root.join ⟨joinParts way⟩ := by
  induction way generalizing root with
  | nil => exact absurd rfl some
  | cons first rest ih =>
      rw [descend, List.foldl_cons]
      obtain ⟨step, later⟩ := List.forall_mem_cons.mp steps
      cases rest with
      | nil => rw [List.foldl_nil, joinParts, List.map_singleton, List.intercalate_singleton,
          String.ofList_toList]
      | cons second rest =>
          have others : second :: rest ≠ [] := List.cons_ne_nil second rest
          have relative := (anatomy_of_steps others later).1
          calc
            (root.join ⟨first⟩).descend (second :: rest)
            _ = (root.join ⟨first⟩).join ⟨joinParts (second :: rest)⟩ := ih others later
            _ = ⟨root.lead ++ first ++ "/" ++ joinParts (second :: rest)⟩ := by
              rw [join_eq_lead (p := ⟨joinParts (second :: rest)⟩) relative, lead_join step]
            _ = ⟨root.lead ++ joinParts (first :: second :: rest)⟩ := by
              rw [joinParts_cons_cons, String.append_assoc, String.append_assoc, String.append_assoc]
            _ = root.join ⟨joinParts (first :: second :: rest)⟩ :=
              (join_eq_lead (anatomy_of_steps some steps).1).symm

def Component.written : Component → String
  | .root => "/"
  | .current => "."
  | .parent => ".."
  | .normal name => name

theorem written_filterMap_component? (steps : ∀ name ∈ way, IsStep name) :
    (way.filterMap component?).map Component.written = way := by
  induction way with
  | nil => rfl
  | cons name way ih =>
      obtain ⟨step, later⟩ := List.forall_mem_cons.mp steps
      by_cases up : name = ".."
      · have stands : component? name = some .parent := by rw [up]; decide
        rw [List.filterMap_cons_some stands, List.map_cons, ih later, up]
        rfl
      · have stands : component? name = some (.normal name) := by
          rw [component?, step.1, if_neg Bool.false_ne_true, if_neg up]
        rw [List.filterMap_cons_some stands, List.map_cons, ih later]
        rfl

theorem components_descend (root : Path) (steps : ∀ name ∈ way, IsStep name) :
    (root.descend way).components = root.components ++ way.filterMap component? := by
  by_cases some : way = []
  · rw [some, descend, List.foldl_nil, List.filterMap_nil, List.append_nil]
  · obtain ⟨anchor, base, idle, unused, own, joined, _⟩ := anatomy_join root some steps
    rw [descend_eq_join some steps, components, components, joined, own, List.filterMap_append,
      List.filterMap_append, filterMap_component?_of_idle unused, List.append_nil, List.append_assoc]

theorem descend_components_inj {other : List String} (steps : ∀ name ∈ way, IsStep name)
    (otherSteps : ∀ name ∈ other, IsStep name)
    (same : (root.descend way).components = (root.descend other).components) : way = other := by
  rw [components_descend root steps, components_descend root otherSteps,
    List.append_cancel_left_eq] at same
  rw [← written_filterMap_component? steps, same, written_filterMap_component? otherSteps]

theorem relativeTo_descend (some : way ≠ []) (steps : ∀ name ∈ way, IsStep name) :
    (root.descend way).relativeTo root = ⟨joinParts way⟩ := by
  rw [descend_eq_join some steps, relativeTo, relativeTo?_join some steps, Option.getD_some]

theorem joinParts_ne_empty (some : way ≠ []) (steps : ∀ name ∈ way, IsStep name) : joinParts way ≠ "" := by
  intro empty
  have own := (anatomy_of_steps some steps).2
  rw [empty] at own
  have single : way = [""] := (Prod.mk.inj own).2.symm
  exact absurd (steps "" (by simp [single])).1 (by decide)

theorem components_join_empty (p : Path) : (p.join ⟨""⟩).components = p.components := by
  by_cases written : p.text = ""
  · have unnamed : p = ⟨""⟩ := by rw [← written]
    rw [unnamed]
    rfl
  · have nothing : steps ⟨""⟩ = [] := by decide
    rw [components_join p (by decide) written, nothing, List.append_nil]

theorem trimEnd_of_idle {parts : List String} (idle : ∀ part ∈ parts, isIdle part = true) :
    trimEnd parts = [] := by
  have backwards : ∀ part ∈ parts.reverse, isIdle part = true := by
    intro part member
    exact idle part (List.mem_reverse.mp member)
  rw [trimEnd, ← List.append_nil parts.reverse, List.dropWhile_append_of_pos backwards]
  rfl

theorem relativeTo_self (p : Path) : p.relativeTo p = ⟨""⟩ := by
  have whole : p.anatomy = (p.anatomy.1, p.anatomy.2 ++ []) := by rw [List.append_nil]
  have below : p.relativeTo? p = some ⟨joinParts []⟩ := by
    apply relativeTo?_of_anatomy (by simp) whole whole (by simp)
    intro _ none
    rw [List.append_nil]
    apply trimEnd_of_idle
    intro part member
    exact component?_eq_none_iff.mp (List.filterMap_eq_nil_iff.mp none part member)
  rw [relativeTo, below, Option.getD_some]
  rfl

/-- What a path is below a folder leads from the folder back to it. -/
theorem components_join_relativeTo (root : Path) (steps : ∀ name ∈ way, IsStep name) :
    (root.join ((root.descend way).relativeTo root)).components = (root.descend way).components := by
  by_cases atRoot : way = []
  · rw [atRoot, descend, List.foldl_nil, relativeTo_self, components_join_empty]
  · rw [relativeTo_descend atRoot steps, ← descend_eq_join atRoot steps]

end NamingLint.Path
