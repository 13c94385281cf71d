import NamingLint.Proofs.Path.Below

/-! Components of a path behind a folder.

They are those of the folder and then those of the path, where a leading `.` of the path is lost. So paths
with the same components lead to the same place behind every folder, however they are written. -/

namespace NamingLint.Path

def steps (p : Path) : List Component := p.anatomy.2.filterMap component?

variable {p q : Path}

theorem components_eq_steps (p : Path) : p.components = p.anatomy.1.components ++ p.steps := rfl

def Component.isStep : Component → Bool
  | .root | .current => false
  | .parent | .normal _ => true

theorem isStep_of_mem_steps {c : Component} (member : c ∈ p.steps) : c.isStep = true := by
  obtain ⟨part, _, stands⟩ := List.mem_filterMap.mp member
  rw [component?] at stands
  split at stands
  · cases stands
  · split at stands <;> cases stands <;> rfl

theorem steps_eq_filter (p : Path) : p.steps = p.components.filter Component.isStep := by
  have anchor : p.anatomy.1.components.filter Component.isStep = [] := by
    cases p.anatomy.1 <;> rfl
  have own : p.steps.filter Component.isStep = p.steps :=
    List.filter_eq_self.mpr fun c member => isStep_of_mem_steps member
  rw [components_eq_steps, List.filter_append, anchor, own, List.nil_append]

theorem isAbsolute_iff_anchor : p.isAbsolute = true ↔ p.anatomy.1 = .root := by
  rw [isAbsolute, beq_iff_eq, anatomy]
  split
  case h_1 rest text => simp [text]
  case h_2 other =>
      constructor
      · intro slash
        obtain ⟨rest, text⟩ := List.head?_eq_some_iff.mp slash
        exact absurd text (other rest)
      · intro isRoot
        split at isRoot <;> cases isRoot

theorem isAbsolute_iff_mem : p.isAbsolute = true ↔ .root ∈ p.components := by
  have noStep : .root ∉ p.steps := by
    intro member
    exact absurd (isStep_of_mem_steps member) Bool.false_ne_true
  rw [isAbsolute_iff_anchor, components_eq_steps, List.mem_append, or_iff_left noStep]
  cases p.anatomy.1 <;> simp [Anchor.components]

theorem filterMap_splitParts (relative : p.text.toList.head? ≠ some '/') :
    (splitParts p.text.toList).filterMap component? = p.steps := by
  rw [steps]
  by_cases dot : (splitParts p.text.toList).head? = some "."
  · obtain ⟨parts, split⟩ := List.head?_eq_some_iff.mp dot
    rw [anatomy_of_current relative split, split]
    rfl
  · rw [anatomy_of_free relative dot]

theorem components_join (root : Path) (relative : p.text.toList.head? ≠ some '/')
    (written : root.text ≠ "") : (root.join p).components = root.components ++ p.steps := by
  have nothing : (splitParts []).filterMap component? = [] := by decide
  obtain ⟨front, joined, ends⟩ := toList_join root p relative written
  rw [← filterMap_splitParts relative, components, components]
  by_cases atRoot : front = []
  · rw [atRoot] at joined ends
    rcases ends with text | text
    · exact absurd (String.toList_eq_nil_iff.mp text) written
    · rw [anatomy_of_slash joined, anatomy_of_slash text, nothing, List.append_nil]
  · obtain ⟨anchor, base, _, alone, further⟩ := anatomy_front atRoot
    rw [further _ _ joined, List.filterMap_append, ← List.append_assoc]
    rcases ends with text | text
    · rw [alone root text]
    · rw [further root [] text, List.filterMap_append, nothing, List.append_nil]

theorem join_of_absolute (root : Path) (absolute : p.isAbsolute = true) : root.join p = p := by
  rw [join, if_pos absolute]

theorem join_of_unwritten {root : Path} (empty : root.text = "") : root.join p = p := by
  rw [join, empty]
  split
  · rfl
  · rw [if_pos (by decide), String.empty_append]

/-- Paths with the same components have the same components behind a folder. -/
theorem components_join_congr (root : Path) (same : p.components = q.components) :
    (root.join p).components = (root.join q).components := by
  cases absolute : p.isAbsolute with
  | true =>
      have alsoAbsolute : q.isAbsolute = true := by
        rw [isAbsolute_iff_mem, ← same, ← isAbsolute_iff_mem, absolute]
      rw [join_of_absolute root absolute, join_of_absolute root alsoAbsolute, same]
  | false =>
      have alsoRelative : q.isAbsolute = false := by
        rw [Bool.eq_false_iff, ne_eq, isAbsolute_iff_mem, ← same, ← isAbsolute_iff_mem, absolute]
        exact Bool.false_ne_true
      by_cases empty : root.text = ""
      · rw [join_of_unwritten empty, join_of_unwritten empty, same]
      · calc
          (root.join p).components = root.components ++ p.steps :=
            components_join root (beq_eq_false_iff_ne.mp absolute) empty
          _ = root.components ++ q.steps := by rw [steps_eq_filter, same, ← steps_eq_filter]
          _ = (root.join q).components :=
            (components_join root (beq_eq_false_iff_ne.mp alsoRelative) empty).symm

end NamingLint.Path
