import NamingLint.Path

/-! Extensions of paths, told from the last component.

A file name has an extension if a dot stands behind its first character. The extension is what follows the
last dot, so it has no dot itself, and what stands before that dot is not empty. -/

namespace NamingLint.Path

variable {p : Path}

theorem ofList_dotted (stem extension : List Char) :
    String.ofList (stem ++ '.' :: extension) =
      String.ofList stem ++ "." ++ String.ofList extension := by
  rw [← String.toList_inj]
  simp

theorem extensionOf?_ofList {stem extension : List Char} (written : stem ≠ [])
    (plain : '.' ∉ extension) :
    extensionOf? (String.ofList (stem ++ '.' :: extension)) = some (String.ofList extension) := by
  have backwards : (stem ++ '.' :: extension).reverse = extension.reverse ++ '.' :: stem.reverse := by
    rw [List.reverse_append, List.reverse_cons, List.append_assoc, List.singleton_append]
  have passes : ∀ c ∈ extension.reverse, (c != '.') = true := by
    intro c member
    rw [bne_iff_ne]
    intro dot
    exact plain (dot ▸ List.mem_reverse.mp member)
  have stops : ∀ rest : List Char, ('.' :: rest).takeWhile (· != '.') = [] ∧
      ('.' :: rest).dropWhile (· != '.') = '.' :: rest := fun _ => ⟨rfl, rfl⟩
  obtain ⟨c, rest, reversed⟩ : ∃ c rest, stem.reverse = c :: rest :=
    List.exists_cons_of_ne_nil (List.reverse_ne_nil_iff.mpr written)
  rw [extensionOf?, String.toList_ofList, backwards, List.takeWhile_append_of_pos passes,
    List.dropWhile_append_of_pos passes, (stops _).1, (stops _).2, List.append_nil,
    List.reverse_reverse, reversed]

theorem extensionOf?_eq_some_iff {name extension : String} :
    extensionOf? name = some extension ↔
      ∃ stem, stem ≠ "" ∧ name = stem ++ "." ++ extension ∧ '.' ∉ extension.toList := by
  constructor
  · intro found
    rw [extensionOf?] at found
    split at found
    case h_1 dot c rest dropped =>
        have whole : name.toList.reverse =
            name.toList.reverse.takeWhile (· != '.') ++ dot :: c :: rest := by
          rw [← dropped, List.takeWhile_append_dropWhile]
        have isDot : dot = '.' := by
          have stopped := List.head?_dropWhile_not (· != '.') name.toList.reverse
          rw [dropped] at stopped
          exact bne_eq_false_iff_eq.mp stopped
        cases found
        refine ⟨String.ofList (c :: rest).reverse, ?_, ?_, ?_⟩
        · simp
        · have forwards := congrArg List.reverse whole
          rw [List.reverse_reverse, List.reverse_append, List.reverse_cons, isDot, List.append_assoc,
            List.singleton_append] at forwards
          calc
            name = String.ofList name.toList := String.ofList_toList.symm
            _ = _ := congrArg String.ofList forwards
            _ = _ := ofList_dotted _ _
        · intro member
          rw [String.toList_ofList, List.mem_reverse] at member
          have passed := List.all_eq_true.mp List.all_takeWhile '.' member
          cases passed
    case h_2 => cases found
  · intro cut
    obtain ⟨stem, written, rfl, plain⟩ := cut
    have nonempty : stem.toList ≠ [] := fun empty => written (String.toList_eq_nil_iff.mp empty)
    have cut := extensionOf?_ofList nonempty plain
    rwa [ofList_dotted, String.ofList_toList, String.ofList_toList] at cut

theorem fileName?_eq_some_iff {name : String} :
    p.fileName? = some name ↔ p.components.getLast? = some (.normal name) := by
  rw [fileName?]
  split
  case h_1 other last => rw [last, Option.some.injEq, Option.some.injEq, Component.normal.injEq]
  case h_2 noName =>
      constructor
      · intro impossible
        cases impossible
      · intro last
        exact absurd last (noName name)

/-- A path has a given extension exactly if its last component ends in it and in more than it. -/
theorem hasExtensionIn_singleton_iff (p : Path) (extension : String)
    (plain : '.' ∉ extension.toList) :
    p.hasExtensionIn ["." ++ extension] = true ↔
      ∃ stem, stem ≠ "" ∧ p.components.getLast? = some (.normal (stem ++ ("." ++ extension))) := by
  have same : p.hasExtensionIn ["." ++ extension] = true ↔ p.extension? = some extension := by
    rw [hasExtensionIn]
    cases p.extension? with
    | none => simp
    | some own => simp [String.append_right_inj]
  rw [same, extension?, Option.bind_eq_some_iff]
  simp only [fileName?_eq_some_iff, extensionOf?_eq_some_iff, String.append_assoc]
  constructor
  · intro found
    obtain ⟨_, last, stem, written, rfl, _⟩ := found
    exact ⟨stem, written, last⟩
  · intro ending
    obtain ⟨stem, written, last⟩ := ending
    exact ⟨_, last, stem, written, rfl, plain⟩

end NamingLint.Path
