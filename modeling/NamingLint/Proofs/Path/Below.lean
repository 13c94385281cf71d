import NamingLint.Path
import NamingLint.Proofs.Text.Lines

/-! Paths below a folder.

A path that is put behind a folder comes back as it was written when it is taken relative to the folder
again, however the folder itself is written. -/

namespace NamingLint.Path

/-- A part that counts for something, and is a single part. -/
def IsStep (part : String) : Prop := isIdle part = false ∧ '/' ∉ part.toList

instance (part : String) : Decidable (IsStep part) :=
  inferInstanceAs (Decidable (isIdle part = false ∧ '/' ∉ part.toList))

section Parts

variable {parts : List String}

theorem toList_joinParts : (joinParts parts).toList = ['/'].intercalate (parts.map String.toList) := by
  rw [joinParts, String.toList_ofList]

theorem splitParts_joinParts (any : parts ≠ []) (single : ∀ part ∈ parts, '/' ∉ part.toList) :
    splitParts (joinParts parts).toList = parts := by
  have clean : ∀ piece ∈ parts.map String.toList, '/' ∉ piece := by
    intro piece member
    obtain ⟨part, isPart, rfl⟩ := List.mem_map.mp member
    exact single part isPart
  have some : parts.map String.toList ≠ [] := by
    rw [ne_eq, List.map_eq_nil_iff]
    exact any
  rw [splitParts, toList_joinParts, List.splitOn_intercalate '/' clean some]
  simp only [List.map_map, Function.comp_def, String.ofList_toList, List.map_id']

theorem splitParts_separated (front back : List Char) :
    splitParts (front ++ '/' :: back) = splitParts front ++ splitParts back := by
  rw [splitParts, List.splitOn_append_cons_self, List.map_append]
  rfl

theorem component?_eq_none_iff {part : String} : component? part = none ↔ isIdle part = true := by
  rw [component?]
  split
  case isTrue idle => exact ⟨fun _ => idle, fun _ => rfl⟩
  case isFalse counts =>
      constructor
      · intro none
        split at none <;> cases none
      · intro idle
        exact absurd idle counts

theorem filterMap_component?_of_idle (idle : ∀ part ∈ parts, isIdle part = true) :
    parts.filterMap component? = [] := by
  rw [List.filterMap_eq_nil_iff]
  intro part isPart
  exact component?_eq_none_iff.mpr (idle part isPart)

theorem dropWhile_isIdle_of_counts (counts : ∀ part ∈ parts, isIdle part = false) :
    parts.dropWhile isIdle = parts := by
  cases parts with
  | nil => rfl
  | cons part parts =>
      apply List.dropWhile_cons_of_neg
      rw [counts part List.mem_cons_self]
      exact Bool.false_ne_true

theorem trimEnd_of_counts (counts : ∀ part ∈ parts, isIdle part = false) : trimEnd parts = parts := by
  rw [trimEnd, dropWhile_isIdle_of_counts, List.reverse_reverse]
  intro part isPart
  exact counts part (List.mem_reverse.mp isPart)

theorem trimmedText_of_counts {idle : List String} (unused : ∀ part ∈ idle, isIdle part = true)
    (counts : ∀ part ∈ parts, isIdle part = false) :
    trimmedText (idle ++ parts) = joinParts parts := by
  rw [trimmedText, List.dropWhile_append_of_pos unused, dropWhile_isIdle_of_counts counts,
    trimEnd_of_counts counts]

theorem dropComponents_base (base parts : List String) :
    ∃ idle, (∀ part ∈ idle, isIdle part = true) ∧
      dropComponents (base.filterMap component?) (base ++ parts) = some (idle ++ parts) := by
  induction base with
  | nil => exact ⟨[], by simp, by rw [List.filterMap_nil, dropComponents, List.nil_append]⟩
  | cons part base ih =>
      obtain ⟨idle, unused, dropped⟩ := ih
      cases component : component? part with
      | none =>
          rw [List.filterMap_cons_none component]
          cases rest : base.filterMap component? with
          | nil =>
              refine ⟨part :: base, ?_, dropComponents.eq_1 _⟩
              intro other member
              apply component?_eq_none_iff.mp
              rcases List.mem_cons.mp member with rfl | isPart
              · exact component
              · exact List.filterMap_eq_nil_iff.mp rest other isPart
          | cons c cs =>
              rw [rest] at dropped
              refine ⟨idle, unused, ?_⟩
              simp only [List.cons_append, dropComponents, component, dropped]
      | some c =>
          rw [List.filterMap_cons_some component]
          refine ⟨idle, unused, ?_⟩
          simp only [List.cons_append, dropComponents, component, if_true, dropped]

end Parts

section Anatomy

variable {p : Path}

theorem anatomy_of_slash {rest : List Char} (text : p.text.toList = '/' :: rest) :
    p.anatomy = (.root, splitParts rest) := by
  simp only [anatomy, text]

theorem anatomy_of_current {parts : List String} (relative : p.text.toList.head? ≠ some '/')
    (split : splitParts p.text.toList = "." :: parts) : p.anatomy = (.current, parts) := by
  rw [anatomy]
  split
  case h_1 rest text =>
      rw [text] at relative
      exact absurd rfl relative
  case h_2 => simp only [split]

theorem anatomy_of_free (relative : p.text.toList.head? ≠ some '/')
    (named : (splitParts p.text.toList).head? ≠ some ".") :
    p.anatomy = (.free, splitParts p.text.toList) := by
  rw [anatomy]
  split
  case h_1 rest text =>
      rw [text] at relative
      exact absurd rfl relative
  case h_2 =>
      split
      case h_1 parts split =>
          rw [split] at named
          exact absurd rfl named
      case h_2 => rfl

end Anatomy

section Join

variable {root : Path} {parts : List String}

theorem splitParts_cons {c : Char} (other : c ≠ '/') (text : List Char) :
    ∃ first others, splitParts (c :: text) = first :: others ∧ first ≠ "" := by
  obtain ⟨piece, pieces, split⟩ := List.exists_cons_of_ne_nil (List.splitOn_ne_nil '/' text)
  refine ⟨String.ofList (c :: piece), pieces.map String.ofList, ?_, by simp⟩
  rw [splitParts, List.splitOn_cons_eq_if_modifyHead, if_neg (by simpa using other), split]
  rfl

theorem anatomy_of_steps (any : parts ≠ []) (steps : ∀ part ∈ parts, IsStep part) :
    (joinParts parts).toList.head? ≠ some '/' ∧ (Path.mk (joinParts parts)).anatomy = (.free, parts) := by
  have split := splitParts_joinParts any fun part isPart => (steps part isPart).2
  have relative : (joinParts parts).toList.head? ≠ some '/' := by
    intro slash
    obtain ⟨rest, text⟩ := List.head?_eq_some_iff.mp slash
    have first : "" ∈ parts := by
      rw [← split, text, splitParts, List.splitOn_cons_eq_if_modifyHead, if_pos BEq.rfl]
      exact List.mem_cons_self
    exact absurd (steps "" first).1 (by decide)
  refine ⟨relative, ?_⟩
  have named : (splitParts (joinParts parts).toList).head? ≠ some "." := by
    rw [split]
    intro dot
    exact absurd (steps "." (List.mem_of_head? dot)).1 (by decide)
  exact (anatomy_of_free (p := ⟨joinParts parts⟩) relative named).trans (by rw [split])

theorem toList_join (root below : Path) (relative : below.text.toList.head? ≠ some '/')
    (written : root.text ≠ "") :
    ∃ front, (root.join below).text.toList = front ++ '/' :: below.text.toList ∧
      (root.text.toList = front ∨ root.text.toList = front ++ ['/']) := by
  have notAbsolute : below.isAbsolute = false := beq_eq_false_iff_ne.mpr relative
  have notEmpty : root.text.isEmpty = false := by
    rw [Bool.eq_false_iff]
    intro empty
    exact written (String.isEmpty_iff.mp empty)
  rw [join, notAbsolute, notEmpty, Bool.false_or, if_neg Bool.false_ne_true]
  by_cases slash : root.text.toList.getLast? = some '/'
  · rw [if_pos (beq_iff_eq.mpr slash)]
    obtain ⟨front, text⟩ := List.getLast?_eq_some_iff.mp slash
    refine ⟨front, ?_, Or.inr text⟩
    rw [String.toList_append, text, List.append_assoc, List.singleton_append]
  · rw [if_neg (fun same => slash (beq_iff_eq.mp same))]
    refine ⟨root.text.toList, ?_, Or.inl rfl⟩
    rw [String.toList_append, String.toList_append, List.append_assoc]
    rfl

/-- What follows a slash only adds parts, unless the slash is the first character. A path that is not
anchored starts with a part that counts. -/
theorem anatomy_front {front : List Char} (some : front ≠ []) :
    ∃ anchor base, (anchor = .free → base.filterMap component? ≠ []) ∧
      (∀ p : Path, p.text.toList = front → p.anatomy = (anchor, base)) ∧
      ∀ (p : Path) (back : List Char), p.text.toList = front ++ '/' :: back →
        p.anatomy = (anchor, base ++ splitParts back) := by
  obtain ⟨c, tail, rfl⟩ := List.exists_cons_of_ne_nil some
  by_cases slash : c = '/'
  · refine ⟨.root, splitParts tail, nofun, ?_, ?_⟩
    · intro p text
      rw [slash] at text
      exact anatomy_of_slash text
    · intro p back text
      rw [slash, List.cons_append] at text
      rw [anatomy_of_slash text, splitParts_separated]
  · obtain ⟨first, others, split, nonempty⟩ := splitParts_cons slash tail
    have relative : ∀ {p : Path} {more : List Char}, p.text.toList = c :: more →
        p.text.toList.head? ≠ .some '/' := by
      intro p more text same
      rw [text] at same
      exact slash (Option.some.inj same)
    have longer : ∀ back, splitParts (c :: tail ++ '/' :: back) = first :: (others ++ splitParts back) := by
      intro back
      rw [splitParts_separated, split, List.cons_append]
    by_cases dot : first = "."
    · rw [dot] at split longer
      refine ⟨.current, others, nofun, ?_, ?_⟩
      · intro p text
        exact anatomy_of_current (relative text) (by rw [text, split])
      · intro p back text
        exact anatomy_of_current (relative text) (by rw [text, longer])
    · have named : ∀ more : List String, (first :: more).head? ≠ .some "." := by
        intro more same
        exact dot (Option.some.inj same)
      refine ⟨.free, first :: others, ?_, ?_, ?_⟩
      · intro _ none
        have idle := component?_eq_none_iff.mp
          (List.filterMap_eq_nil_iff.mp none first List.mem_cons_self)
        rw [isIdle, Bool.or_eq_true, beq_iff_eq, beq_iff_eq] at idle
        exact idle.elim nonempty dot
      · intro p text
        rw [← text] at split
        rw [anatomy_of_free (relative text) (split ▸ named others), split]
      · intro p back text
        have whole := longer back
        rw [← text] at whole
        rw [anatomy_of_free (relative text) (whole ▸ named _), whole, List.cons_append]

theorem anatomy_join (root : Path) (any : parts ≠ []) (steps : ∀ part ∈ parts, IsStep part) :
    ∃ anchor base idle, (∀ part ∈ idle, isIdle part = true) ∧
      root.anatomy = (anchor, base ++ idle) ∧
      (root.join ⟨joinParts parts⟩).anatomy = (anchor, base ++ parts) ∧
      (anchor = .free → base.filterMap component? = [] → base = []) := by
  obtain ⟨relative, own⟩ := anatomy_of_steps any steps
  have split := splitParts_joinParts any fun part isPart => (steps part isPart).2
  have nothing : ∀ part ∈ [""], isIdle part = true := by decide
  by_cases written : root.text = ""
  · refine ⟨.free, [], [""], nothing, ?_, ?_, fun _ _ => rfl⟩
    · have empty : root = ⟨""⟩ := by rw [← written]
      rw [empty]
      rfl
    · have joined : root.join ⟨joinParts parts⟩ = ⟨joinParts parts⟩ := by
        have notAbsolute : isAbsolute ⟨joinParts parts⟩ = false := beq_eq_false_iff_ne.mpr relative
        rw [join, notAbsolute, if_neg Bool.false_ne_true, written, if_pos (by decide),
          String.empty_append]
      rw [joined, own, List.nil_append]
  · obtain ⟨front, joined, ends⟩ := toList_join root ⟨joinParts parts⟩ relative written
    by_cases atRoot : front = []
    · rw [atRoot, List.nil_append] at joined
      refine ⟨.root, [], [""], nothing, ?_, ?_, nofun⟩
      · rw [atRoot] at ends
        rcases ends with text | text
        · exact absurd (String.toList_eq_nil_iff.mp text) written
        · exact anatomy_of_slash text
      · rw [anatomy_of_slash joined, split, List.nil_append]
    · obtain ⟨anchor, base, counts, alone, further⟩ := anatomy_front atRoot
      have whole := further _ _ joined
      rw [split] at whole
      rcases ends with text | text
      · refine ⟨anchor, base, [], by simp, ?_, whole, fun free none => absurd none (counts free)⟩
        rw [alone root text, List.append_nil]
      · exact ⟨anchor, base, [""], nothing, further root [] text, whole,
          fun free none => absurd none (counts free)⟩

/-- What is left of a path below a folder whose parts it starts with. An unanchored folder without
components has no part to drop, and then the path is only trimmed. -/
theorem relativeTo?_of_anatomy {p : Path} {anchor : Anchor} {base idle : List String}
    (unused : ∀ part ∈ idle, isIdle part = true) (own : root.anatomy = (anchor, base ++ idle))
    (whole : p.anatomy = (anchor, base ++ parts)) (counts : ∀ part ∈ parts, isIdle part = false)
    (free : anchor = .free → base.filterMap component? = [] → trimEnd (base ++ parts) = parts) :
    p.relativeTo? root = some ⟨joinParts parts⟩ := by
  have components : root.components = anchor.components ++ base.filterMap component? := by
    rw [Path.components, own, List.filterMap_append, filterMap_component?_of_idle unused,
      List.append_nil]
  obtain ⟨skipped, nothing, dropped⟩ := dropComponents_base base parts
  have trimmed := trimmedText_of_counts nothing counts
  rw [relativeTo?, components, whole]
  cases anchor with
  | root => simp only [Anchor.components, List.singleton_append, dropped, Option.map_some, trimmed]
  | current => simp only [Anchor.components, List.singleton_append, dropped, Option.map_some, trimmed]
  | free =>
      rw [Anchor.components, List.nil_append]
      cases named : base.filterMap component? with
      | nil => simp only [trimEndText, whole, free rfl named]
      | cons c cs =>
          rw [named] at dropped
          simp only [dropped, Option.map_some, trimmed]

theorem relativeTo?_join (any : parts ≠ []) (steps : ∀ part ∈ parts, IsStep part) :
    (root.join ⟨joinParts parts⟩).relativeTo? root = some ⟨joinParts parts⟩ := by
  have counts : ∀ part ∈ parts, isIdle part = false := fun part isPart => (steps part isPart).1
  obtain ⟨anchor, base, idle, unused, own, joined, free⟩ := anatomy_join root any steps
  apply relativeTo?_of_anatomy unused own joined counts
  intro isFree none
  rw [free isFree none, List.nil_append, trimEnd_of_counts counts]

end Join

end NamingLint.Path
