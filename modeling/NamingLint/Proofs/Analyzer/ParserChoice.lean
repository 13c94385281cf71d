import NamingLint.Analyzer
import NamingLint.Proofs.Path.Extension

/-! The choice of a parser.

A file goes to the first parser that handles it. Parsers for different endings never handle the same file,
so among them it does not matter which comes first, or how often one is given. -/

namespace NamingLint

namespace Parser

variable {grammar : Grammar} {path : Path}

/-- The last component of a path is a name with the given ending, and more than the ending. -/
def EndsIn (path : Path) (ending : String) : Prop :=
  ∃ stem, stem ≠ "" ∧ path.components.getLast? = some (.normal (stem ++ ending))

theorem typescript_handles_iff : (typescript grammar).handles path = true ↔ EndsIn path ".ts" :=
  Path.hasExtensionIn_singleton_iff path "ts" (by decide)

theorem tsx_handles_iff : (tsx grammar).handles path = true ↔ EndsIn path ".tsx" :=
  Path.hasExtensionIn_singleton_iff path "tsx" (by decide)

theorem EndsIn.not_both (plain : EndsIn path ".ts") : ¬ EndsIn path ".tsx" := by
  intro marked
  obtain ⟨stem, _, last⟩ := plain
  obtain ⟨other, _, again⟩ := marked
  rw [last, Option.some.injEq, Path.Component.normal.injEq, ← String.toList_inj, String.toList_append,
    String.toList_append] at again
  have ends := congrArg List.getLast? again
  simp at ends

end Parser

theorem find?_eq_of_same_members {α : Type} {test : α → Bool} {first second : List α}
    (same : ∀ item, item ∈ first ↔ item ∈ second)
    (alone : ∀ item ∈ first, ∀ other ∈ first, test item = true → test other = true → item = other) :
    first.find? test = second.find? test := by
  cases found : first.find? test with
  | none =>
      symm
      rw [List.find?_eq_none] at found ⊢
      intro item member
      exact found item ((same item).mpr member)
  | some item =>
      have member := List.mem_of_find?_eq_some found
      have passes := List.find?_some found
      cases again : second.find? test with
      | none => exact absurd passes (List.find?_eq_none.mp again item ((same item).mp member))
      | some other =>
          have otherMember := (same other).mpr (List.mem_of_find?_eq_some again)
          rw [alone item member other otherMember passes (List.find?_some again)]

namespace Analyzer

variable {a : Analyzer} {first second : List Parser}

theorem checkSource_eq_of_choice {path : Path}
    (same : first.find? (·.handles path) = second.find? (·.handles path)) (source : String) :
    { a with parsers := first }.checkSource path source =
      { a with parsers := second }.checkSource path source := by
  simp only [checkSource, parserFor?, same]
  rfl

theorem discover_eq_of_choice
    (same : ∀ path, first.find? (·.handles path) = second.find? (·.handles path)) (walk : Walker)
    (fs : FileSystem) :
    { a with parsers := first }.discover walk fs = { a with parsers := second }.discover walk fs := by
  simp only [discover, select, parserFor?, same]
  rfl

end Analyzer

/-- Files that end in `.ts` go to one parser and those that end in `.tsx` to the other, never to both. So
an analyzer finds the same files and says the same about each, in whatever order and however often the two
are given, also in between other parsers. -/
theorem parsers_split_files_by_ending (plain marked : Grammar) :
    (∀ path, (Parser.typescript plain).handles path = true ↔ Parser.EndsIn path ".ts") ∧
    (∀ path, (Parser.tsx marked).handles path = true ↔ Parser.EndsIn path ".tsx") ∧
    (∀ path, (Parser.typescript plain).handles path = true →
      (Parser.tsx marked).handles path = false) ∧
    ∀ (a : Analyzer) (before first second after : List Parser),
      (∀ parser ∈ first, parser = .typescript plain ∨ parser = .tsx marked) →
      (∀ parser, parser ∈ first ↔ parser ∈ second) →
      (∀ path source,
        { a with parsers := before ++ first ++ after }.checkSource path source =
          { a with parsers := before ++ second ++ after }.checkSource path source) ∧
      ∀ walk fs, { a with parsers := before ++ first ++ after }.discover walk fs =
        { a with parsers := before ++ second ++ after }.discover walk fs := by
  have apart : ∀ path, (Parser.typescript plain).handles path = true →
      (Parser.tsx marked).handles path = false := by
    intro path handled
    rw [← Bool.not_eq_true, Parser.tsx_handles_iff]
    exact (Parser.typescript_handles_iff.mp handled).not_both
  refine ⟨fun _ => Parser.typescript_handles_iff, fun _ => Parser.tsx_handles_iff, apart, ?_⟩
  intro a before first second after known same
  have choice : ∀ path, (before ++ first ++ after).find? (·.handles path) =
      (before ++ second ++ after).find? (·.handles path) := by
    intro path
    have alone : ∀ parser ∈ first, ∀ other ∈ first, parser.handles path = true →
        other.handles path = true → parser = other := by
      intro parser member other otherMember handled again
      rcases known parser member with rfl | rfl <;> rcases known other otherMember with rfl | rfl
      · rfl
      · rw [apart path handled] at again
        cases again
      · rw [apart path again] at handled
        cases handled
      · rfl
    simp only [List.find?_append, find?_eq_of_same_members same alone]
  constructor
  · intro path source
    exact Analyzer.checkSource_eq_of_choice (choice path) source
  · intro walk fs
    exact Analyzer.discover_eq_of_choice choice walk fs

def blankGrammar : Grammar := fun source =>
  some (.mk ⟨.other "program", true, false, false, false, 0, Text.byteLength source.toList, none⟩ [])

theorem blankGrammar_endings :
    (Parser.typescript blankGrammar).handles ⟨"/work/..a.tsx.ts/./"⟩ = true ∧
    (Parser.typescript blankGrammar).handles ⟨"/work/.ts"⟩ = false ∧
    (Parser.tsx blankGrammar).handles ⟨"src/.a.tsx"⟩ = true ∧
    (Parser.tsx blankGrammar).handles ⟨"a.tsx/.."⟩ = false ∧
    ∀ (a : Analyzer) path source,
      { a with parsers := [.tsx blankGrammar, .typescript blankGrammar, .tsx blankGrammar] }.checkSource
        path source =
      { a with parsers := [.typescript blankGrammar, .tsx blankGrammar] }.checkSource path source := by
  obtain ⟨plain, marked, _, choice⟩ := parsers_split_files_by_ending blankGrammar blankGrammar
  refine ⟨?_, by decide +kernel, ?_, by decide +kernel, ?_⟩
  · exact (plain _).mpr ⟨"..a.tsx", by decide, by decide +kernel⟩
  · exact (marked _).mpr ⟨".a", by decide, by decide +kernel⟩
  · intro a
    have known : ∀ parser ∈ [Parser.tsx blankGrammar, .typescript blankGrammar, .tsx blankGrammar],
        parser = .typescript blankGrammar ∨ parser = .tsx blankGrammar := by
      intro parser member
      simp only [List.mem_cons, List.not_mem_nil, or_false] at member
      rcases member with isTsx | isTs | isTsx
      · exact Or.inr isTsx
      · exact Or.inl isTs
      · exact Or.inr isTsx
    have same : ∀ parser, parser ∈ [Parser.tsx blankGrammar, .typescript blankGrammar, .tsx blankGrammar] ↔
        parser ∈ [Parser.typescript blankGrammar, .tsx blankGrammar] := by
      intro parser
      simp only [List.mem_cons, List.not_mem_nil, or_false]
      grind
    exact (choice a [] _ _ [] known same).1

end NamingLint
