import NamingLint.Analyzer
import NamingLint.Proofs.Exclusion

/-! What an analyzer excludes: paths below its root, by the patterns that it is built with. -/

namespace NamingLint

namespace Analyzer

open Exclusion (HoldsCore StarBounded IsLiteral folderPattern)

def Setup.patterns (setup : Setup) : List String := setup.excludes ++ setup.config.analyzer.exclude

theorem Setup.build_of_patterns (setup : Setup) (workingDirectory : Path)
    (valid : ∀ pattern ∈ setup.patterns, Glob.IsPattern pattern) :
    ∃ a, setup.build workingDirectory = .ok a ∧ ∀ path relative, path.relativeTo? a.root = some relative →
      (a.excludes path = true ↔ ∃ pattern ∈ setup.patterns,
        Glob.Accepts pattern relative.text ∨ HoldsCore pattern relative.text) := by
  obtain ⟨exclusions, parsed⟩ := mapM_ok_of_forall fun pattern member =>
    Exclusion.parse_of_isPattern (valid pattern member)
  have pairs := mapM_eq_ok_iff.mp parsed
  refine ⟨_, bind_pure_eq_ok_iff.mpr ⟨exclusions, mapError_eq_ok_iff.mpr parsed, rfl⟩, ?_⟩
  intro path relative below
  rw [Analyzer.excludes, List.any_eq_true, Path.relativeTo, below, Option.getD_some]
  constructor
  · intro excluded
    obtain ⟨exclusion, member, holds⟩ := excluded
    obtain ⟨pattern, listed, reads⟩ := exists_item_of_forall₂ pairs exclusion member
    exact ⟨pattern, listed, (Exclusion.excludes_iff reads).mp holds⟩
  · intro excluded
    obtain ⟨pattern, listed, holds⟩ := excluded
    obtain ⟨exclusion, member, reads⟩ := exists_value_of_forall₂ pairs pattern listed
    exact ⟨exclusion, member, (Exclusion.excludes_iff reads).mpr holds⟩

theorem Setup.root_of_build {setup : Setup} {workingDirectory : Path} {a : Analyzer}
    (built : setup.build workingDirectory = .ok a) :
    a.root = workingDirectory.join (setup.root.getD setup.config.analyzer.root) := by
  obtain ⟨exclusions, _, rfl⟩ := bind_pure_eq_ok_iff.mp built
  rfl

/-- An analyzer excludes a path exactly if a pattern matches what is below the root, or if the core of a
pattern stands there. Cores change nothing if all patterns start and end with a star and have no
classes. -/
theorem excludes_iff_glob_or_core (setup : Setup) (workingDirectory : Path)
    (valid : ∀ pattern ∈ setup.patterns, Glob.IsPattern pattern) :
    ∃ a, setup.build workingDirectory = .ok a ∧ ∀ path relative, path.relativeTo? a.root = some relative →
      (a.excludes path = true ↔ ∃ pattern ∈ setup.patterns,
        Glob.Accepts pattern relative.text ∨ HoldsCore pattern relative.text) ∧
      ((∀ pattern ∈ setup.patterns, StarBounded pattern) →
        (a.excludes path = true ↔ ∃ pattern ∈ setup.patterns, Glob.Accepts pattern relative.text)) := by
  obtain ⟨a, built, verdict⟩ := setup.build_of_patterns workingDirectory valid
  refine ⟨a, built, ?_⟩
  intro path relative below
  refine ⟨verdict path relative below, ?_⟩
  intro bounded
  rw [verdict path relative below]
  constructor
  · intro excluded
    obtain ⟨pattern, listed, matched | held⟩ := excluded
    · exact ⟨pattern, listed, matched⟩
    · exact ⟨pattern, listed,
        (bounded pattern listed).accepts_of_core (valid pattern listed) held.2.2⟩
  · intro excluded
    obtain ⟨pattern, listed, matched⟩ := excluded
    exact ⟨pattern, listed, Or.inl matched⟩

def bareSetup (root : Option Path) (excludes : List String) : Setup :=
  ⟨root, [], [], excludes, .default, false⟩

theorem bareSetup_excludes :
    (∃ a, (bareSetup none ["libs/**"]).build ⟨"/work"⟩ = .ok a ∧
      a.excludes ⟨"/work/./src/mylibs/a.ts"⟩ = true ∧ a.excludes ⟨"/work/./src/Main.ts"⟩ = false) ∧
    ∃ a, (bareSetup none ["**/libs/**"]).build ⟨"/work"⟩ = .ok a ∧
      a.excludes ⟨"/work/./src/libs/a.ts"⟩ = true ∧ a.excludes ⟨"/work/./src/mylibs/a.ts"⟩ = false := by
  constructor
  · obtain ⟨a, built, verdict⟩ := excludes_iff_glob_or_core (bareSetup none ["libs/**"]) ⟨"/work"⟩
      (by decide +kernel)
    have root : a.root = ⟨"/work/."⟩ := (Setup.root_of_build built).trans (by decide +kernel)
    rw [root] at verdict
    refine ⟨a, built, ?_, ?_⟩
    · exact (verdict _ ⟨"src/mylibs/a.ts"⟩ (by decide +kernel)).1.mpr (by decide +kernel)
    · rw [← Bool.not_eq_true, (verdict _ ⟨"src/Main.ts"⟩ (by decide +kernel)).1]
      decide +kernel
  · obtain ⟨a, built, verdict⟩ := excludes_iff_glob_or_core (bareSetup none ["**/libs/**"]) ⟨"/work"⟩
      (by decide +kernel)
    have root : a.root = ⟨"/work/."⟩ := (Setup.root_of_build built).trans (by decide +kernel)
    rw [root] at verdict
    have bounded : ∀ pattern ∈ (bareSetup none ["**/libs/**"]).patterns, StarBounded pattern := by
      decide +kernel
    refine ⟨a, built, ?_, ?_⟩
    · exact ((verdict _ ⟨"src/libs/a.ts"⟩ (by decide +kernel)).2 bounded).mpr (by decide +kernel)
    · rw [← Bool.not_eq_true, (verdict _ ⟨"src/mylibs/a.ts"⟩ (by decide +kernel)).2 bounded]
      decide +kernel

theorem mylibs_excluded_without_match :
    (∀ pattern ∈ (bareSetup none ["libs/**"]).patterns, Glob.IsPattern pattern) ∧
    ∃ a, (bareSetup none ["libs/**"]).build ⟨"/work"⟩ = .ok a ∧
      Path.relativeTo? ⟨"/work/./src/mylibs/a.ts"⟩ a.root = some ⟨"src/mylibs/a.ts"⟩ ∧
      a.excludes ⟨"/work/./src/mylibs/a.ts"⟩ = true ∧
      ∀ pattern ∈ (bareSetup none ["libs/**"]).patterns, ¬ Glob.Accepts pattern "src/mylibs/a.ts" :=
  ⟨by decide +kernel, _, rfl, by decide +kernel, by decide +kernel, by decide +kernel⟩

/-- Patterns of folders exclude a path exactly if, below the root, a part of it before the last is one of
the folders' names. -/
theorem folderPatterns_exclude_exact_names (setup : Setup) (workingDirectory : Path)
    (names : List String) (literal : ∀ name ∈ names, IsLiteral name)
    (patterns : setup.patterns = names.map folderPattern) :
    ∃ a, setup.build workingDirectory = .ok a ∧ ∀ (folders : List String) (file : String),
      (∀ part ∈ folders ++ [file], Path.IsStep part) →
      (a.root.join ⟨Path.joinParts (folders ++ [file])⟩).relativeTo? a.root =
        some ⟨Path.joinParts (folders ++ [file])⟩ ∧
      ∀ path : Path, path.relativeTo? a.root = some ⟨Path.joinParts (folders ++ [file])⟩ →
        (a.excludes path = true ↔ ∃ name ∈ names, name ∈ folders) := by
  have valid : ∀ pattern ∈ setup.patterns, Glob.IsPattern pattern := by
    intro pattern member
    rw [patterns] at member
    obtain ⟨name, listed, rfl⟩ := List.mem_map.mp member
    exact Exclusion.isPattern_folderPattern (literal name listed)
  obtain ⟨a, built, verdict⟩ := setup.build_of_patterns workingDirectory valid
  refine ⟨a, built, ?_⟩
  intro folders file steps
  refine ⟨Path.relativeTo?_join (by simp) steps, ?_⟩
  intro path below
  have single : ∀ part ∈ folders ++ [file], '/' ∉ part.toList := fun part isPart => (steps part isPart).2
  rw [verdict path _ below, patterns]
  constructor
  · intro excluded
    obtain ⟨pattern, member, holds⟩ := excluded
    obtain ⟨name, listed, rfl⟩ := List.mem_map.mp member
    exact ⟨name, listed, (Exclusion.folderPattern_excludes_iff (literal name listed) single).mp holds⟩
  · intro inside
    obtain ⟨name, listed, isFolder⟩ := inside
    exact ⟨folderPattern name, List.mem_map_of_mem listed,
      (Exclusion.folderPattern_excludes_iff (literal name listed) single).mpr isFolder⟩

theorem libsPattern_excludes_libs :
    ∃ a, (bareSetup (some ⟨"/work/libs/game"⟩) ["**/libs/**"]).build ⟨"/home"⟩ = .ok a ∧
      a.root = ⟨"/work/libs/game"⟩ ∧
      a.excludes (a.root.join ⟨Path.joinParts ["src", "libs", "a.ts"]⟩) = true ∧
      a.excludes (a.root.join ⟨Path.joinParts ["src", "mylibs", "a.ts"]⟩) = false ∧
      a.excludes (a.root.join ⟨Path.joinParts ["src", "libs"]⟩) = false := by
  obtain ⟨a, built, verdict⟩ := folderPatterns_exclude_exact_names
    (bareSetup (some ⟨"/work/libs/game"⟩) ["**/libs/**"]) ⟨"/home"⟩ ["libs", "node_modules", "bin-debug"]
    (by decide +kernel) (by decide +kernel)
  refine ⟨a, built, (Setup.root_of_build built).trans (by decide +kernel), ?_, ?_, ?_⟩
  · obtain ⟨below, excluded⟩ := verdict ["src", "libs"] "a.ts" (by decide)
    exact (excluded _ below).mpr (by decide)
  · obtain ⟨below, excluded⟩ := verdict ["src", "mylibs"] "a.ts" (by decide)
    rw [← Bool.not_eq_true]
    exact (excluded _ below).not.mpr (by decide)
  · obtain ⟨below, excluded⟩ := verdict ["src"] "libs" (by decide)
    rw [← Bool.not_eq_true]
    exact (excluded _ below).not.mpr (by decide)

end Analyzer

end NamingLint
