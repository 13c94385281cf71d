import Mathlib.Data.List.Nodup
import NamingLint.Discovery
import NamingLint.Proofs.Analyzer.Outcome
import NamingLint.Proofs.Path.Ways

/-! The file that a violation names.

A walker that ends every way through a folder at most once names a file below a folder by the way to it,
and joined to the root that is the path that was checked. A root that is itself the file has no way left
to name. -/

namespace NamingLint

namespace FileSystem

/-- Every name in a folder is a single part of a path, and no two entries share one. -/
inductive Entry.Proper : Entry → Prop
  | file (content : ByteArray) : Proper (.file content)
  | folder (entries : List (String × Entry)) (steps : ∀ e ∈ entries, Path.IsStep e.1)
      (distinct : entries.Pairwise fun first second => first.1 ≠ second.1)
      (below : ∀ e ∈ entries, Proper e.2) : Proper (.folder entries)

theorem Entry.Proper.child? {entry child : Entry} {name : String} (proper : entry.Proper)
    (found : entry.child? name = .ok child) : child.Proper := by
  cases proper with
  | file content => cases found
  | folder entries steps distinct below =>
      rw [Entry.child?] at found
      split at found
      case h_1 known =>
          cases found
          obtain ⟨front, back, rfl, _⟩ := List.lookup_eq_some_iff.mp known
          exact below (name, child) (by simp)
      case h_2 => cases found

theorem Entry.Proper.follow {entry last : Entry} {names : List String} (proper : entry.Proper)
    (found : entry.follow names = .ok last) : last.Proper := by
  induction names generalizing entry with
  | nil =>
      cases found
      exact proper
  | cons name names ih =>
      obtain ⟨child, known, rest⟩ := bind_eq_ok_iff.mp found
      exact ih (proper.child? known) rest

theorem isFile_iff {fs : FileSystem} {p : Path} :
    fs.isFile p = true ↔ ∃ content, fs.entry p = .ok (.file content) := by
  rw [isFile]
  split
  case h_1 content known => simp [known]
  case h_2 other =>
      constructor
      · intro impossible
        cases impossible
      · intro known
        obtain ⟨content, known⟩ := known
        exact absurd known (other content)

theorem step_empty_eq_ok_iff {fs : FileSystem} {names next : List String} :
    fs.step names "" = .ok next ↔
      next = names ∧ ∃ entries, fs.top.follow names = .ok (.folder entries) := by
  rw [step, bind_eq_ok_iff]
  constructor
  · intro steps
    obtain ⟨entry, known, rest⟩ := steps
    cases entry with
    | file content => cases rest
    | folder entries =>
        cases rest
        exact ⟨rfl, entries, known⟩
  · intro stays
    obtain ⟨rfl, entries, known⟩ := stays
    exact ⟨.folder entries, known, rfl⟩

theorem resolve_of_slash {fs : FileSystem} {p : Path} {parts : List String}
    (ends : p.anatomy.2 = parts ++ [""]) :
    fs.resolve p = (parts.foldlM fs.step [] >>= fun names => fs.step names "") := by
  rw [resolve, ends, List.foldlM_append]
  congr
  funext names
  rw [List.foldlM_cons]
  exact bind_pure (fs.step names "")

theorem isFile_eq_false_of_slash {fs : FileSystem} {p : Path} {parts : List String}
    (ends : p.anatomy.2 = parts ++ [""]) : fs.isFile p = false := by
  rw [Bool.eq_false_iff, ne_eq, isFile_iff]
  intro isFile
  obtain ⟨content, known⟩ := isFile
  obtain ⟨names, resolved, followed⟩ := bind_eq_ok_iff.mp known
  rw [resolve_of_slash ends] at resolved
  obtain ⟨before, _, stepped⟩ := bind_eq_ok_iff.mp resolved
  obtain ⟨rfl, entries, isFolder⟩ := step_empty_eq_ok_iff.mp stepped
  rw [followed] at isFolder
  cases isFolder

theorem readText_join_empty {fs : FileSystem} {root : Path} (isFile : fs.isFile root = true) :
    fs.readText (root.join ⟨""⟩) = .error .notADirectory := by
  have noSlash : ∀ parts, root.anatomy.2 ≠ parts ++ [""] := by
    intro parts ends
    rw [isFile_eq_false_of_slash ends] at isFile
    cases isFile
  have written : root.text ≠ "" := by
    intro empty
    have unnamed : root = ⟨""⟩ := by rw [← empty]
    exact noSlash [] (by rw [unnamed]; rfl)
  obtain ⟨front, joined, ends⟩ := Path.toList_join root ⟨""⟩ (by decide) written
  have nonempty : front ≠ [] := by
    intro empty
    rw [empty] at ends
    rcases ends with text | text
    · exact written (String.toList_eq_nil_iff.mp text)
    · exact noSlash [] (by rw [Path.anatomy_of_slash text]; rfl)
  obtain ⟨anchor, base, _, alone, further⟩ := Path.anatomy_front nonempty
  rcases ends with text | text
  · obtain ⟨content, known⟩ := isFile_iff.mp isFile
    obtain ⟨names, resolved, followed⟩ := bind_eq_ok_iff.mp known
    have own : base.foldlM fs.step [] = .ok names := by
      rw [resolve, alone root text] at resolved
      exact resolved
    have slash : (root.join ⟨""⟩).anatomy.2 = base ++ [""] := by
      rw [further _ _ joined]
      rfl
    have stopped : fs.step names "" = .error .notADirectory := by
      rw [step, followed]
      rfl
    rw [readText, entry, resolve_of_slash slash, own]
    simp only [bind, Except.bind, stopped]
  · exact absurd (by rw [further root [] text]; rfl) (noSlash base)

end FileSystem

namespace Walker

/-- Paths that stand at the ends of different ways from a path. -/
structure Ends (path : Path) (ways : List (List String)) (walked : List Path) : Prop where
  walked_eq : walked = ways.map path.descend
  nodup : ways.Nodup
  steps : ∀ way ∈ ways, ∀ name ∈ way, Path.IsStep name

/-- A walker that ends different ways from its root. From a file there is only the empty one. -/
def EndsWays (walk : Walker) : Prop :=
  ∀ fs respectGitignore root walked, fs.top.Proper → walk fs respectGitignore root = .ok walked →
    ∃ ways, Ends root ways walked ∧ (fs.isFile root = true → ways = [[]])

theorem Ends.distinct {path : Path} {ways : List (List String)} {walked : List Path}
    (ends : Ends path ways walked) : walked.Pairwise fun p q => p.components ≠ q.components := by
  obtain ⟨rfl, nodup, steps⟩ := ends
  rw [List.pairwise_map]
  refine nodup.imp_of_mem ?_
  intro way other isWay isOther differ same
  exact differ (Path.descend_components_inj (steps way isWay) (steps other isOther) same)

end Walker

namespace Discovery

open FileSystem (Entry)
open Ignore (Source Level)
open Walker (Ends)

variable {sources : List Source}

theorem walkEntries_ends (levels : List Level) (names : List String) (path : Path)
    (entries : List (String × Entry)) (steps : ∀ e ∈ entries, Path.IsStep e.1)
    (distinct : entries.Pairwise fun first second => first.1 ≠ second.1)
    (below : ∀ e ∈ entries, ∀ levels names path, ∃ ways,
      Ends path ways (walkEntry sources levels names path e.2)) :
    ∃ ways, Ends path ways (walkEntries sources levels names path entries) ∧
      ∀ way ∈ ways, ∃ e ∈ entries, ∃ rest, way = e.1 :: rest := by
  induction entries with
  | nil => exact ⟨[], ⟨rfl, List.nodup_nil, by simp⟩, by simp⟩
  | cons e entries ih =>
      obtain ⟨name, entry⟩ := e
      obtain ⟨step, laterSteps⟩ := List.forall_mem_cons.mp steps
      obtain ⟨apart, laterDistinct⟩ := List.pairwise_cons.mp distinct
      obtain ⟨here, laterBelow⟩ := List.forall_mem_cons.mp below
      obtain ⟨others, ⟨walked, nodup, isStep⟩, starts⟩ := ih laterSteps laterDistinct laterBelow
      rw [walkEntries]
      split
      case isTrue =>
          refine ⟨others, ⟨walked, nodup, isStep⟩, ?_⟩
          intro way member
          obtain ⟨e, isEntry, rest, same⟩ := starts way member
          exact ⟨e, List.mem_cons_of_mem _ isEntry, rest, same⟩
      case isFalse =>
          obtain ⟨ways, found, waysNodup, waysStep⟩ := here levels (names ++ [name]) (path.join ⟨name⟩)
          refine ⟨ways.map (name :: ·) ++ others, ⟨?_, ?_, ?_⟩, ?_⟩
          · rw [found, walked, List.map_append, List.map_map]
            rfl
          · refine List.nodup_append.mpr ⟨?_, nodup, ?_⟩
            · exact waysNodup.map (List.cons_injective)
            · -- A way into this entry starts with its name, and no other way does.
              intro way isWay other isOther same
              obtain ⟨rest, _, rfl⟩ := List.mem_map.mp isWay
              obtain ⟨e, isEntry, others, starts⟩ := starts other isOther
              rw [← same, List.cons.injEq] at starts
              exact apart e isEntry starts.1
          · intro way member
            rcases List.mem_append.mp member with isHere | isLater
            · obtain ⟨rest, isWay, rfl⟩ := List.mem_map.mp isHere
              exact List.forall_mem_cons.mpr ⟨step, waysStep rest isWay⟩
            · exact isStep way isLater
          · intro way member
            rcases List.mem_append.mp member with isHere | isLater
            · obtain ⟨rest, _, rfl⟩ := List.mem_map.mp isHere
              exact ⟨(name, entry), List.mem_cons_self, rest, rfl⟩
            · obtain ⟨e, isEntry, rest, same⟩ := starts way isLater
              exact ⟨e, List.mem_cons_of_mem _ isEntry, rest, same⟩

theorem walkEntry_ends {entry : Entry} (proper : entry.Proper) (levels : List Level)
    (names : List String) (path : Path) :
    ∃ ways, Ends path ways (walkEntry sources levels names path entry) := by
  induction proper generalizing levels names path with
  | file content => exact ⟨[[]], rfl, List.nodup_singleton _, by simp⟩
  | folder entries steps distinct below ih =>
      obtain ⟨ways, ⟨walked, nodup, isStep⟩, starts⟩ :=
        walkEntries_ends (.ofFolder names.length (.folder entries) :: levels) names path entries steps
          distinct ih
      refine ⟨[] :: ways, ?_, List.nodup_cons.mpr ⟨?_, nodup⟩, ?_⟩
      · rw [walkEntry, walked]
        rfl
      · intro isEmpty
        obtain ⟨_, _, _, impossible⟩ := starts [] isEmpty
        cases impossible
      · exact List.forall_mem_cons.mpr ⟨by simp, isStep⟩

theorem walk_endsWays : Walker.EndsWays walk := by
  intro fs respectGitignore root walked proper known
  obtain ⟨names, resolved, rest⟩ := bind_eq_ok_iff.mp known
  obtain ⟨entry, followed, same⟩ := bind_eq_ok_iff.mp rest
  cases same
  by_cases isFile : fs.isFile root = true
  · obtain ⟨content, isEntry⟩ := FileSystem.isFile_iff.mp isFile
    have found : fs.entry root = .ok entry := bind_eq_ok_iff.mpr ⟨names, resolved, followed⟩
    rw [isEntry, Except.ok.injEq] at found
    subst found
    exact ⟨[[]], ⟨rfl, List.nodup_singleton _, by simp⟩, fun _ => rfl⟩
  · obtain ⟨ways, ends⟩ := walkEntry_ends (proper.follow followed) (levelsAbove fs names) names root
    exact ⟨ways, ends, fun isFile' => absurd isFile' isFile⟩

end Discovery

def Rule.Locates (rule : Rule) : Prop :=
  ∀ file tree violations, rule.check file tree = .ok violations →
    ∀ v ∈ violations, v.location.file = file.relativePath

theorem Rule.egret_locates (tips : Convention.Tips) : (Rule.egret tips).Locates := by
  intro file tree violations checked v member
  obtain ⟨findings, _, same⟩ := Rule.egret_check_eq_ok_iff.mp checked
  rw [same] at member
  obtain ⟨finding, _, rfl⟩ := List.mem_map.mp member
  rfl

namespace Analyzer

variable {a : Analyzer} {fs : FileSystem}

theorem Gives.file_eq {path : Path} {row : List Violation} (locates : ∀ rule ∈ a.rules, rule.Locates)
    (gives : a.Gives fs.readText path row) : ∀ v ∈ row, v.location.file = path.relativeTo a.root := by
  obtain ⟨source, tree, rows, _, _, pairs, rfl⟩ := gives
  intro v member
  obtain ⟨violations, isRow, inRow⟩ := List.mem_flatten.mp member
  obtain ⟨rule, enabled, checked⟩ := exists_item_of_forall₂ pairs violations isRow
  exact locates rule (mem_enabledRules.mp enabled).1 _ _ _ checked v inRow

theorem discovered_of_analyze {walk : Walker} {result : LintResult} (endsWays : walk.EndsWays)
    (proper : fs.top.Proper) (analyzed : a.analyze walk fs = .ok result) :
    ∃ files ways, a.discover walk fs = .ok files ∧
      (∀ path ∈ files, fs.isFile path = true ∧
        ∃ way ∈ ways, path = a.root.descend way ∧ ∀ name ∈ way, Path.IsStep name) ∧
      (fs.isFile a.root = true → ways = [[]]) ∧
      ∀ v, v ∈ result.violations ↔ ∃ path ∈ files, ∃ row, a.Gives fs.readText path row ∧ v ∈ row := by
  obtain ⟨files, discovered, checked⟩ := bind_eq_ok_iff.mp analyzed
  obtain ⟨walked, mapped, selected⟩ := bind_eq_ok_iff.mp discovered
  obtain ⟨ways, ends, single⟩ := endsWays _ _ _ _ proper (mapError_eq_ok_iff.mp mapped)
  have worklist : a.Worklist fs.isFile walked (a.select fs.isFile walked) := worklist_select ends.distinct
  cases selected
  refine ⟨_, ways, discovered, ?_, single, ?_⟩
  · intro path member
    obtain ⟨isWalked, isFile, _⟩ := (worklist.mem_iff path).mp member
    obtain ⟨rfl, _, steps⟩ := ends
    obtain ⟨way, isWay, rfl⟩ := List.mem_map.mp isWalked
    exact ⟨isFile, way, isWay, rfl, steps way isWay⟩
  · obtain ⟨_, rows, pairs, rfl⟩ := (checkFiles_eq_ok_iff worklist.handled).mp checked
    intro v
    rw [List.mem_flatten]
    constructor
    · intro found
      obtain ⟨row, isRow, member⟩ := found
      obtain ⟨path, listed, gives⟩ := exists_item_of_forall₂ pairs row isRow
      exact ⟨path, (List.mem_filter.mp listed).1, row, gives, member⟩
    · intro found
      obtain ⟨path, listed, row, gives, member⟩ := found
      have counted := List.mem_filter.mpr ⟨listed, gives.parses⟩
      obtain ⟨other, isRow, again⟩ := exists_value_of_forall₂ pairs path counted
      exact ⟨other, isRow, again.unique gives ▸ member⟩

end Analyzer

/-- Whatever the root, the file that a violation names leads from the root to the path that was checked,
component by component, and violations of different files name different ones. Below a folder the name is
never empty and gives back the very path. For a root that is itself the file the name is empty, and what
it leads to cannot be read. -/
theorem violations_name_their_files {a : Analyzer} {walk : Walker} {fs : FileSystem}
    {result : LintResult} (endsWays : walk.EndsWays) (locates : ∀ rule ∈ a.rules, rule.Locates)
    (proper : fs.top.Proper) (analyzed : a.analyze walk fs = .ok result) :
    ∃ files, a.discover walk fs = .ok files ∧
      (∀ v, v ∈ result.violations ↔
        ∃ path ∈ files, ∃ row, a.Gives fs.readText path row ∧ v ∈ row) ∧
      (∀ path ∈ files, ∀ row, a.Gives fs.readText path row → ∀ v ∈ row,
        (a.root.join v.location.file).components = path.components ∧
        (fs.isFile a.root = false →
          v.location.file.text ≠ "" ∧ a.root.join v.location.file = path) ∧
        (fs.isFile a.root = true → path = a.root ∧ v.location.file.text = "" ∧
          fs.readText (a.root.join v.location.file) = .error .notADirectory)) ∧
      ∀ path ∈ files, ∀ other ∈ files, path ≠ other →
        ∀ row row', a.Gives fs.readText path row → a.Gives fs.readText other row' →
          ∀ v ∈ row, ∀ w ∈ row', v.location.file.components ≠ w.location.file.components := by
  obtain ⟨files, ways, discovered, ends, single, violations⟩ :=
    Analyzer.discovered_of_analyze endsWays proper analyzed
  have leads : ∀ path ∈ files, ∀ row, a.Gives fs.readText path row → ∀ v ∈ row,
      (a.root.join v.location.file).components = path.components := by
    intro path member row gives v inRow
    obtain ⟨_, way, _, rfl, steps⟩ := ends path member
    rw [gives.file_eq locates v inRow, Path.components_join_relativeTo a.root steps]
  refine ⟨files, discovered, violations, ?_, ?_⟩
  · intro path member row gives v inRow
    refine ⟨leads path member row gives v inRow, ?_, ?_⟩
    all_goals
      obtain ⟨isFile, way, isWay, rfl, steps⟩ := ends path member
      rw [gives.file_eq locates v inRow]
    · intro isFolder
      -- Were the way empty, the root would be among the files.
      have below : way ≠ [] := by
        intro atRoot
        rw [atRoot] at isFile
        exact absurd isFile (by rw [Path.descend, List.foldl_nil, isFolder]; exact Bool.false_ne_true)
      rw [Path.relativeTo_descend below steps, ← Path.descend_eq_join below steps]
      exact ⟨Path.joinParts_ne_empty below steps, rfl⟩
    · intro rootIsFile
      rw [single rootIsFile, List.mem_singleton] at isWay
      rw [isWay, Path.descend, List.foldl_nil, Path.relativeTo_self]
      exact ⟨rfl, rfl, FileSystem.readText_join_empty rootIsFile⟩
  · intro path member other otherMember differ row row' gives gives' v inRow w inRow' same
    have samePlace : path.components = other.components := by
      calc
        path.components = (a.root.join v.location.file).components :=
          (leads path member row gives v inRow).symm
        _ = (a.root.join w.location.file).components := Path.components_join_congr a.root same
        _ = other.components := leads other otherMember row' gives' w inRow'
    obtain ⟨_, way, _, rfl, steps⟩ := ends path member
    obtain ⟨_, way', _, rfl, steps'⟩ := ends other otherMember
    exact differ (congrArg a.root.descend (Path.descend_components_inj steps steps' samePlace))

section Sample

open FileSystem (Entry)

def betaFile : Entry := .file "Beta".toUTF8

def wordFiles : FileSystem :=
  ⟨.folder [("work", .folder [("b.ts", betaFile), ("lib", .folder [("b.ts", betaFile)])])]⟩

def rootedAnalyzer (root : String) : Analyzer := { wordAnalyzer false with root := ⟨root⟩ }

theorem wordFiles_proper : wordFiles.top.Proper := by
  have leaf : betaFile.Proper := .file _
  have lib : Entry.Proper (.folder [("b.ts", betaFile)]) :=
    .folder _ (by simp; decide) (by simp) (by simp [leaf])
  have work : Entry.Proper (.folder [("b.ts", betaFile), ("lib", .folder [("b.ts", betaFile)])]) :=
    .folder _ (by simp; decide) (by simp) (by simp [leaf, lib])
  exact .folder _ (by simp; decide) (by simp) (by simp [work])

theorem rootedAnalyzer_locates (root : String) :
    ∀ rule ∈ (rootedAnalyzer root).rules, rule.Locates := by
  intro rule member
  simp only [rootedAnalyzer, wordAnalyzer, List.mem_cons, List.not_mem_nil, or_false] at member
  rcases member with rfl | rfl | rfl
  · intro file tree violations checked v isViolation
    cases checked
    cases List.mem_singleton.mp isViolation
    rfl
  · intro file tree violations checked
    cases checked
  · exact Rule.egret_locates _

theorem rootedAnalyzer_analyze {root : String} (walked files : List Path)
    (known : Discovery.walk wordFiles true ⟨root⟩ = .ok walked)
    (kept : (walked.filter fun path => wordFiles.isFile path &&
      ((rootedAnalyzer root).parserFor? path).isSome && !(rootedAnalyzer root).excludes path) = files)
    (sorted : files.Pairwise fun p q => p.precedes q = true) :
    (rootedAnalyzer root).analyze Discovery.walk wordFiles =
      ((rootedAnalyzer root).checkFiles wordFiles.readText files).outcome := by
  have selected : (rootedAnalyzer root).select wordFiles.isFile walked = files := by
    rw [Analyzer.select, kept]
    exact List.mergeSort_of_pairwise sorted
  have walks : Discovery.walk wordFiles (rootedAnalyzer root).config.analyzer.respectGitignore
      (rootedAnalyzer root).root = .ok walked := known
  calc
    (rootedAnalyzer root).analyze Discovery.walk wordFiles
    _ = (rootedAnalyzer root).analyzeWalked wordFiles.disk walked := Analyzer.analyze_of_walk walks
    _ = ((rootedAnalyzer root).checkFiles wordFiles.readText
          ((rootedAnalyzer root).select wordFiles.isFile walked)).outcome := rfl
    _ = ((rootedAnalyzer root).checkFiles wordFiles.readText files).outcome := by rw [selected]

theorem nestedFile_named_by_way :
    (∀ rule ∈ (rootedAnalyzer "/work/.").rules, rule.Locates) ∧ wordFiles.top.Proper ∧
      (rootedAnalyzer "/work/.").analyze Discovery.walk wordFiles =
        .ok ⟨wordViolations "b.ts" ++ wordViolations "lib/b.ts", 2⟩ ∧
      wordFiles.isFile ⟨"/work/."⟩ = false ∧
      ∃ files, (rootedAnalyzer "/work/.").discover Discovery.walk wordFiles = .ok files ∧
        Path.join ⟨"/work/."⟩ ⟨"lib/b.ts"⟩ ∈ files := by
  have analyzed : (rootedAnalyzer "/work/.").analyze Discovery.walk wordFiles =
      .ok ⟨wordViolations "b.ts" ++ wordViolations "lib/b.ts", 2⟩ := by
    rw [rootedAnalyzer_analyze
      [⟨"/work/."⟩, ⟨"/work/./b.ts"⟩, ⟨"/work/./lib"⟩, ⟨"/work/./lib/b.ts"⟩]
      [⟨"/work/./b.ts"⟩, ⟨"/work/./lib/b.ts"⟩]
      (by decide +kernel) (by decide +kernel) (by decide +kernel)]
    decide +kernel
  have isFolder : wordFiles.isFile ⟨"/work/."⟩ = false := by decide +kernel
  obtain ⟨files, discovered, violations, leads, _⟩ :=
    violations_name_their_files Discovery.walk_endsWays (rootedAnalyzer_locates "/work/.")
      wordFiles_proper analyzed
  obtain ⟨path, member, row, gives, inRow⟩ := (violations (wordViolation "lib/b.ts")).mp
    (by simp [wordViolations])
  have same := ((leads path member row gives _ inRow).2.1 isFolder).2
  exact ⟨rootedAnalyzer_locates "/work/.", wordFiles_proper, analyzed, isFolder, files, discovered,
    same ▸ member⟩

theorem rootFile_named_by_nothing :
    (∀ rule ∈ (rootedAnalyzer "/work/b.ts").rules, rule.Locates) ∧ wordFiles.top.Proper ∧
      ∃ result, (rootedAnalyzer "/work/b.ts").analyze Discovery.walk wordFiles = .ok result ∧
        ∃ v ∈ result.violations, v.location.file.text = "" ∧
          wordFiles.readText (Path.join ⟨"/work/b.ts"⟩ v.location.file) = .error .notADirectory := by
  refine ⟨rootedAnalyzer_locates "/work/b.ts", wordFiles_proper, ⟨wordViolations "", 1⟩, ?_, ?_⟩
  · rw [rootedAnalyzer_analyze [⟨"/work/b.ts"⟩] [⟨"/work/b.ts"⟩]
      (by decide +kernel) (by decide +kernel) (by simp)]
    decide +kernel
  · exact ⟨wordViolation "", by simp [wordViolations], rfl, FileSystem.readText_join_empty (by decide +kernel)⟩

end Sample

end NamingLint
