import NamingLint.Exclusion
import NamingLint.Proofs.Convention.Table
import NamingLint.Proofs.Glob.Reading
import NamingLint.Proofs.Path.Below

/-! What a pattern excludes.

Besides the paths that it matches as a glob, a pattern excludes those that hold its core, the text that is
left without its double stars. The core adds nothing if the pattern starts and ends with a star: then what
stands before and behind the core is matched as well. -/

namespace NamingLint

namespace Exclusion

/-- The core of a pattern stands in a path and is more than a slash. -/
def HoldsCore (pattern path : String) : Prop :=
  dropDoubleStars pattern.toList ≠ [] ∧ dropDoubleStars pattern.toList ≠ ['/'] ∧
    dropDoubleStars pattern.toList <:+: path.toList

instance (pattern path : String) : Decidable (HoldsCore pattern path) :=
  inferInstanceAs (Decidable (_ ∧ _ ∧ _))

theorem holdsText_iff {pattern path : String} : holdsText pattern path = true ↔ HoldsCore pattern path := by
  rw [holdsText, Bool.and_eq_true, Bool.and_eq_true, Bool.not_eq_true', List.isEmpty_eq_false_iff,
    bne_iff_ne, Convention.isInfixOf_iff, and_assoc]
  rfl

theorem excludes_iff {pattern path : String} {exclusion : Exclusion}
    (parsed : parse pattern = .ok exclusion) :
    exclusion.excludes path = true ↔ Glob.Accepts pattern path ∨ HoldsCore pattern path := by
  rw [parse, bind_pure_eq_ok_iff] at parsed
  obtain ⟨glob, parsed, rfl⟩ := parsed
  rw [excludes, Bool.or_eq_true, holdsText_iff, Glob.accepts_iff_matchesPath parsed]

theorem parse_of_isPattern {pattern : String} (isPattern : Glob.IsPattern pattern) :
    ∃ exclusion, parse pattern = .ok exclusion := by
  obtain ⟨glob, parsed⟩ := Glob.isPattern_iff.mp isPattern
  exact ⟨⟨pattern, glob⟩, by rw [parse, bind_pure_eq_ok_iff]; exact ⟨glob, parsed, rfl⟩⟩

section Core

theorem dropDoubleStars_cons {c : Char} (other : c ≠ '*') (text : List Char) :
    dropDoubleStars (c :: text) = c :: dropDoubleStars text := by
  rw [dropDoubleStars]
  intro rest star
  exact absurd star other

theorem dropDoubleStars_star {text : List Char} (alone : text.head? ≠ some '*') :
    dropDoubleStars ('*' :: text) = '*' :: dropDoubleStars text := by
  rw [dropDoubleStars]
  intro rest _ doubled
  rw [doubled] at alone
  exact alone rfl

theorem dropDoubleStars_folders (text : List Char) :
    dropDoubleStars (['*', '*', '/'] ++ text) = '/' :: dropDoubleStars text :=
  dropDoubleStars_cons (by decide) text

theorem matches_core {previous : Option Char} {text : List Char} {tokens : List Glob.Token}
    (reads : Glob.Reads previous text tokens) (noClass : '[' ∉ text) {more : List Char}
    (ends : more = [] ∨ text.getLast? = some '*') :
    Glob.Matches tokens (dropDoubleStars text ++ more) := by
  induction reads generalizing more with
  | nothing =>
      rcases ends with rfl | star
      · exact .done
      · cases star
  | @next previous front rest token tokens opens behind ih =>
      rw [Glob.matches_push_iff]
      have noClassBehind : '[' ∉ rest := fun inside => noClass (List.mem_append_right front inside)
      -- Only a last star has to take in what comes behind the core.
      have onward : front.getLast? ≠ some '*' ∨ rest ≠ [] → more = [] ∨ rest.getLast? = some '*' := by
        intro closed
        rcases ends with none | star
        · exact Or.inl none
        · by_cases empty : rest = []
          · rw [empty, List.append_nil] at star
            exact absurd empty (closed.resolve_left fun plain => plain star)
          · rw [List.getLast?_append_of_ne_nil front empty] at star
            exact Or.inr star
      cases opens with
      | @literal c _ plain =>
          rw [List.singleton_append, dropDoubleStars_cons plain.2.1]
          have closed : [c].getLast? ≠ some '*' := fun same => plain.2.1 (Option.some.inj same)
          exact .one (beq_self_eq_true c) (ih noClassBehind (onward (Or.inl closed)))
      | anyChar =>
          rw [List.singleton_append, dropDoubleStars_cons (by decide)]
          exact .one rfl (ih noClassBehind (onward (Or.inl (by decide))))
      | anySequence alone =>
          rw [List.singleton_append, dropDoubleStars_star alone]
          by_cases empty : rest = []
          · subst empty
            rw [Glob.reads_nil_iff.mp behind, dropDoubleStars]
            have all := Glob.Matches.sequence ('*' :: more) .done
            rw [List.append_nil] at all
            exact all
          · exact .sequence ['*'] (ih noClassBehind (onward (Or.inr empty)))
      | lastFolders starts =>
          rw [Glob.reads_nil_iff.mp behind]
          exact .anything _
      | folders starts =>
          rw [dropDoubleStars_folders]
          exact .folders [] (ih noClassBehind (onward (Or.inl (by decide))))
      | within listed closed => exact absurd List.mem_cons_self noClass
      | without closed => exact absurd List.mem_cons_self noClass

/-- A pattern that starts and ends with a star, and has no classes. -/
def StarBounded (pattern : String) : Prop :=
  pattern.toList.head? = some '*' ∧ pattern.toList.getLast? = some '*' ∧ '[' ∉ pattern.toList

instance (pattern : String) : Decidable (StarBounded pattern) :=
  inferInstanceAs (Decidable (_ ∧ _ ∧ _))

theorem StarBounded.accepts_of_core {pattern path : String} (bounded : StarBounded pattern)
    (isPattern : Glob.IsPattern pattern) (holds : dropDoubleStars pattern.toList <:+: path.toList) :
    Glob.Accepts pattern path := by
  obtain ⟨tokens, reads⟩ := isPattern
  refine ⟨tokens, reads, ?_⟩
  obtain ⟨starts, ends, noClass⟩ := bounded
  obtain ⟨before, after, whole⟩ := holds
  rw [← whole]
  generalize pattern.toList = text at reads starts ends noClass
  have own : Glob.Matches tokens (dropDoubleStars text ++ after) :=
    matches_core reads noClass (Or.inr ends)
  cases reads with
  | nothing => cases starts
  | @next _ front rest token tokens opens behind =>
      rw [Glob.matches_push_iff] at own ⊢
      cases opens with
      | literal plain => exact absurd (Option.some.inj starts) plain.2.1
      | anyChar => cases starts
      | anySequence alone =>
          obtain ⟨taken, below, split, matched⟩ := Glob.matches_sequence_iff.mp own
          rw [List.append_assoc, split, ← List.append_assoc]
          exact .sequence (before ++ taken) matched
      | lastFolders => exact Glob.reads_nil_iff.mp behind ▸ .anything _
      | folders =>
          have noClassBehind : '[' ∉ rest := fun inside =>
            noClass (List.mem_append_right ['*', '*', '/'] inside)
          have endsBehind : rest.getLast? = some '*' := by
            by_cases empty : rest = []
            · rw [empty] at ends
              cases ends
            · rw [← List.getLast?_append_of_ne_nil _ empty]
              exact ends
          rw [dropDoubleStars_folders, List.append_assoc, List.cons_append]
          exact .folders before (matches_core behind noClassBehind (Or.inr endsBehind))
      | within => cases starts
      | without => cases starts

end Core

section Folders

def folderPattern (name : String) : String := "**/" ++ name ++ "/**"

def IsLiteral (name : String) : Prop := name ≠ "" ∧ ∀ c ∈ name.toList, c ∉ ['/', '*', '?', '[', ']']

-- The members of the name are tried one by one, not all characters.
instance (name : String) : Decidable (IsLiteral name) :=
  @instDecidableAnd _ _ inferInstance (List.decidableBAll _ _)

variable {name : String}

theorem toList_folderPattern :
    (folderPattern name).toList = ['*', '*', '/'] ++ ((name.toList ++ ['/']) ++ ['*', '*']) := by
  rw [folderPattern, String.toList_append, String.toList_append, List.append_assoc, List.append_assoc]
  rfl

theorem reads_literals {literals : List Char} (plain : ∀ c ∈ literals, c ≠ '?' ∧ c ≠ '*' ∧ c ≠ '[')
    {previous : Option Char} {rest : List Char} {tokens : List Glob.Token}
    (behind : Glob.Reads (literals.getLast?.or previous) rest tokens) :
    Glob.Reads previous (literals ++ rest) (literals.map .char ++ tokens) := by
  induction literals generalizing previous with
  | nil => exact behind
  | cons c literals ih =>
      have onward : Glob.Reads (some c) (literals ++ rest) (literals.map .char ++ tokens) := by
        have last : (c :: literals).getLast?.or previous = literals.getLast?.or (some c) := by
          rw [List.getLast?_cons]
          cases literals.getLast? <;> rfl
        apply ih fun d isMember => plain d (List.mem_cons_of_mem c isMember)
        rw [← last]
        exact behind
      exact .next (.literal (plain c List.mem_cons_self)) onward

theorem reads_folderPattern (literal : IsLiteral name) :
    Glob.Reads none (folderPattern name).toList
      (.anyFolders :: ((name.toList ++ ['/']).map .char ++ [.anyFolders])) := by
  have plain : ∀ c ∈ name.toList ++ ['/'], c ≠ '?' ∧ c ≠ '*' ∧ c ≠ '[' := by
    intro c member
    rcases List.mem_append.mp member with inName | slash
    · have free := literal.2 c inName
      simp only [List.mem_cons, not_or] at free
      exact ⟨free.2.2.1, free.2.1, free.2.2.2.1⟩
    · rw [List.mem_singleton.mp slash]
      decide
  have last : Glob.Reads (some '/') ['*', '*'] [.anyFolders] := .next (.lastFolders (Or.inr rfl)) .nothing
  have behind : Glob.Reads (some '/') ((name.toList ++ ['/']) ++ ['*', '*'])
      ((name.toList ++ ['/']).map .char ++ [.anyFolders]) := by
    apply reads_literals plain
    rw [List.getLast?_append, List.getLast?_singleton]
    exact last
  have pushed : Glob.push .anyFolders ((name.toList ++ ['/']).map .char ++ [.anyFolders]) =
      .anyFolders :: ((name.toList ++ ['/']).map .char ++ [.anyFolders]) := by
    cases name.toList <;> rfl
  rw [toList_folderPattern, ← pushed]
  exact .next (.folders (Or.inl rfl)) behind

theorem isPattern_folderPattern (literal : IsLiteral name) : Glob.IsPattern (folderPattern name) :=
  ⟨_, reads_folderPattern literal⟩

theorem starBounded_folderPattern (literal : IsLiteral name) : StarBounded (folderPattern name) := by
  rw [StarBounded, toList_folderPattern]
  refine ⟨rfl, ?_, ?_⟩
  · rw [← List.append_assoc, List.getLast?_append]
    rfl
  · intro bracket
    have inName : '[' ∈ name.toList := by
      simp only [List.mem_append, List.mem_cons, List.not_mem_nil, or_false] at bracket
      simpa using bracket
    exact literal.2 '[' inName (by decide)

theorem accepts_folderPattern_iff (literal : IsLiteral name) {path : String} :
    Glob.Accepts (folderPattern name) path ↔
      (∃ rest, path.toList = name.toList ++ '/' :: rest) ∨
        ∃ taken rest, path.toList = taken ++ '/' :: (name.toList ++ '/' :: rest) := by
  have named : ∀ {text : List Char},
      Glob.Matches ((name.toList ++ ['/']).map .char ++ [.anyFolders]) text ↔
        ∃ rest, text = name.toList ++ '/' :: rest := by
    intro text
    rw [Glob.matches_literals_iff]
    constructor
    · intro split
      obtain ⟨rest, whole, _⟩ := split
      exact ⟨rest, by rw [whole, List.append_assoc, List.singleton_append]⟩
    · intro split
      obtain ⟨rest, whole⟩ := split
      exact ⟨rest, by rw [whole, List.append_assoc, List.singleton_append], .anything rest⟩
  rw [Glob.accepts_iff_matches (reads_folderPattern literal), Glob.matches_folders_iff]
  constructor
  · intro ways
    rcases ways with none | atStart | ⟨taken, below, whole, behind⟩
    · cases (List.append_eq_nil_iff.mp none).2
    · exact Or.inl (named.mp atStart)
    · obtain ⟨rest, same⟩ := named.mp behind
      exact Or.inr ⟨taken, rest, by rw [whole, same]⟩
  · intro ways
    rcases ways with atStart | ⟨taken, rest, whole⟩
    · exact Or.inr (Or.inl (named.mpr atStart))
    · exact Or.inr (Or.inr ⟨taken, _, whole, named.mpr ⟨rest, rfl⟩⟩)

/-- A word is followed by a slash, and starts a text or comes behind a slash, exactly if it is one of the
pieces between slashes and not the last. -/
theorem stands_between_slashes_iff {word : List Char} (clean : '/' ∉ word)
    {folders : List (List Char)} {file : List Char} (single : ∀ piece ∈ folders ++ [file], '/' ∉ piece) :
    ((∃ rest, ['/'].intercalate (folders ++ [file]) = word ++ '/' :: rest) ∨
      ∃ taken rest, ['/'].intercalate (folders ++ [file]) = taken ++ '/' :: (word ++ '/' :: rest)) ↔
      word ∈ folders := by
  have split := List.splitOn_intercalate '/' single (by simp)
  have alone : word.splitOn '/' = [word] := List.splitOn_eq_singleton clean
  have inner : ∀ before after : List (List Char), after ≠ [] →
      folders ++ [file] = before ++ word :: after → word ∈ folders := by
    intro before after any same
    have shorter := congrArg List.dropLast same
    rw [List.dropLast_concat, List.dropLast_append_of_ne_nil (List.cons_ne_nil _ _),
      List.dropLast_cons_of_ne_nil any] at shorter
    rw [shorter]
    exact List.mem_append_right before List.mem_cons_self
  constructor
  · intro ways
    rcases ways with ⟨rest, whole⟩ | ⟨taken, rest, whole⟩
    · rw [whole, List.splitOn_append_cons_self, alone] at split
      exact inner [] _ (List.splitOn_ne_nil '/' rest) split.symm
    · rw [whole, List.splitOn_append_cons_self, List.splitOn_append_cons_self, alone] at split
      exact inner _ _ (List.splitOn_ne_nil '/' rest) split.symm
  · intro member
    obtain ⟨before, after, rfl⟩ := List.append_of_mem member
    have behind : ['/'].intercalate (word :: (after ++ [file])) =
        word ++ '/' :: ['/'].intercalate (after ++ [file]) := by
      rw [List.intercalate_cons_of_ne_nil (by simp), List.append_assoc, List.singleton_append]
    rw [List.append_assoc, List.cons_append]
    by_cases first : before = []
    · rw [first, List.nil_append, behind]
      exact Or.inl ⟨_, rfl⟩
    · rw [Text.intercalate_separated first (List.cons_ne_nil _ _), behind]
      exact Or.inr ⟨_, _, rfl⟩

theorem folderPattern_excludes_iff (literal : IsLiteral name) {folders : List String} {file : String}
    (single : ∀ part ∈ folders ++ [file], '/' ∉ part.toList) :
    (Glob.Accepts (folderPattern name) (Path.joinParts (folders ++ [file])) ∨
      HoldsCore (folderPattern name) (Path.joinParts (folders ++ [file]))) ↔ name ∈ folders := by
  have clean : '/' ∉ name.toList := fun inside => literal.2 '/' inside (by decide)
  have accepted : Glob.Accepts (folderPattern name) (Path.joinParts (folders ++ [file])) ↔
      name ∈ folders := by
    rw [accepts_folderPattern_iff literal, Path.toList_joinParts, List.map_append, List.map_singleton,
      stands_between_slashes_iff clean, List.mem_map_of_injective fun _ _ => String.toList_inj.mp]
    intro piece member
    rw [← List.map_singleton, ← List.map_append] at member
    obtain ⟨part, isPart, rfl⟩ := List.mem_map.mp member
    exact single part isPart
  rw [← accepted]
  constructor
  · intro ways
    rcases ways with matched | held
    · exact matched
    · exact (starBounded_folderPattern literal).accepts_of_core (isPattern_folderPattern literal) held.2.2
  · exact Or.inl

end Folders

end Exclusion

end NamingLint
