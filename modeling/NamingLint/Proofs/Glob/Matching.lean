import NamingLint.Glob

/-! The texts that the tokens of a glob stand for. -/

namespace NamingLint

namespace Glob

/-- Tokens match a text piece by piece. Folders are nothing, or any text that ends in a slash, or at the
end of a pattern any text. -/
inductive Matches : List Token → List Char → Prop
  | done : Matches [] []
  | one {token : Token} {tokens : List Token} {c : Char} {text : List Char}
      (accepted : token.accepts c = true) (rest : Matches tokens text) :
      Matches (token :: tokens) (c :: text)
  | sequence {tokens : List Token} {text : List Char} (taken : List Char) (rest : Matches tokens text) :
      Matches (.anySequence :: tokens) (taken ++ text)
  | noFolders {tokens : List Token} {text : List Char} (rest : Matches tokens text) :
      Matches (.anyFolders :: tokens) text
  | folders {tokens : List Token} {text : List Char} (taken : List Char) (rest : Matches tokens text) :
      Matches (.anyFolders :: tokens) (taken ++ '/' :: text)
  | anything (text : List Char) : Matches [.anyFolders] text

theorem matches_nil_iff {text : List Char} : Matches [] text ↔ text = [] := by
  constructor
  · intro matched
    cases matched with
    | done => rfl
  · intro empty
    rw [empty]
    exact .done

theorem matches_sequence_iff {tokens : List Token} {text : List Char} :
    Matches (.anySequence :: tokens) text ↔
      ∃ taken rest, text = taken ++ rest ∧ Matches tokens rest := by
  constructor
  · intro matched
    cases matched with
    | one accepted rest => cases accepted
    | sequence taken rest => exact ⟨taken, _, rfl, rest⟩
  · intro split
    obtain ⟨taken, rest, whole, matched⟩ := split
    rw [whole]
    exact .sequence taken matched

theorem matches_folders_iff {tokens : List Token} {text : List Char} :
    Matches (.anyFolders :: tokens) text ↔ tokens = [] ∨ Matches tokens text ∨
      ∃ taken rest, text = taken ++ '/' :: rest ∧ Matches tokens rest := by
  constructor
  · intro matched
    cases matched with
    | one accepted rest => cases accepted
    | noFolders rest => exact Or.inr (Or.inl rest)
    | folders taken rest => exact Or.inr (Or.inr ⟨taken, _, rfl, rest⟩)
    | anything => exact Or.inl rfl
  · intro ways
    rcases ways with last | matched | ⟨taken, rest, whole, matched⟩
    · rw [last]
      exact .anything text
    · exact .noFolders matched
    · rw [whole]
      exact .folders taken matched

def Token.IsSingle (token : Token) : Prop := token ≠ .anySequence ∧ token ≠ .anyFolders

theorem matches_single_iff {token : Token} (single : token.IsSingle) {tokens : List Token}
    {text : List Char} :
    Matches (token :: tokens) text ↔
      ∃ c rest, text = c :: rest ∧ token.accepts c = true ∧ Matches tokens rest := by
  constructor
  · intro matched
    cases matched with
    | one accepted rest => exact ⟨_, _, rfl, accepted, rest⟩
    | sequence => exact absurd rfl single.1
    | noFolders => exact absurd rfl single.2
    | folders => exact absurd rfl single.2
    | anything => exact absurd rfl single.2
  · intro split
    obtain ⟨c, rest, whole, accepted, matched⟩ := split
    rw [whole]
    exact .one accepted matched

theorem matches_literals_iff {literals : List Char} {tokens : List Token} {text : List Char} :
    Matches (literals.map .char ++ tokens) text ↔ ∃ rest, text = literals ++ rest ∧ Matches tokens rest := by
  induction literals generalizing text with
  | nil => simp only [List.map_nil, List.nil_append, exists_eq_left']
  | cons c literals ih =>
      have single : (Token.char c).IsSingle := ⟨Token.noConfusion, Token.noConfusion⟩
      rw [List.map_cons, List.cons_append, matches_single_iff single]
      constructor
      · intro split
        obtain ⟨d, behind, whole, same, matched⟩ := split
        obtain ⟨rest, next, matched⟩ := ih.mp matched
        rw [Token.accepts, beq_iff_eq] at same
        exact ⟨rest, by rw [whole, next, same, List.cons_append], matched⟩
      · intro split
        obtain ⟨rest, whole, matched⟩ := split
        exact ⟨c, literals ++ rest, whole, beq_self_eq_true c, ih.mpr ⟨rest, rfl, matched⟩⟩

theorem Matches.behind_slash {tokens : List Token} {text : List Char}
    (matched : Matches (.anyFolders :: tokens) text) (before : List Char) :
    Matches (.anyFolders :: tokens) (before ++ '/' :: text) := by
  rcases matches_folders_iff.mp matched with rfl | rest | ⟨taken, rest, rfl, below⟩
  · exact .anything _
  · exact .folders before rest
  · have longer := Matches.folders (before ++ '/' :: taken) below
    rw [List.append_assoc] at longer
    exact longer

theorem matches_push_iff {token : Token} {tokens : List Token} {text : List Char} :
    Matches (push token tokens) text ↔ Matches (token :: tokens) text := by
  by_cases twice : token = .anyFolders ∧ tokens.head? = some .anyFolders
  · rw [push, if_pos twice]
    obtain ⟨rfl, doubled⟩ := twice
    obtain ⟨others, rfl⟩ := List.head?_eq_some_iff.mp doubled
    constructor
    · exact Matches.noFolders
    · intro matched
      rcases matches_folders_iff.mp matched with none | once | ⟨taken, rest, rfl, below⟩
      · cases none
      · exact once
      · exact below.behind_slash taken
  · rw [push, if_neg twice]

theorem someSuffix_iff {test : List Char → Bool} {text : List Char} :
    someSuffix test text = true ↔ ∃ taken rest, text = taken ++ rest ∧ test rest = true := by
  induction text with
  | nil =>
      rw [someSuffix]
      constructor
      · intro passed
        exact ⟨[], [], rfl, passed⟩
      · intro split
        obtain ⟨taken, rest, whole, passed⟩ := split
        rw [(List.append_eq_nil_iff.mp whole.symm).2] at passed
        exact passed
  | cons c text ih =>
      rw [someSuffix, Bool.or_eq_true, ih]
      constructor
      · intro ways
        rcases ways with passed | ⟨taken, rest, whole, passed⟩
        · exact ⟨[], c :: text, rfl, passed⟩
        · exact ⟨c :: taken, rest, by rw [whole, List.cons_append], passed⟩
      · intro split
        obtain ⟨taken, rest, whole, passed⟩ := split
        cases taken with
        | nil =>
            rw [List.nil_append] at whole
            rw [whole]
            exact Or.inl passed
        | cons d taken => exact Or.inr ⟨taken, rest, (List.cons.inj whole).2, passed⟩

theorem someFolderSuffix_iff {test : List Char → Bool} {text : List Char} :
    someFolderSuffix test text = true ↔
      ∃ taken rest, text = taken ++ '/' :: rest ∧ test rest = true := by
  induction text with
  | nil =>
      constructor
      · intro passed
        cases passed
      · intro split
        obtain ⟨taken, rest, whole, _⟩ := split
        cases (List.append_eq_nil_iff.mp whole.symm).2
  | cons c text ih =>
      rw [someFolderSuffix, Bool.or_eq_true, Bool.and_eq_true, beq_iff_eq, ih]
      constructor
      · intro ways
        rcases ways with ⟨slash, passed⟩ | ⟨taken, rest, whole, passed⟩
        · exact ⟨[], text, by rw [slash, List.nil_append], passed⟩
        · exact ⟨c :: taken, rest, by rw [whole, List.cons_append], passed⟩
      · intro split
        obtain ⟨taken, rest, whole, passed⟩ := split
        cases taken with
        | nil =>
            obtain ⟨slash, tail⟩ := List.cons.inj whole
            rw [← tail] at passed
            exact Or.inl ⟨slash, passed⟩
        | cons d taken => exact Or.inr ⟨taken, rest, (List.cons.inj whole).2, passed⟩

theorem matchTokens_single {token : Token} (single : token.IsSingle) {tokens : List Token}
    {text : List Char} :
    matchTokens (token :: tokens) text = true ↔
      ∃ c rest, text = c :: rest ∧ token.accepts c = true ∧ matchTokens tokens rest = true := by
  cases text with
  | nil =>
      have stuck : matchTokens (token :: tokens) [] = false := by
        cases token with
        | anySequence => exact absurd rfl single.1
        | anyFolders => exact absurd rfl single.2
        | char | anyChar | within => rfl
      simp only [stuck, Bool.false_eq_true, reduceCtorEq, false_and, exists_false]
  | cons c rest =>
      have step : matchTokens (token :: tokens) (c :: rest) =
          (token.accepts c && matchTokens tokens rest) := by
        cases token with
        | anySequence => exact absurd rfl single.1
        | anyFolders => exact absurd rfl single.2
        | char | anyChar | within => rfl
      rw [step, Bool.and_eq_true]
      constructor
      · intro both
        exact ⟨c, rest, rfl, both⟩
      · intro split
        obtain ⟨_, _, whole, both⟩ := split
        cases whole
        exact both

theorem matchTokens_iff {tokens : List Token} {text : List Char} :
    matchTokens tokens text = true ↔ Matches tokens text := by
  induction tokens generalizing text with
  | nil => rw [matchTokens, List.isEmpty_iff, matches_nil_iff]
  | cons token tokens ih =>
      by_cases isSequence : token = .anySequence
      · rw [isSequence, matchTokens, someSuffix_iff, matches_sequence_iff]
        simp only [ih]
      · by_cases isFolders : token = .anyFolders
        · rw [isFolders, matches_folders_iff]
          cases tokens with
          | nil => exact ⟨fun _ => Or.inl rfl, fun _ => rfl⟩
          | cons next tokens =>
              rw [matchTokens, Bool.or_eq_true, someFolderSuffix_iff]
              simp only [ih, reduceCtorEq, false_or]
              exact List.cons_ne_nil next tokens
        · have single : token.IsSingle := ⟨isSequence, isFolders⟩
          rw [matchTokens_single single, matches_single_iff single]
          simp only [ih]

end Glob

end NamingLint
