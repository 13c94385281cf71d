import Mathlib.Data.List.TakeWhile
import NamingLint.Proofs.Except
import NamingLint.Proofs.Glob.Matching

/-! Which texts are globs, and which tokens they have. -/

namespace NamingLint

namespace Glob

/-- Behind the character `previous`, the piece `front` of a pattern is one token if `rest` follows. Two
stars fill a part of the path, and a class has a member before its closing bracket. -/
inductive Opens (previous : Option Char) : List Char → List Char → Token → Prop
  | literal {c : Char} {rest : List Char} (plain : c ≠ '?' ∧ c ≠ '*' ∧ c ≠ '[') :
      Opens previous [c] rest (.char c)
  | anyChar {rest : List Char} : Opens previous ['?'] rest .anyChar
  | anySequence {rest : List Char} (alone : rest.head? ≠ some '*') :
      Opens previous ['*'] rest .anySequence
  | lastFolders (starts : previous = none ∨ previous = some '/') :
      Opens previous ['*', '*'] [] .anyFolders
  | folders {rest : List Char} (starts : previous = none ∨ previous = some '/') :
      Opens previous ['*', '*', '/'] rest .anyFolders
  | within {member : Char} {members rest : List Char} (listed : member ≠ '!') (closed : ']' ∉ members) :
      Opens previous ('[' :: member :: (members ++ [']'])) rest
        (.within false (readMembers (member :: members)))
  | without {member : Char} {members rest : List Char} (closed : ']' ∉ members) :
      Opens previous ('[' :: '!' :: member :: (members ++ [']'])) rest
        (.within true (readMembers (member :: members)))

/-- The tokens of a pattern, or of the rest of one behind the character `previous`. -/
inductive Reads : Option Char → List Char → List Token → Prop
  | nothing {previous : Option Char} : Reads previous [] []
  | next {previous : Option Char} {front rest : List Char} {token : Token} {tokens : List Token}
      (opens : Opens previous front rest token) (behind : Reads front.getLast? rest tokens) :
      Reads previous (front ++ rest) (push token tokens)

variable {fuel position : Nat} {previous : Option Char} {token : Token}

theorem Opens.front_ne_nil {front rest : List Char} (opens : Opens previous front rest token) :
    front ≠ [] := by
  cases opens <;> exact List.cons_ne_nil _ _

theorem reads_nil_iff {tokens : List Token} : Reads previous [] tokens ↔ tokens = [] := by
  constructor
  · intro reads
    generalize empty : [] = text at reads
    cases reads with
    | nothing => rfl
    | next opens behind => exact absurd (List.append_eq_nil_iff.mp empty.symm).1 opens.front_ne_nil
  · intro none
    rw [none]
    exact .nothing

section Classes

theorem splitClass_closed {member : Char} {members rest : List Char} (closed : ']' ∉ members) :
    splitClass 1 (member :: (members ++ ']' :: rest)) = some (member :: members, rest) := by
  have passed : ∀ c ∈ members, (c != ']') = true := by
    intro c isMember
    rw [bne_iff_ne]
    intro same
    exact closed (same ▸ isMember)
  have behind : (members ++ ']' :: rest).dropWhile (· != ']') = ']' :: rest :=
    List.dropWhile_append_of_pos passed
  have before : (members ++ ']' :: rest).takeWhile (· != ']') = members := by
    rw [List.takeWhile_append_of_pos passed]
    exact List.append_nil members
  simp only [splitClass, List.take_succ_cons, List.take_zero, List.drop_succ_cons, List.drop_zero,
    behind, before, List.singleton_append]

theorem closed_of_splitClass {text members rest : List Char}
    (split : splitClass 1 text = some (members, rest)) :
    ∃ first others, ']' ∉ others ∧ members = first :: others ∧
      text = first :: (others ++ ']' :: rest) := by
  cases text with
  | nil => cases split
  | cons first tail =>
      by_cases closes : ']' ∈ tail
      · obtain ⟨others, behind, whole, closed⟩ := List.eq_append_cons_of_mem closes
        rw [whole, splitClass_closed closed] at split
        cases split
        exact ⟨first, others, closed, rfl, by rw [whole]⟩
      · have unclosed : tail.dropWhile (· != ']') = [] := by
          rw [List.dropWhile_eq_nil_iff]
          intro c isPart
          rw [bne_iff_ne]
          intro same
          exact closes (same ▸ isPart)
        simp only [splitClass, List.drop_succ_cons, List.drop_zero, unclosed, reduceCtorEq] at split

theorem readClass_of_listed {member : Char} {members rest : List Char} (listed : member ≠ '!')
    (closed : ']' ∉ members) :
    readClass (member :: (members ++ ']' :: rest)) =
      some (.within false (readMembers (member :: members)), rest) := by
  rw [readClass, splitClass_closed closed, Option.map_some]
  intro others same
  exact listed (List.cons.inj same).1

theorem opens_of_readClass {text rest : List Char} (read : readClass text = some (token, rest)) :
    ∃ front, '[' :: text = front ++ rest ∧ Opens previous front rest token := by
  by_cases negated : text.head? = some '!'
  · obtain ⟨behind, rfl⟩ := List.head?_eq_some_iff.mp negated
    rw [readClass, Option.map_eq_some_iff] at read
    obtain ⟨⟨members, after⟩, split, same⟩ := read
    obtain ⟨first, others, closed, rfl, rfl⟩ := closed_of_splitClass split
    cases same
    exact ⟨'[' :: '!' :: first :: (others ++ [']']), by simp, .without closed⟩
  · rw [readClass, Option.map_eq_some_iff] at read
    · obtain ⟨⟨members, after⟩, split, same⟩ := read
      obtain ⟨first, others, closed, rfl, rfl⟩ := closed_of_splitClass split
      cases same
      refine ⟨'[' :: first :: (others ++ [']']), by simp, .within ?_ closed⟩
      intro same
      exact negated (congrArg some same)
    · intro others same
      rw [same] at negated
      exact negated rfl

end Classes

section Stars

theorem beq_star_of_alone {c : Char} {rest : List Char} (alone : (c :: rest).head? ≠ some '*') :
    (c == '*') = false := by
  rw [beq_eq_false_iff_ne]
  intro same
  exact alone (congrArg some same)

theorem readStars_one {rest : List Char} (alone : rest.head? ≠ some '*') :
    readStars position previous ('*' :: rest) = .ok (.anySequence, rest) := by
  cases rest with
  | nil => rfl
  | cons c rest => simp [readStars, beq_star_of_alone alone]

theorem takeWhile_two_stars {rest : List Char} (alone : rest.head? ≠ some '*') :
    ('*' :: '*' :: rest).takeWhile (· == '*') = ['*', '*'] ∧
      ('*' :: '*' :: rest).dropWhile (· == '*') = rest := by
  cases rest with
  | nil => exact ⟨rfl, rfl⟩
  | cons c rest => simp [beq_star_of_alone alone]

theorem readStars_last (starts : previous = none ∨ previous = some '/') :
    readStars position previous ['*', '*'] = .ok (.anyFolders, []) := by
  simp [readStars, starts]

theorem readStars_folders {rest : List Char} (starts : previous = none ∨ previous = some '/') :
    readStars position previous ('*' :: '*' :: '/' :: rest) = .ok (.anyFolders, rest) := by
  simp [readStars, starts]

theorem opens_of_readStars {tail rest : List Char}
    (read : readStars position previous ('*' :: tail) = .ok (token, rest)) :
    ∃ front, '*' :: tail = front ++ rest ∧ Opens previous front rest token := by
  by_cases second : tail.head? = some '*'
  · obtain ⟨tail, rfl⟩ := List.head?_eq_some_iff.mp second
    by_cases third : tail.head? = some '*'
    · obtain ⟨tail, rfl⟩ := List.head?_eq_some_iff.mp third
      simp [readStars] at read
    · obtain ⟨stars, behind⟩ := takeWhile_two_stars third
      simp only [readStars, stars, behind] at read
      rw [if_neg (by decide), if_pos (by decide)] at read
      by_cases starts : previous = none ∨ previous = some '/'
      · rw [if_pos starts] at read
        split at read
        · cases read
          exact ⟨['*', '*'], rfl, .lastFolders starts⟩
        · cases read
          exact ⟨['*', '*', '/'], rfl, .folders starts⟩
        · cases read
      · rw [if_neg starts] at read
        cases read
  · rw [readStars_one second] at read
    cases read
    exact ⟨['*'], rfl, .anySequence second⟩

end Stars

def firstToken (position : Nat) (previous : Option Char) (c : Char) (behind : List Char) :
    Except Error (Token × List Char) :=
  if c = '?' then .ok (.anyChar, behind)
  else if c = '*' then readStars position previous (c :: behind)
  else if c = '[' then
    match readClass behind with
    | some first => .ok first
    | none => .error ⟨position, .invalidRange⟩
  else .ok (.char c, behind)

theorem firstToken_eq_ok_iff {c : Char} {behind rest : List Char} :
    firstToken position previous c behind = .ok (token, rest) ↔
      ∃ front, c :: behind = front ++ rest ∧ Opens previous front rest token := by
  constructor
  · intro read
    rw [firstToken] at read
    split at read
    case isTrue question =>
      cases read
      exact ⟨['?'], by rw [question, List.singleton_append], .anyChar⟩
    case isFalse noQuestion =>
      split at read
      case isTrue star =>
        rw [star] at read ⊢
        exact opens_of_readStars read
      case isFalse noStar =>
        split at read
        case isTrue bracket =>
          rw [bracket]
          cases found : readClass behind with
          | none =>
              rw [found] at read
              cases read
          | some first =>
              rw [found] at read
              cases read
              exact opens_of_readClass found
        case isFalse noBracket =>
          cases read
          exact ⟨[c], rfl, .literal ⟨noQuestion, noStar, noBracket⟩⟩
  · intro opened
    obtain ⟨front, whole, opens⟩ := opened
    rw [firstToken]
    cases opens with
    | literal plain =>
        cases whole
        rw [if_neg plain.1, if_neg plain.2.1, if_neg plain.2.2]
        rfl
    | anyChar =>
        cases whole
        rfl
    | anySequence alone =>
        cases whole
        exact readStars_one alone
    | lastFolders starts =>
        cases whole
        exact readStars_last starts
    | folders starts =>
        cases whole
        exact readStars_folders starts
    | within listed closed =>
        rw [List.cons_append, List.cons_append, List.append_assoc] at whole
        cases whole
        simp only [List.singleton_append, readClass_of_listed listed closed]
        rfl
    | without closed =>
        rw [List.cons_append, List.cons_append, List.cons_append, List.append_assoc] at whole
        cases whole
        simp only [List.singleton_append, readClass, splitClass_closed closed]
        rfl

theorem readTokens_cons {c : Char} {behind : List Char} :
    readTokens (fuel + 1) position previous (c :: behind) = do
      let (token, rest) ← firstToken position previous c behind
      let taken := (c :: behind).length - rest.length
      let tokens ← readTokens fuel (position + taken) ((c :: behind).take taken).getLast? rest
      return push token tokens := by
  rw [readTokens, firstToken]
  by_cases question : c = '?'
  · rw [if_pos question, if_pos question]
    rfl
  · rw [if_neg question, if_neg question]
    by_cases star : c = '*'
    · rw [if_pos star, if_pos star]
    · rw [if_neg star, if_neg star]
      by_cases bracket : c = '['
      · rw [if_pos bracket, if_pos bracket]
        cases readClass behind with
        | none => rfl
        | some first => rfl
      · rw [if_neg bracket, if_neg bracket]
        rfl

theorem readTokens_step_iff {text : List Char} {tokens : List Token} (any : text ≠ []) :
    readTokens (fuel + 1) position previous text = .ok tokens ↔
      ∃ front rest token later, text = front ++ rest ∧ Opens previous front rest token ∧
        readTokens fuel (position + front.length) front.getLast? rest = .ok later ∧
        tokens = push token later := by
  cases text with
  | nil => exact absurd rfl any
  | cons c behind =>
      have taken : ∀ front rest : List Char, c :: behind = front ++ rest →
          (c :: behind).length - rest.length = front.length ∧
            (c :: behind).take front.length = front := by
        intro front rest whole
        rw [whole, List.length_append, Nat.add_sub_cancel]
        exact ⟨rfl, List.take_left⟩
      rw [readTokens_cons, bind_eq_ok_iff]
      constructor
      · intro read
        obtain ⟨⟨token, rest⟩, first, read⟩ := read
        obtain ⟨later, further, pushed⟩ := bind_pure_eq_ok_iff.mp read
        obtain ⟨front, whole, opens⟩ := firstToken_eq_ok_iff.mp first
        obtain ⟨count, piece⟩ := taken front rest whole
        rw [count, piece] at further
        exact ⟨front, rest, token, later, whole, opens, further, pushed⟩
      · intro read
        obtain ⟨front, rest, token, later, whole, opens, further, pushed⟩ := read
        obtain ⟨count, piece⟩ := taken front rest whole
        refine ⟨(token, rest), firstToken_eq_ok_iff.mpr ⟨front, whole, opens⟩, ?_⟩
        apply bind_pure_eq_ok_iff.mpr
        rw [count, piece]
        exact ⟨later, further, pushed⟩

theorem readTokens_nil_iff {tokens : List Token} :
    readTokens fuel position previous [] = .ok tokens ↔ Reads previous [] tokens := by
  have nothing : readTokens fuel position previous [] = .ok [] := by cases fuel <;> rfl
  rw [nothing, reads_nil_iff, Except.ok.injEq, eq_comm]

/-- As much fuel as text is enough to read all of it. -/
theorem readTokens_eq_ok_iff {text : List Char} {tokens : List Token} (enough : text.length ≤ fuel) :
    readTokens fuel position previous text = .ok tokens ↔ Reads previous text tokens := by
  induction fuel generalizing position previous text tokens with
  | zero =>
      rw [List.length_eq_zero_iff.mp (Nat.le_zero.mp enough)]
      exact readTokens_nil_iff
  | succ fuel ih =>
      by_cases any : text = []
      · rw [any]
        exact readTokens_nil_iff
      · have shorter : ∀ {front rest : List Char} {token : Token}, text = front ++ rest →
            Opens previous front rest token → rest.length ≤ fuel := by
          intro front rest token whole opens
          have some := List.length_pos_iff.mpr opens.front_ne_nil
          rw [whole, List.length_append] at enough
          omega
        rw [readTokens_step_iff any]
        constructor
        · intro read
          obtain ⟨front, rest, token, later, whole, opens, further, rfl⟩ := read
          rw [whole]
          exact .next opens ((ih (shorter whole opens)).mp further)
        · intro reads
          generalize same : text = given at reads
          cases reads with
          | nothing => exact absurd same any
          | next opens behind =>
              exact ⟨_, _, _, _, rfl, opens, (ih (shorter same opens)).mpr behind, rfl⟩

theorem Reads.unique {text : List Char} {tokens others : List Token}
    (first : Reads previous text tokens) (second : Reads previous text others) : tokens = others := by
  have read : readTokens text.length 0 previous text = .ok tokens :=
    (readTokens_eq_ok_iff (Nat.le_refl _)).mpr first
  rw [(readTokens_eq_ok_iff (Nat.le_refl _)).mpr second] at read
  exact (Except.ok.inj read).symm

theorem parse_eq_ok_iff {pattern : String} {glob : Glob} :
    parse pattern = .ok glob ↔ Reads none pattern.toList glob.tokens := by
  rw [parse, bind_pure_eq_ok_iff, ← readTokens_eq_ok_iff (Nat.le_refl _)]
  constructor
  · intro read
    obtain ⟨tokens, read, rfl⟩ := read
    exact read
  · intro read
    exact ⟨glob.tokens, read, rfl⟩

def IsPattern (pattern : String) : Prop := ∃ tokens, Reads none pattern.toList tokens

def Accepts (pattern path : String) : Prop :=
  ∃ tokens, Reads none pattern.toList tokens ∧ Matches tokens path.toList

theorem isPattern_iff {pattern : String} : IsPattern pattern ↔ ∃ glob, parse pattern = .ok glob := by
  constructor
  · intro isPattern
    obtain ⟨tokens, reads⟩ := isPattern
    exact ⟨⟨tokens⟩, parse_eq_ok_iff.mpr reads⟩
  · intro parsed
    obtain ⟨glob, parsed⟩ := parsed
    exact ⟨glob.tokens, parse_eq_ok_iff.mp parsed⟩

theorem accepts_iff_matches {pattern path : String} {tokens : List Token}
    (reads : Reads none pattern.toList tokens) : Accepts pattern path ↔ Matches tokens path.toList := by
  constructor
  · intro accepted
    obtain ⟨others, again, matched⟩ := accepted
    rw [reads.unique again]
    exact matched
  · intro matched
    exact ⟨tokens, reads, matched⟩

theorem accepts_iff_matchesPath {pattern path : String} {glob : Glob}
    (parsed : parse pattern = .ok glob) : Accepts pattern path ↔ glob.matchesPath path = true := by
  rw [matchesPath, matchTokens_iff, accepts_iff_matches (parse_eq_ok_iff.mp parsed)]

instance (pattern : String) : Decidable (IsPattern pattern) :=
  match parsed : parse pattern with
  | .ok glob => isTrue (isPattern_iff.mpr ⟨glob, parsed⟩)
  | .error error => isFalse fun isPattern => by
      obtain ⟨glob, again⟩ := isPattern_iff.mp isPattern
      rw [parsed] at again
      cases again

instance (pattern path : String) : Decidable (Accepts pattern path) :=
  match parsed : parse pattern with
  | .ok glob => decidable_of_iff _ (accepts_iff_matchesPath parsed).symm
  | .error error => isFalse fun accepted => by
      obtain ⟨tokens, reads, _⟩ := accepted
      rw [parse_eq_ok_iff.mpr reads] at parsed
      cases parsed

end Glob

end NamingLint
