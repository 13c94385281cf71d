import NamingLint.Proofs.Json.Literals

/-! Printed JSON is read back.

A value is read back at every depth and whatever stands behind it, as long as that does not go on with a
number. The reader takes at most two steps for each printed character, so it never runs out of them. -/

namespace NamingLint.Json

inductive Value.Whole : Value → Prop
  | null : Whole .null
  | boolean (value : Bool) : Whole (.boolean value)
  | number (n : Nat) : Whole (.ofNat n)
  | string (text : Text) : Whole (.string text)
  | array (items : List Value) (each : ∀ item ∈ items, Whole item) : Whole (.array items)
  | object (members : List (Text × Value)) (each : ∀ member ∈ members, Whole member.2) :
      Whole (.object members)

/-- A printed value is read back in two steps for each of its characters. -/
def ReadsBack (v : Value) : Prop :=
  ∀ depth steps rest, Stops rest → 2 * (print depth v).length ≤ steps + 1 →
    readValue (steps + 1) (print depth v ++ rest) = some (v, rest)

section Blanks

theorem skipBlanks_append {blanks : List Char} (blank : ∀ c ∈ blanks, isBlank c = true)
    (rest : List Char) : skipBlanks (blanks ++ rest) = skipBlanks rest := by
  rw [skipBlanks, List.dropWhile_append_of_pos blank]
  rfl

theorem skipBlanks_cons {c : Char} (visible : isBlank c = false) (cs : List Char) :
    skipBlanks (c :: cs) = c :: cs := by
  rw [skipBlanks, List.dropWhile_cons_of_neg (by simp [visible])]

theorem skipBlanks_margin (depth : Nat) (rest : List Char) :
    skipBlanks (margin depth ++ rest) = skipBlanks rest := by
  apply skipBlanks_append
  intro c member
  rw [margin, List.mem_cons, List.mem_replicate] at member
  rcases member with rfl | ⟨_, rfl⟩ <;> rfl

theorem stops_margin (depth : Nat) (rest : List Char) : Stops (margin depth ++ rest) := by
  intro c isFirst
  cases isFirst
  exact Or.inr rfl

theorem stops_comma (rest : List Char) : Stops (',' :: rest) := by
  intro c isFirst
  cases isFirst
  exact Or.inl rfl

variable {fuel : Nat} {cs : List Char}

theorem readValue_congr {other : List Char} (same : skipBlanks cs = skipBlanks other) :
    readValue fuel cs = readValue fuel other := by
  cases fuel with
  | zero => rw [readValue, readValue]
  | succ fuel => rw [readValue, readValue, same]

theorem readItems_margin (depth : Nat) : readItems fuel (margin depth ++ cs) = readItems fuel cs := by
  cases fuel with
  | zero => rw [readItems, readItems]
  | succ fuel => rw [readItems, readItems, readValue_congr (skipBlanks_margin depth cs)]

theorem readMembers_margin (depth : Nat) :
    readMembers fuel (margin depth ++ cs) = readMembers fuel cs := by
  cases fuel with
  | zero => rw [readMembers, readMembers]
  | succ fuel => rw [readMembers, readMembers, readKey, readKey, skipBlanks_margin]

end Blanks

section Atoms

theorem readsBack_null : ReadsBack .null := by
  intro depth steps rest _ _
  rw [print, readValue]
  rfl

theorem readsBack_boolean (value : Bool) : ReadsBack (.boolean value) := by
  intro depth steps rest _ _
  cases value with
  | false =>
      rw [print, readValue]
      rfl
  | true =>
      rw [print, readValue]
      rfl

theorem readsBack_string (text : Text) : ReadsBack (.string text) := by
  intro depth steps rest _ _
  obtain ⟨inside, opened, read⟩ := quote_reads_back text
  rw [print, opened, List.cons_append, readValue, skipBlanks_cons (by decide)]
  simp [Start.ofChar, read]

theorem isBlank_of_isDigit {c : Char} (digit : isDigit c = true) : isBlank c = false := by
  rw [← Bool.not_eq_true, isBlank_iff]
  rintro (rfl | rfl | rfl | rfl) <;> cases digit

theorem Start.ofChar_of_isDigit {c : Char} (digit : isDigit c = true) :
    Start.ofChar c = .number := by
  unfold Start.ofChar
  split
  · cases digit
  · cases digit
  · cases digit
  · cases digit
  · cases digit
  · cases digit
  · rfl

theorem readsBack_ofNat (n : Nat) : ReadsBack (.ofNat n) := by
  intro depth steps rest stops _
  obtain ⟨first, others, digits, leads⟩ := toDigits_cons n
  have read := readNumber_toDigits n stops
  have literal : String.ofList (Nat.toDigits 10 n) = toString n := by
    rw [← toString_toList, String.ofList_toList]
  rw [digits] at read literal
  rw [Value.ofNat, print, toString_toList, digits, List.cons_append, readValue,
    skipBlanks_cons (isBlank_of_isDigit leads)]
  rw [List.cons_append] at read
  simp [Start.ofChar_of_isDigit leads, read, literal]

end Atoms

theorem print_starts {v : Value} (whole : v.Whole) (depth : Nat) :
    ∃ c cs, print depth v = c :: cs ∧ isBlank c = false ∧ c ≠ ']' := by
  cases whole with
  | null => exact ⟨_, _, rfl, by decide⟩
  | boolean value => cases value <;> exact ⟨_, _, rfl, by decide⟩
  | number n =>
      obtain ⟨first, others, digits, leads⟩ := toDigits_cons n
      refine ⟨first, others, ?_, isBlank_of_isDigit leads, ?_⟩
      · rw [Value.ofNat, print, toString_toList, digits]
      · rintro rfl
        cases leads
  | string text =>
      obtain ⟨inside, opened, _⟩ := quote_reads_back text
      exact ⟨_, _, by rw [print, opened], by decide⟩
  | array items => cases items <;> exact ⟨_, _, by rw [print], by decide⟩
  | object members => cases members <;> exact ⟨_, _, by rw [print], by decide⟩

section Arrays

variable {fuel : Nat} {cs after more rest : List Char} {item : Value} {items : List Value}

theorem readItems_last (read : readValue fuel cs = some (item, after))
    (closes : skipBlanks after = ']' :: rest) : readItems (fuel + 1) cs = some ([item], rest) := by
  simp [readItems, read, closes]

theorem readItems_next (read : readValue fuel cs = some (item, after))
    (follows : skipBlanks after = ',' :: more) (others : readItems fuel more = some (items, rest)) :
    readItems (fuel + 1) cs = some (item :: items, rest) := by
  simp [readItems, read, follows, others]

theorem readItems_printItems (first : ReadsBack item) (each : ∀ other ∈ items, ReadsBack other)
    (depth outer steps : Nat) (rest : List Char)
    (enough : 2 * ((print depth item).length + (printItems depth items).length) ≤ steps + 1) :
    readItems (steps + 2)
        (print depth item ++ (printItems depth items ++ (margin outer ++ ']' :: rest))) =
      some (item :: items, rest) := by
  induction items generalizing item steps with
  | nil =>
      have read := first depth steps _ (stops_margin outer (']' :: rest)) (by omega)
      exact readItems_last read (skipBlanks_margin outer _)
  | cons next items ih =>
      simp only [printItems, List.length_cons, List.length_append] at enough
      have read : ∀ behind, readValue (steps + 1) (print depth item ++ ',' :: behind) =
          some (item, ',' :: behind) := by
        intro behind
        exact first depth steps _ (stops_comma behind) (by omega)
      obtain ⟨fewer, rfl⟩ : ∃ fewer, steps = fewer + 1 := ⟨steps - 1, by omega⟩
      have second := each next List.mem_cons_self
      have others : ∀ other ∈ items, ReadsBack other := by
        intro other member
        exact each other (List.mem_cons_of_mem next member)
      have further := ih second others fewer (by omega)
      rw [← readItems_margin depth] at further
      simp only [printItems, List.cons_append, List.append_assoc]
      exact readItems_next (read _) rfl further

theorem readsBack_array (whole : ∀ item ∈ items, item.Whole)
    (each : ∀ item ∈ items, ReadsBack item) : ReadsBack (.array items) := by
  intro depth steps rest _ enough
  cases items with
  | nil => simp [print, readValue, skipBlanks, isBlank, Start.ofChar]
  | cons item items =>
      simp only [print, List.length_cons, List.length_append] at enough
      obtain ⟨fewer, rfl⟩ : ∃ fewer, steps = fewer + 2 := ⟨steps - 2, by omega⟩
      obtain ⟨c, cs, starts, visible, nonempty⟩ :=
        print_starts (whole item List.mem_cons_self) (depth + 1)
      have others : ∀ other ∈ items, ReadsBack other := by
        intro other member
        exact each other (List.mem_cons_of_mem item member)
      have read := readItems_printItems (each item List.mem_cons_self) others (depth + 1) depth
        fewer rest (by omega)
      simp only [starts, List.cons_append] at read
      simp only [print, starts, List.cons_append, List.append_assoc, List.nil_append]
      rw [readValue, skipBlanks_cons (by decide)]
      simp [Start.ofChar, skipBlanks_margin, skipBlanks_cons visible, nonempty, read]

end Arrays

section Objects

variable {fuel : Nat} {cs behind after more rest : List Char} {key : Text} {value : Value}
  {members : List (Text × Value)}

theorem readKey_quote (key : Text) (cs : List Char) :
    readKey (quote key ++ ':' :: cs) = some (key, cs) := by
  obtain ⟨inside, opened, read⟩ := quote_reads_back key
  have colon : isBlank ':' = false := by decide
  rw [readKey, opened, List.cons_append, skipBlanks_cons (by decide)]
  simp [read, skipBlanks_cons colon]

theorem readMembers_last (named : readKey cs = some (key, behind))
    (read : readValue fuel behind = some (value, after))
    (closes : skipBlanks after = '\x7d' :: rest) :
    readMembers (fuel + 1) cs = some ([(key, value)], rest) := by
  simp [readMembers, named, read, closes]

theorem readMembers_next (named : readKey cs = some (key, behind))
    (read : readValue fuel behind = some (value, after)) (follows : skipBlanks after = ',' :: more)
    (others : readMembers fuel more = some (members, rest)) :
    readMembers (fuel + 1) cs = some ((key, value) :: members, rest) := by
  simp [readMembers, named, read, follows, others]

theorem readValue_blank (cs : List Char) : readValue fuel (' ' :: cs) = readValue fuel cs :=
  readValue_congr rfl

theorem readMembers_printMembers (key : Text) (first : ReadsBack value)
    (each : ∀ member ∈ members, ReadsBack member.2) (depth outer steps : Nat) (rest : List Char)
    (enough : 2 * ((print depth value).length + (printMembers depth members).length) ≤ steps + 1) :
    readMembers (steps + 2) (quote key ++ ':' :: ' ' :: (print depth value ++
      (printMembers depth members ++ (margin outer ++ '\x7d' :: rest)))) =
        some ((key, value) :: members, rest) := by
  induction members generalizing key value steps with
  | nil =>
      have read := first depth steps _ (stops_margin outer ('\x7d' :: rest)) (by omega)
      rw [← readValue_blank] at read
      exact readMembers_last (readKey_quote key _) read (skipBlanks_margin outer _)
  | cons next members ih =>
      obtain ⟨nextKey, nextValue⟩ := next
      simp only [printMembers, List.length_cons, List.length_append] at enough
      have read : ∀ behind, readValue (steps + 1) (' ' :: (print depth value ++ ',' :: behind)) =
          some (value, ',' :: behind) := by
        intro behind
        rw [readValue_blank]
        exact first depth steps _ (stops_comma behind) (by omega)
      obtain ⟨fewer, rfl⟩ : ∃ fewer, steps = fewer + 1 := ⟨steps - 1, by omega⟩
      have second : ReadsBack nextValue := each (nextKey, nextValue) List.mem_cons_self
      have others : ∀ member ∈ members, ReadsBack member.2 := by
        intro member isMember
        exact each member (List.mem_cons_of_mem _ isMember)
      have further := ih nextKey second others fewer (by omega)
      rw [← readMembers_margin depth] at further
      simp only [printMembers, List.cons_append, List.nil_append, List.append_assoc]
      exact readMembers_next (readKey_quote key _) (read _) rfl further

theorem readsBack_object (each : ∀ member ∈ members, ReadsBack member.2) :
    ReadsBack (.object members) := by
  intro depth steps rest _ enough
  cases members with
  | nil => simp [print, readValue, skipBlanks, isBlank, Start.ofChar]
  | cons member members =>
      obtain ⟨key, value⟩ := member
      simp only [print, List.length_cons, List.length_append] at enough
      obtain ⟨fewer, rfl⟩ : ∃ fewer, steps = fewer + 2 := ⟨steps - 2, by omega⟩
      have first : ReadsBack value := each (key, value) List.mem_cons_self
      have others : ∀ member ∈ members, ReadsBack member.2 := by
        intro member isMember
        exact each member (List.mem_cons_of_mem _ isMember)
      have read := readMembers_printMembers key first others (depth + 1) depth
        fewer rest (by omega)
      obtain ⟨inside, opened, _⟩ := quote_reads_back key
      have quotes : isBlank '"' = false := by decide
      simp only [opened, List.cons_append] at read
      simp only [print, opened, List.cons_append, List.append_assoc, List.nil_append]
      rw [readValue, skipBlanks_cons (by decide)]
      simp [Start.ofChar, skipBlanks_margin, skipBlanks_cons quotes, read]

end Objects

theorem Value.Whole.readsBack {v : Value} (whole : v.Whole) : ReadsBack v := by
  induction whole with
  | null => exact readsBack_null
  | boolean value => exact readsBack_boolean value
  | number n => exact readsBack_ofNat n
  | string text => exact readsBack_string text
  | array items each ih => exact readsBack_array each ih
  | object members each ih => exact readsBack_object ih

/-- A printed value is what its text stands for, with any blanks behind it. -/
theorem Value.Whole.parse?_pretty {v : Value} (whole : v.Whole) {blanks : String}
    (blank : ∀ c ∈ blanks.toList, isBlank c = true) : parse? (v.pretty ++ blanks) = some v := by
  have stops : Stops blanks.toList := by
    intro c isFirst
    exact Or.inr (blank c (List.mem_of_mem_head? isFirst))
  have skipped : skipBlanks blanks.toList = [] := by
    simpa [skipBlanks] using skipBlanks_append blank []
  have read := whole.readsBack 0 (2 * (print 0 v ++ blanks.toList).length + 1) blanks.toList stops
    (by rw [List.length_append]; omega)
  have text : (v.pretty ++ blanks).toList = print 0 v ++ blanks.toList := by
    rw [String.toList_append, Value.pretty, String.toList_ofList]
  simp only [parse?, text, read, Option.bind_eq_bind, Option.bind_some, skipped, List.isEmpty_nil,
    if_true]

end NamingLint.Json
