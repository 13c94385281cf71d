import Mathlib.Tactic.SplitIfs
import NamingLint.Json.Printer
import NamingLint.Json.Reader

/-! Literals of printed JSON are read back: strings with all of their escapes, and whole numbers of any
size. -/

namespace NamingLint.Json

section Strings

def prepend (piece : Piece) (read : List Piece × List Char) : List Piece × List Char :=
  (piece :: read.1, read.2)

theorem readPieces_short {letter c : Char} (escapes : shortEscape? letter = some c)
    (rest : List Char) :
    readPieces ('\\' :: letter :: rest) = (readPieces rest).map (prepend (.scalar c)) := by
  have short : letter ≠ 'u' := by
    rintro rfl
    cases escapes
  rw [readPieces.eq_4 _ _ fun _ _ _ _ _ long => absurd long short, escapes]
  cases readPieces rest <;> rfl

theorem readPieces_unicode {a b c d : Char} {piece : Piece}
    (escapes : hexPiece? a b c d = some piece) (rest : List Char) :
    readPieces ('\\' :: 'u' :: a :: b :: c :: d :: rest) =
      (readPieces rest).map (prepend piece) := by
  rw [readPieces, escapes]
  cases readPieces rest <;> rfl

theorem readPieces_plain {c : Char} (noQuote : c ≠ '"') (noBackslash : c ≠ '\\')
    (visible : ¬ c.toNat < 0x20) (rest : List Char) :
    readPieces (c :: rest) = (readPieces rest).map (prepend (.scalar c)) := by
  rw [readPieces.eq_5 _ _ noQuote (fun _ _ _ _ _ same => absurd same noBackslash)
    fun _ _ same => absurd same noBackslash]
  rw [if_neg (by simp [noBackslash, visible])]
  cases readPieces rest <;> rfl

theorem hexValue?_hexDigit : ∀ n < 16, hexValue? (hexDigit n) = some n := by decide

theorem hexPiece?_control {c : Char} (control : c.toNat < 0x20) :
    hexPiece? '0' '0' (hexDigit (c.toNat / 16)) (hexDigit (c.toNat % 16)) = some (.scalar c) := by
  have zero : hexValue? '0' = some 0 := rfl
  have high := hexValue?_hexDigit (c.toNat / 16) (by omega)
  have low := hexValue?_hexDigit (c.toNat % 16) (by omega)
  have joined : (0 * 16 + 0) * 256 + (c.toNat / 16 * 16 + c.toNat % 16) = c.toNat := by omega
  have scalar : ¬ (0xD800 ≤ c.toNat ∧ c.toNat < 0xE000) := by omega
  simp only [hexPiece?, zero, high, low, Option.pure_def, Option.bind_eq_bind, Option.bind_some,
    joined, unitPiece, if_neg scalar, Char.ofNat_toNat]

/-- Whatever stands behind it, the escape of a character is read as that character. -/
theorem readPieces_escape (c : Char) (rest : List Char) :
    readPieces (escape c ++ rest) = (readPieces rest).map (prepend (.scalar c)) := by
  unfold escape
  split_ifs with quotes backslash lineFeed carriageReturn tab backspace formFeed control
  · subst quotes
    exact readPieces_short rfl rest
  · subst backslash
    exact readPieces_short rfl rest
  · subst lineFeed
    exact readPieces_short rfl rest
  · subst carriageReturn
    exact readPieces_short rfl rest
  · subst tab
    exact readPieces_short rfl rest
  · subst backspace
    exact readPieces_short rfl rest
  · subst formFeed
    exact readPieces_short rfl rest
  · exact readPieces_unicode (hexPiece?_control control) rest
  · exact readPieces_plain quotes backslash control rest

theorem readPieces_quoted (text rest : List Char) :
    readPieces (text.flatMap escape ++ '"' :: rest) = some (text.map .scalar, rest) := by
  induction text with
  | nil => rfl
  | cons c text ih =>
      rw [List.flatMap_cons, List.append_assoc, readPieces_escape, ih]
      rfl

theorem assemble_scalars (text : List Char) : assemble (text.map .scalar) = some text := by
  induction text with
  | nil => rfl
  | cons c text ih => rw [List.map_cons, assemble, ih, Option.map_some]

theorem readText_of_pieces {cs rest : List Char} {pieces : List Piece}
    (read : readPieces cs = some (pieces, rest)) :
    readText cs = some ((assemble pieces).map String.ofList, rest) := by
  rw [readText, read]
  rfl

theorem quote_reads_back (text : Text) :
    ∃ inside, quote text = '"' :: inside ∧ ∀ rest, readText (inside ++ rest) = some (text, rest) := by
  cases text with
  | none =>
      refine ⟨['\\', 'u', 'd', '8', '0', '0', '"'], rfl, ?_⟩
      intro rest
      have half : hexPiece? 'd' '8' '0' '0' = some (.surrogate 0xD800) := by decide
      exact readText_of_pieces ((readPieces_unicode half ('"' :: rest)).trans rfl)
  | some text =>
      refine ⟨text.toList.flatMap escape ++ ['"'], rfl, ?_⟩
      intro rest
      rw [List.append_assoc, List.singleton_append, readText_of_pieces (readPieces_quoted _ rest),
        assemble_scalars, Option.map_some, String.ofList_toList]

end Strings

section Numbers

/-- What may stand behind a value: nothing, or a comma or a blank. -/
def Stops (rest : List Char) : Prop := ∀ c ∈ rest.head?, c = ',' ∨ isBlank c = true

theorem isBlank_iff {c : Char} :
    isBlank c = true ↔ c = ' ' ∨ c = '\n' ∨ c = '\r' ∨ c = '\t' := by
  simp only [isBlank, Bool.or_eq_true, beq_iff_eq, or_assoc]

theorem Stops.head {c : Char} {rest : List Char} (stops : Stops (c :: rest)) :
    isDigit c = false ∧ c ≠ '.' ∧ isExponentMark c = false := by
  rcases stops c rfl with rfl | blank
  · decide
  · rcases isBlank_iff.mp blank with rfl | rfl | rfl | rfl <;> decide

theorem readDigits_append {digits rest : List Char} (nonempty : digits ≠ [])
    (digitsOnly : ∀ c ∈ digits, isDigit c = true) (stops : Stops rest) :
    readDigits (digits ++ rest) = some (digits, rest) := by
  have ends : rest.takeWhile isDigit = [] ∧ rest.dropWhile isDigit = rest := by
    cases rest with
    | nil => exact ⟨rfl, rfl⟩
    | cons c rest => simp [stops.head.1]
  have taken : (digits ++ rest).takeWhile isDigit = digits := by
    rw [List.takeWhile_append_of_pos digitsOnly, ends.1, List.append_nil]
  have left : (digits ++ rest).dropWhile isDigit = rest := by
    rw [List.dropWhile_append_of_pos digitsOnly, ends.2]
  unfold readDigits
  rw [taken, left]
  cases digits with
  | nil => exact absurd rfl nonempty
  | cons c digits => rfl

theorem readUnsigned_of_whole {cs whole rest : List Char}
    (read : readWhole cs = some (whole, rest)) (stops : Stops rest) :
    readUnsigned cs = some (whole, rest) := by
  have noFraction : readFraction rest = some ([], rest) := by
    cases rest with
    | nil => rfl
    | cons c rest => rw [readFraction.eq_2 _ fun _ same => stops.head.2.1 (List.cons.inj same).1]
  have noExponent : readExponent rest = some ([], rest) := by
    cases rest with
    | nil => rfl
    | cons c rest => simp [readExponent, stops.head.2.2]
  simp [readUnsigned, read, noFraction, noExponent]

theorem isDigit_of_mem_toDigits (n : Nat) : ∀ c ∈ Nat.toDigits 10 n, isDigit c = true := by
  intro c member
  have digit := Nat.isDigit_of_mem_toDigits (by omega) (by omega) member
  simpa [Char.isDigit, isDigit, Char.le_def] using digit

theorem toDigits_cons (n : Nat) :
    ∃ first others, Nat.toDigits 10 n = first :: others ∧ isDigit first = true := by
  have digits := isDigit_of_mem_toDigits n
  cases known : Nat.toDigits 10 n with
  | nil => exact absurd known Nat.toDigits_ne_nil
  | cons first others => exact ⟨first, others, rfl, digits first (by simp [known])⟩

theorem toDigits_of_pos (n : Nat) (positive : 0 < n) :
    ∃ first others, Nat.toDigits 10 n = first :: others ∧ first ≠ '0' := by
  induction n using Nat.strongRecOn with
  | ind n ih =>
      by_cases short : n < 10
      · refine ⟨n.digitChar, [], Nat.toDigits_of_lt_base short, ?_⟩
        intro zero
        exact Nat.ne_of_gt positive (Nat.digitChar_eq_zero.mp zero)
      · obtain ⟨first, others, front, noZero⟩ := ih (n / 10) (by omega) (by omega)
        refine ⟨first, others ++ [(n % 10).digitChar], ?_, noZero⟩
        rw [Nat.toDigits_of_base_le (by omega) (Nat.le_of_not_lt short), front, List.cons_append]

variable (n : Nat) {rest : List Char}

theorem readWhole_toDigits (stops : Stops rest) :
    readWhole (Nat.toDigits 10 n ++ rest) = some (Nat.toDigits 10 n, rest) := by
  rcases Nat.eq_zero_or_pos n with rfl | positive
  · rw [Nat.toDigits_zero]
    rfl
  · obtain ⟨first, others, digits, noZero⟩ := toDigits_of_pos n positive
    rw [readWhole.eq_2, readDigits_append Nat.toDigits_ne_nil (isDigit_of_mem_toDigits n) stops]
    intro _ same
    rw [digits] at same
    exact noZero (List.cons.inj same).1

theorem readNumber_toDigits (stops : Stops rest) :
    readNumber (Nat.toDigits 10 n ++ rest) = some (Nat.toDigits 10 n, rest) := by
  obtain ⟨first, others, digits, leads⟩ := toDigits_cons n
  rw [readNumber.eq_2, readUnsigned_of_whole (readWhole_toDigits n stops) stops]
  intro _ same
  rw [digits] at same
  rw [(List.cons.inj same).1] at leads
  cases leads

theorem toString_toList : (toString n).toList = Nat.toDigits 10 n := by
  rw [Nat.toString_eq_ofList_toDigits, String.toList_ofList]

theorem word64?_ofNat (fits : n < UInt64.size) : (Value.ofNat n).word64? = some n := by
  have digits : (toString n).toList.all isDigit = true := by
    rw [toString_toList, List.all_eq_true]
    exact isDigit_of_mem_toDigits n
  have number : (toString n).toList.foldl (fun n c => 10 * n + (c.toNat - '0'.toNat)) 0 = n := by
    rw [toString_toList, ← Nat.ofDigitChars_eq_foldl]
    exact Nat.ofDigitChars_ten_toDigits
  simp only [Value.ofNat, Value.word64?, digits, number, if_true, if_pos fits]

end Numbers

end NamingLint.Json
