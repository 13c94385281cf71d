import NamingLint.Proofs.Text.Position

/-! Columns that count bytes against columns that count characters.

The byte of a line feed stands in the form of no other character, so line feeds can be counted in bytes as
well as in characters. A character takes at least one byte, and exactly one if it is ASCII. -/

namespace NamingLint.Text

def IsAscii (c : Char) : Prop := c.toNat < 128

instance (c : Char) : Decidable (IsAscii c) := inferInstanceAs (Decidable (_ < _))

theorem utf8Size_eq_one_iff_isAscii {c : Char} : c.utf8Size = 1 ↔ IsAscii c := by
  have limit : (127 : UInt32).toNat = 127 := rfl
  rw [Char.utf8Size_eq_one_iff, UInt32.le_iff_toNat_le, limit]
  exact Nat.lt_succ_iff.symm

theorem length_le_byteLength (text : List Char) : text.length ≤ byteLength text := by
  induction text with
  | nil => exact Nat.le_refl 0
  | cons c text ih =>
      have positive := c.utf8Size_pos
      rw [List.length_cons, byteLength]
      omega

theorem length_eq_byteLength_iff {text : List Char} :
    text.length = byteLength text ↔ ∀ c ∈ text, IsAscii c := by
  induction text with
  | nil => simp [byteLength]
  | cons c text ih =>
      have positive := c.utf8Size_pos
      have rest := length_le_byteLength text
      rw [List.forall_mem_cons, ← ih, ← utf8Size_eq_one_iff_isAscii, List.length_cons, byteLength]
      omega

theorem length_bytes (text : List Char) : (bytes text).length = byteLength text := by
  induction text with
  | nil => rfl
  | cons c text ih =>
      rw [bytes, List.flatMap_cons, List.length_append, String.length_utf8EncodeChar, byteLength, ← ih,
        bytes]

theorem le_toNat_of_mem_utf8EncodeChar {c : Char} (wide : ¬ IsAscii c) {byte : UInt8}
    (member : byte ∈ String.utf8EncodeChar c) : 128 ≤ byte.toNat := by
  have large : ¬ c.val.toNat ≤ 127 := fun small => wide (Nat.lt_succ_of_le small)
  have remainder : ∀ n : Nat, (UInt8.ofNat n).toNat = n % 256 := fun _ => UInt8.toNat_ofNat'
  simp only [String.utf8EncodeChar, if_neg large] at member
  split at member
  · simp only [List.mem_cons, List.not_mem_nil, or_false] at member
    rcases member with rfl | rfl <;> rw [remainder] <;> omega
  · split at member
    · simp only [List.mem_cons, List.not_mem_nil, or_false] at member
      rcases member with rfl | rfl | rfl <;> rw [remainder] <;> omega
    · simp only [List.mem_cons, List.not_mem_nil, or_false] at member
      rcases member with rfl | rfl | rfl | rfl <;> rw [remainder] <;> omega

theorem bne_feed_of_mem_utf8EncodeChar {c : Char} (other : c ≠ '\n') :
    ∀ byte ∈ String.utf8EncodeChar c, (byte != 10) = true := by
  intro byte member
  rw [bne_iff_ne]
  intro feed
  by_cases ascii : IsAscii c
  · rw [String.utf8EncodeChar_eq_singleton (utf8Size_eq_one_iff_isAscii.mpr ascii),
      List.mem_singleton] at member
    have value : c.toNat % 256 = 10 := by
      have same := congrArg UInt8.toNat (member.symm.trans feed)
      rwa [UInt32.toNat_toUInt8] at same
    have small : c.toNat < 128 := ascii
    have isFeed : c.toNat = '\n'.toNat := by
      have ten : '\n'.toNat = 10 := rfl
      omega
    exact other (Char.toNat_inj.mp isFeed)
  · have high := le_toNat_of_mem_utf8EncodeChar ascii member
    rw [feed] at high
    exact absurd high (by decide)

theorem bytes_append (front back : List Char) : bytes (front ++ back) = bytes front ++ bytes back :=
  List.flatMap_append

theorem bytes_singleton (c : Char) : bytes [c] = String.utf8EncodeChar c :=
  List.flatMap_singleton ..

theorem take_bytes_append (front rest : List Char) :
    (bytes (front ++ rest)).take (byteLength front) = bytes front := by
  rw [bytes_append, ← length_bytes, List.take_left]

namespace Position

/-- The position behind some bytes: the line feeds among them, and the bytes behind the last of these. -/
def behindBytes (front : List UInt8) : Position :=
  ⟨front.count 10 + 1, (front.reverse.takeWhile (· != 10)).length + 1⟩

/-- The position behind one more character, where the column grows by its bytes. -/
def nextInBytes (p : Position) (c : Char) : Position :=
  if c = '\n' then ⟨p.line + 1, 1⟩ else ⟨p.line, p.column + c.utf8Size⟩

theorem behindBytes_append {more : List UInt8} (noFeed : ∀ byte ∈ more, (byte != 10) = true)
    (front : List UInt8) :
    behindBytes (front ++ more) =
      ⟨(behindBytes front).line, (behindBytes front).column + more.length⟩ := by
  have none : more.count 10 = 0 := by
    rw [List.count_eq_zero]
    intro member
    exact absurd (noFeed 10 member) (by decide)
  have passes : ∀ byte ∈ more.reverse, (byte != 10) = true := by
    intro byte member
    exact noFeed byte (List.mem_reverse.mp member)
  simp only [behindBytes, List.count_append, none, List.reverse_append,
    List.takeWhile_append_of_pos passes, List.length_append, List.length_reverse, Position.mk.injEq,
    Nat.add_zero, true_and]
  omega

theorem nextInBytes_behindBytes (front : List UInt8) (c : Char) :
    (behindBytes front).nextInBytes c = behindBytes (front ++ String.utf8EncodeChar c) := by
  rw [nextInBytes]
  split
  case isTrue ends =>
      have feed : String.utf8EncodeChar '\n' = [10] := by decide
      rw [ends, feed]
      simp [behindBytes]
  case isFalse other =>
      rw [behindBytes_append (bne_feed_of_mem_utf8EncodeChar other), String.length_utf8EncodeChar]

theorem foldl_nextInBytes_start (text : List Char) :
    text.foldl nextInBytes start = behindBytes (bytes text) := by
  induction text using List.reverseRecOn with
  | nil => rfl
  | append_singleton text c ih =>
      rw [List.foldl_append, List.foldl_cons, List.foldl_nil, ih, nextInBytes_behindBytes, bytes_append,
        bytes_singleton]

theorem advanceBytes_append (p : Position) (front rest : List Char) :
    p.advanceBytes (byteLength front) (front ++ rest) = front.foldl nextInBytes p := by
  induction front generalizing p with
  | nil =>
      cases rest with
      | nil => rfl
      | cons c rest =>
          have wide : ¬ c.utf8Size ≤ 0 := Nat.not_le.mpr c.utf8Size_pos
          rw [byteLength, List.nil_append, advanceBytes, if_neg wide, List.foldl_nil, Nat.add_zero]
  | cons c front ih =>
      have fits : c.utf8Size ≤ c.utf8Size + byteLength front := Nat.le_add_right _ _
      rw [byteLength, List.cons_append, advanceBytes, if_pos fits, Nat.add_sub_cancel_left, ih,
        List.foldl_cons, nextInBytes]

theorem ofOffsetInBytes_append (front rest : List Char) :
    ofOffsetInBytes (byteLength front) (front ++ rest) = behindBytes (bytes front) := by
  rw [ofOffsetInBytes, advanceBytes_append, foldl_nextInBytes_start]

theorem behindBytes_bytes (text : List Char) :
    behindBytes (bytes text) = ⟨text.count '\n' + 1, byteLength (lastLine text) + 1⟩ := by
  induction text using List.reverseRecOn with
  | nil => rfl
  | append_singleton text c ih =>
      rw [bytes_append, bytes_singleton, ← nextInBytes_behindBytes, ih, nextInBytes, lastLine_concat,
        List.count_append]
      by_cases ends : c = '\n'
      · simp [ends, byteLength]
      · simp [ends, byteLength_append, byteLength]
        omega

end Position

end NamingLint.Text
