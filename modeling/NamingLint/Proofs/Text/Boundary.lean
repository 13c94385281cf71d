import NamingLint.Text.Bytes

/-! Cuts of a text in byte offsets, as splittings of its characters. -/

namespace NamingLint.Text

theorem byteLength_append (front back : List Char) :
    byteLength (front ++ back) = byteLength front + byteLength back := by
  induction front with
  | nil => simp [byteLength]
  | cons c front ih => rw [List.cons_append, byteLength, byteLength, ih, Nat.add_assoc]

theorem byteLength_eq_zero {text : List Char} (empty : byteLength text = 0) : text = [] := by
  cases text with
  | nil => rfl
  | cons c text =>
      have positive := c.utf8Size_pos
      rw [byteLength] at empty
      omega

theorem dropBytes?_cons (c : Char) (text : List Char) (n : Nat) :
    dropBytes? (c.utf8Size + n) (c :: text) = dropBytes? n text := by
  obtain ⟨size, isSize⟩ : ∃ size, c.utf8Size = size + 1 :=
    ⟨c.utf8Size - 1, by have := c.utf8Size_pos; omega⟩
  rw [isSize, show size + 1 + n = (size + n) + 1 by omega, dropBytes?, isSize, if_pos (by omega),
    show size + n + 1 - (size + 1) = n by omega]

theorem takeBytes?_cons (c : Char) (text : List Char) (n : Nat) :
    takeBytes? (c.utf8Size + n) (c :: text) = (takeBytes? n text).map (c :: ·) := by
  obtain ⟨size, isSize⟩ : ∃ size, c.utf8Size = size + 1 :=
    ⟨c.utf8Size - 1, by have := c.utf8Size_pos; omega⟩
  rw [isSize, show size + 1 + n = (size + n) + 1 by omega, takeBytes?, isSize, if_pos (by omega),
    show size + n + 1 - (size + 1) = n by omega]

theorem dropBytes?_eq_some_iff {n : Nat} {text rest : List Char} :
    dropBytes? n text = some rest ↔ ∃ front, text = front ++ rest ∧ byteLength front = n := by
  constructor
  · intro dropped
    fun_induction dropBytes? n text with
    | case1 text =>
        cases dropped
        exact ⟨[], rfl, rfl⟩
    | case2 => cases dropped
    | case3 n c text fits ih =>
        obtain ⟨front, rfl, length⟩ := ih dropped
        exact ⟨c :: front, rfl, by rw [byteLength, length]; omega⟩
    | case4 => cases dropped
  · rintro ⟨front, rfl, rfl⟩
    induction front with
    | nil => rw [byteLength, dropBytes?, List.nil_append]
    | cons c front ih => rw [List.cons_append, byteLength, dropBytes?_cons, ih]

theorem takeBytes?_eq_some_iff {n : Nat} {text front : List Char} :
    takeBytes? n text = some front ↔ ∃ rest, text = front ++ rest ∧ byteLength front = n := by
  constructor
  · intro taken
    fun_induction takeBytes? n text generalizing front with
    | case1 text =>
        cases taken
        exact ⟨text, rfl, rfl⟩
    | case2 => cases taken
    | case3 n c text fits ih =>
        obtain ⟨inner, found, rfl⟩ := Option.map_eq_some_iff.mp taken
        obtain ⟨rest, rfl, length⟩ := ih found
        exact ⟨rest, rfl, by rw [byteLength, length]; omega⟩
    | case4 => cases taken
  · rintro ⟨rest, rfl, rfl⟩
    induction front with
    | nil => rw [byteLength, takeBytes?]
    | cons c front ih => rw [List.cons_append, byteLength, takeBytes?_cons, ih, Option.map_some]

theorem slice?_eq_some_iff {offset width : Nat} {text inner : List Char} :
    slice? offset width text = some inner ↔
      ∃ front back, text = front ++ inner ++ back ∧ byteLength front = offset ∧
        byteLength inner = width := by
  simp only [slice?, Option.bind_eq_some_iff, dropBytes?_eq_some_iff, takeBytes?_eq_some_iff]
  constructor
  · rintro ⟨_, ⟨front, rfl, before⟩, back, rfl, within⟩
    exact ⟨front, back, by rw [List.append_assoc], before, within⟩
  · rintro ⟨front, back, rfl, before, within⟩
    exact ⟨inner ++ back, ⟨front, by rw [List.append_assoc], before⟩, back, rfl, within⟩

/-- A byte offset at which a character starts or the text ends. -/
def IsBoundary (text : List Char) (offset : Nat) : Prop := (dropBytes? offset text).isSome = true

instance (text : List Char) (offset : Nat) : Decidable (IsBoundary text offset) :=
  inferInstanceAs (Decidable (_ = true))

theorem isBoundary_iff {text : List Char} {offset : Nat} :
    IsBoundary text offset ↔ ∃ front, front <+: text ∧ byteLength front = offset := by
  simp only [IsBoundary, Option.isSome_iff_exists, dropBytes?_eq_some_iff]
  constructor
  · rintro ⟨rest, front, rfl, before⟩
    exact ⟨front, List.prefix_append front rest, before⟩
  · rintro ⟨front, ⟨rest, rfl⟩, before⟩
    exact ⟨rest, front, rfl, before⟩

theorem IsBoundary.le_byteLength {text : List Char} {offset : Nat} (bounds : IsBoundary text offset) :
    offset ≤ byteLength text := by
  obtain ⟨front, ⟨rest, rfl⟩, rfl⟩ := isBoundary_iff.mp bounds
  rw [byteLength_append]
  exact Nat.le_add_right _ _

theorem isBoundary_byteLength (text : List Char) : IsBoundary text (byteLength text) :=
  isBoundary_iff.mpr ⟨text, List.prefix_rfl, rfl⟩

theorem isBoundary_zero (text : List Char) : IsBoundary text 0 :=
  isBoundary_iff.mpr ⟨[], List.nil_prefix, rfl⟩

theorem prefix_of_byteLength_le {first second text : List Char} (left : first <+: text)
    (right : second <+: text) (shorter : byteLength first ≤ byteLength second) :
    first <+: second := by
  rcases List.prefix_or_prefix_of_prefix left right with within | ⟨rest, rfl⟩
  · exact within
  · rw [byteLength_append] at shorter
    have empty : rest = [] := byteLength_eq_zero (by omega)
    exact ⟨[], by rw [empty, List.append_nil, List.append_nil]⟩

theorem IsBoundary.slice? {text : List Char} {start stop : Nat} (first : IsBoundary text start)
    (last : IsBoundary text stop) (forward : start ≤ stop) :
    (slice? start (stop - start) text).isSome = true := by
  obtain ⟨front, within, rfl⟩ := isBoundary_iff.mp first
  obtain ⟨longer, ⟨back, rfl⟩, rfl⟩ := isBoundary_iff.mp last
  obtain ⟨inner, rfl⟩ := prefix_of_byteLength_le within (List.prefix_append longer back) forward
  apply Option.isSome_iff_exists.mpr
  refine ⟨inner, slice?_eq_some_iff.mpr ⟨front, back, rfl, rfl, ?_⟩⟩
  rw [byteLength_append, Nat.add_sub_cancel_left]

theorem slice?_isSome_iff {offset width : Nat} {text : List Char} :
    (slice? offset width text).isSome = true ↔
      IsBoundary text offset ∧ IsBoundary text (offset + width) := by
  constructor
  · intro cut
    obtain ⟨inner, cut⟩ := Option.isSome_iff_exists.mp cut
    obtain ⟨front, back, whole, before, within⟩ := slice?_eq_some_iff.mp cut
    rw [isBoundary_iff, isBoundary_iff]
    constructor
    · exact ⟨front, ⟨inner ++ back, by rw [whole, List.append_assoc]⟩, before⟩
    · refine ⟨front ++ inner, ⟨back, whole.symm⟩, ?_⟩
      rw [byteLength_append, before, within]
  · intro ends
    have cut := ends.1.slice? ends.2 (Nat.le_add_right offset width)
    rwa [Nat.add_sub_cancel_left] at cut

def hasByteEnds (text : List Char) : Bool :=
  text.head?.any (·.utf8Size == 1) && text.getLast?.any (·.utf8Size == 1)

/-- A cut whose ends are characters of one byte can be made one byte shorter at both of them. -/
theorem slice?_inside {offset width : Nat} {text inner : List Char}
    (cut : slice? offset width text = some inner) (ends : hasByteEnds inner = true)
    (long : 2 ≤ width) : (slice? (offset + 1) (width - 2) text).isSome = true := by
  obtain ⟨front, back, rfl, rfl, rfl⟩ := slice?_eq_some_iff.mp cut
  rw [hasByteEnds, Bool.and_eq_true] at ends
  cases inner with
  | nil => simp [byteLength] at long
  | cons first rest =>
      simp only [List.head?_cons, Option.any_some, beq_iff_eq] at ends
      rw [byteLength, ends.1] at long
      rcases List.eq_nil_or_concat rest with rfl | ⟨middle, last, rfl⟩
      · simp [byteLength] at long
      · have lastByte : last.utf8Size = 1 := by
          have atEnd := ends.2
          rw [List.concat_eq_append, ← List.cons_append, List.getLast?_append] at atEnd
          simpa using atEnd
        apply Option.isSome_iff_exists.mpr
        refine ⟨middle, slice?_eq_some_iff.mpr ⟨front ++ [first], last :: back, ?_, ?_, ?_⟩⟩
        · simp
        · simp [byteLength_append, byteLength, ends.1]
        · simp only [List.concat_eq_append, byteLength, byteLength_append, ends.1, lastByte]
          omega

end NamingLint.Text
