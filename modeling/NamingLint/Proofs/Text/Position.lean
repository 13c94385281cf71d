import Mathlib.Data.List.Induction
import Mathlib.Order.Bounds.Defs
import NamingLint.Proofs.Text.Boundary
import NamingLint.Text.Position

/-! Lines and columns, counted in the text in front of an offset. -/

namespace NamingLint.Text

theorem lastLine_concat (text : List Char) (c : Char) :
    lastLine (text ++ [c]) = if c = '\n' then [] else lastLine text ++ [c] := by
  by_cases ends : c = '\n' <;> simp [lastLine, ends]

theorem takeBytes?_append (front rest : List Char) :
    takeBytes? (byteLength front) (front ++ rest) = some front :=
  takeBytes?_eq_some_iff.mpr ⟨rest, rfl, rfl⟩

namespace Position

def next (p : Position) (c : Char) : Position :=
  if c = '\n' then ⟨p.line + 1, 1⟩ else ⟨p.line, p.column + 1⟩

theorem foldl_next_start (text : List Char) :
    text.foldl next start = ⟨text.count '\n' + 1, (lastLine text).length + 1⟩ := by
  induction text using List.reverseRecOn with
  | nil => rfl
  | append_singleton text c ih =>
      rw [List.foldl_append, List.foldl_cons, List.foldl_nil, ih, next, lastLine_concat,
        List.count_append]
      by_cases ends : c = '\n' <;> simp [ends]

/-- Stepping back finds a boundary, at the latest at the start, and no larger one is passed on the
way. -/
theorem stepBack?_floor (text : List Char) (offset : Nat) :
    ∃ floor, stepBack? text offset = some floor ∧
      IsGreatest {other | IsBoundary text other ∧ other ≤ offset} floor := by
  induction offset with
  | zero =>
      have bounds : (dropBytes? 0 text).isSome = true := isBoundary_zero text
      rw [stepBack?, if_pos bounds]
      exact ⟨0, rfl, ⟨bounds, Nat.le_refl 0⟩, fun other both => both.2⟩
  | succ offset ih =>
      rw [stepBack?]
      split
      · rename_i bounds
        exact ⟨offset + 1, rfl, ⟨bounds, Nat.le_refl _⟩, fun other both => both.2⟩
      · rename_i cuts
        obtain ⟨floor, found, ⟨bounds, upTo⟩, above⟩ := ih
        refine ⟨floor, found, ⟨bounds, Nat.le_succ_of_le upTo⟩, ?_⟩
        intro other both
        have differs : other ≠ offset + 1 := fun same => cuts (same ▸ both.1)
        have upToOther : other ≤ offset + 1 := both.2
        exact above ⟨both.1, by omega⟩

/-- An offset has the position behind the front of the text that ends at the boundary before it. -/
theorem ofOffset_floor (text : List Char) (offset : Nat) :
    ∃ front, front <+: text ∧ ofOffset offset text = front.foldl next start ∧
      stepBack? text (min offset (byteLength text)) = some (byteLength front) ∧
      IsGreatest {other | IsBoundary text other ∧ other ≤ min offset (byteLength text)}
        (byteLength front) := by
  obtain ⟨floor, found, greatest⟩ := stepBack?_floor text (min offset (byteLength text))
  obtain ⟨front, within, rfl⟩ := isBoundary_iff.mp greatest.1.1
  refine ⟨front, within, ?_, found, greatest⟩
  obtain ⟨rest, rfl⟩ := within
  rw [ofOffset, found, Option.getD_some, takeBytes?_append, Option.getD_some, foldl_next_start]

theorem ofOffset_of_within {front text : List Char} (within : front <+: text) :
    ofOffset (byteLength front) text = front.foldl next start := by
  obtain ⟨other, otherWithin, position, _, ⟨_, upTo⟩, above⟩ := ofOffset_floor text (byteLength front)
  have bounds : IsBoundary text (byteLength front) := isBoundary_iff.mpr ⟨front, within, rfl⟩
  have reached : byteLength front ≤ byteLength other :=
    above ⟨bounds, Nat.le_min.mpr ⟨Nat.le_refl _, bounds.le_byteLength⟩⟩
  have shorter : byteLength other ≤ byteLength front := Nat.le_trans upTo (Nat.min_le_left _ _)
  have same : front = other :=
    (prefix_of_byteLength_le within otherWithin reached).eq_of_length_le
      (prefix_of_byteLength_le otherWithin within shorter).length_le
  rw [position, same]

theorem ofOffset_append (front rest : List Char) :
    ofOffset (byteLength front) (front ++ rest) =
      ⟨front.count '\n' + 1, (lastLine front).length + 1⟩ := by
  rw [ofOffset_of_within (List.prefix_append front rest), foldl_next_start]

end Position

end NamingLint.Text
