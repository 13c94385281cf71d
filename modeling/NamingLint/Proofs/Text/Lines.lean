import Mathlib.Data.Prod.Lex
import Mathlib.Data.Set.Function
import Mathlib.Order.Bounds.Defs
import NamingLint.Proofs.Text.Position

/-! Lines and columns against byte offsets.

The boundaries of a text and the positions in its lines are two ways to name one thing, a front of the
text: the front ends at the boundary, and its line feeds and its last line give the position. Both
directions of the correspondence go through that front. -/

namespace NamingLint.Text

section Pieces

variable {α : Type} {separator : α}

theorem intercalate_append (pieces : List (List α)) (last head : List α) (rest : List (List α)) :
    [separator].intercalate (pieces ++ [last]) ++ [separator].intercalate (head :: rest) =
      [separator].intercalate (pieces ++ (last ++ head) :: rest) := by
  induction pieces with
  | nil =>
      cases rest with
      | nil => simp
      | cons next rest => simp
  | cons piece pieces ih =>
      have more (ends : List (List α)) (any : ends ≠ []) : pieces ++ ends ≠ [] :=
        List.append_ne_nil_of_right_ne_nil pieces any
      rw [List.cons_append, List.cons_append,
        List.intercalate_cons_of_ne_nil (more _ (List.cons_ne_nil _ _)),
        List.intercalate_cons_of_ne_nil (more _ (List.cons_ne_nil _ _)), ← ih]
      simp only [List.append_assoc]

theorem intercalate_separated {front back : List (List α)} (some : front ≠ []) (more : back ≠ []) :
    [separator].intercalate (front ++ back) =
      [separator].intercalate front ++ separator :: [separator].intercalate back := by
  have behind : separator :: [separator].intercalate back = [separator].intercalate ([] :: back) := by
    rw [List.intercalate_cons_of_ne_nil more]
    rfl
  rw [behind, ← List.dropLast_concat_getLast some, intercalate_append, List.append_nil,
    List.append_assoc, List.singleton_append]

variable [DecidableEq α]

theorem not_mem_of_mem_splitOn {text piece : List α} (member : piece ∈ text.splitOn separator) :
    separator ∉ piece := by
  induction text generalizing piece with
  | nil =>
      rw [List.splitOn_nil, List.mem_singleton] at member
      simp [member]
  | cons c text ih =>
      rw [List.splitOn_cons_eq_if_modifyHead] at member
      split at member
      · rcases List.mem_cons.mp member with rfl | later
        · exact List.not_mem_nil
        · exact ih later
      · rename_i other
        obtain ⟨first, pieces, split⟩ :=
          List.exists_cons_of_ne_nil (List.splitOn_ne_nil separator text)
        rw [split] at ih member
        rcases List.mem_cons.mp member with rfl | later
        · intro inside
          rcases List.mem_cons.mp inside with rfl | inside
          · simp at other
          · exact ih List.mem_cons_self inside
        · exact ih (List.mem_cons_of_mem _ later)

theorem splitOn_append {front back last head : List α} {pieces rest : List (List α)}
    (before : front.splitOn separator = pieces ++ [last])
    (behind : back.splitOn separator = head :: rest) :
    (front ++ back).splitOn separator = pieces ++ (last ++ head) :: rest := by
  have whole : front ++ back = [separator].intercalate (pieces ++ (last ++ head) :: rest) := by
    rw [← intercalate_append, ← before, ← behind, List.intercalate_splitOn, List.intercalate_splitOn]
  have cleanFront : ∀ piece ∈ pieces ++ [last], separator ∉ piece := by
    intro piece member
    exact not_mem_of_mem_splitOn (before ▸ member)
  have cleanBack : ∀ piece ∈ head :: rest, separator ∉ piece := by
    intro piece member
    exact not_mem_of_mem_splitOn (behind ▸ member)
  rw [whole]
  apply List.splitOn_intercalate separator _ (by simp)
  intro piece member
  rcases List.mem_append.mp member with early | late
  · exact cleanFront piece (List.mem_append_left _ early)
  rcases List.mem_cons.mp late with rfl | late
  · rw [List.mem_append, not_or]
    exact ⟨cleanFront last (by simp), cleanBack head (by simp)⟩
  · exact cleanBack piece (List.mem_cons_of_mem _ late)

end Pieces

theorem splitOn_lastLine (text : List Char) :
    ∃ pieces, text.splitOn '\n' = pieces ++ [lastLine text] ∧ pieces.length = text.count '\n' := by
  induction text using List.reverseRecOn with
  | nil => exact ⟨[], rfl, rfl⟩
  | append_singleton text c ih =>
      obtain ⟨pieces, split, count⟩ := ih
      rw [lastLine_concat, List.count_append]
      by_cases ends : c = '\n'
      · refine ⟨pieces ++ [lastLine text], ?_, by simp [ends, count]⟩
        have single : [c].splitOn '\n' = [[], []] := by rw [ends]; rfl
        rw [splitOn_append split single, if_pos ends, List.append_nil, List.append_assoc]
        rfl
      · refine ⟨pieces, ?_, by simp [ends, count]⟩
        have single : [c].splitOn '\n' = [[c]] := List.splitOn_eq_singleton (by simp [Ne.symm ends])
        rw [splitOn_append split single, if_neg ends]

def lineAt (text : List Char) (line : Nat) : List Char := (text.splitOn '\n').getD (line - 1) []

theorem splitOn_lineAt {text : List Char} {line : Nat} (fromOne : 1 ≤ line)
    (upToLast : line ≤ text.count '\n' + 1) :
    text.splitOn '\n' = (text.splitOn '\n').take (line - 1) ++
      lineAt text line :: (text.splitOn '\n').drop line ∧
      line - 1 < (text.splitOn '\n').length := by
  obtain ⟨pieces, split, count⟩ := splitOn_lastLine text
  have known : line - 1 < (text.splitOn '\n').length := by
    rw [split, List.length_append, count, List.length_singleton]
    omega
  refine ⟨?_, known⟩
  have next : line - 1 + 1 = line := by omega
  rw [lineAt, List.getD_eq_getElem?_getD, List.getElem?_eq_getElem known, Option.getD_some]
  nth_rewrite 1 [← List.take_append_drop (line - 1) (text.splitOn '\n')]
  rw [List.drop_eq_getElem_cons known, next]

namespace Position

/-- The text has such a line, and the column is that of one of its characters or of its end. -/
def IsIn (text : List Char) (p : Position) : Prop :=
  (1 ≤ p.line ∧ p.line ≤ text.count '\n' + 1) ∧
    1 ≤ p.column ∧ p.column ≤ (lineAt text p.line).length + 1

instance (text : List Char) (p : Position) : Decidable (p.IsIn text) :=
  inferInstanceAs (Decidable ((_ ∧ _) ∧ _ ∧ _))

/-- The text in front of a position, put together from its lines. -/
def front (text : List Char) (p : Position) : List Char :=
  ['\n'].intercalate
    ((text.splitOn '\n').take (p.line - 1) ++ [(lineAt text p.line).take (p.column - 1)])

def byteOffset (text : List Char) (p : Position) : Nat := byteLength (p.front text)

def key (p : Position) : ℕ ×ₗ ℕ := toLex (p.line, p.column)

theorem front_of_within {front text : List Char} (within : front <+: text) :
    (front.foldl next start).IsIn text ∧ (front.foldl next start).front text = front := by
  obtain ⟨back, rfl⟩ := within
  obtain ⟨pieces, split, count⟩ := splitOn_lastLine front
  obtain ⟨head, rest, behind⟩ := List.exists_cons_of_ne_nil (List.splitOn_ne_nil '\n' back)
  have whole := splitOn_append split behind
  have line : lineAt (front ++ back) (front.count '\n' + 1) = lastLine front ++ head := by
    simp [lineAt, whole, ← count]
  rw [foldl_next_start, IsIn, Position.front, line, whole]
  constructor
  · simp
  · simp only [Nat.add_sub_cancel, ← count, List.take_left]
    rw [← split, List.intercalate_splitOn]

theorem IsIn.front_leads {text : List Char} {p : Position} (inside : p.IsIn text) :
    p.front text <+: text ∧ (p.front text).foldl next start = p := by
  obtain ⟨⟨fromOne, upToLast⟩, fromStart, upToEnd⟩ := inside
  obtain ⟨cut, known⟩ := splitOn_lineAt fromOne upToLast
  constructor
  · refine ⟨['\n'].intercalate ((lineAt text p.line).drop (p.column - 1) ::
      (text.splitOn '\n').drop p.line), ?_⟩
    rw [front, intercalate_append, List.take_append_drop, ← cut, List.intercalate_splitOn]
  · have clean : ∀ piece ∈ (text.splitOn '\n').take (p.line - 1) ++
        [(lineAt text p.line).take (p.column - 1)], '\n' ∉ piece := by
      intro piece member
      rcases List.mem_append.mp member with early | last
      · exact not_mem_of_mem_splitOn (List.mem_of_mem_take early)
      · rw [List.mem_singleton.mp last]
        intro feed
        have member : lineAt text p.line ∈ text.splitOn '\n' := by
          rw [cut]
          simp
        exact not_mem_of_mem_splitOn member (List.mem_of_mem_take feed)
    have pieces := List.splitOn_intercalate '\n' clean
      (List.append_ne_nil_of_right_ne_nil _ (List.cons_ne_nil _ []))
    obtain ⟨before, again, feeds⟩ := splitOn_lastLine (p.front text)
    rw [front, pieces, ← front] at again
    obtain ⟨sameBefore, sameLast⟩ := List.append_inj' again rfl
    have lines : (p.front text).count '\n' = p.line - 1 := by
      rw [← feeds, ← sameBefore, List.length_take]
      omega
    have columns : (lastLine (p.front text)).length = p.column - 1 := by
      rw [← List.singleton_inj.mp sameLast, List.length_take]
      omega
    rw [foldl_next_start, lines, columns, Nat.sub_add_cancel fromOne, Nat.sub_add_cancel fromStart]

theorem key_lt_next (p : Position) (c : Char) : p.key < (p.next c).key := by
  rw [key, key, Prod.Lex.toLex_lt_toLex, next]
  split
  · left
    exact Nat.lt_succ_self _
  · right
    exact ⟨rfl, Nat.lt_succ_self _⟩

theorem key_le_foldl (p : Position) (text : List Char) : p.key ≤ (text.foldl next p).key := by
  induction text generalizing p with
  | nil => exact le_rfl
  | cons c text ih => exact (key_lt_next p c).le.trans (ih (p.next c))

theorem ofOffset_strictMonoOn (text : List Char) :
    StrictMonoOn (fun offset => (ofOffset offset text).key) {offset | IsBoundary text offset} := by
  intro first isFirst second isSecond less
  obtain ⟨short, shortWithin, rfl⟩ := isBoundary_iff.mp isFirst
  obtain ⟨long, longWithin, rfl⟩ := isBoundary_iff.mp isSecond
  obtain ⟨more, rfl⟩ := prefix_of_byteLength_le shortWithin longWithin less.le
  show (ofOffset _ text).key < (ofOffset _ text).key
  rw [ofOffset_of_within shortWithin, ofOffset_of_within longWithin, List.foldl_append]
  cases more with
  | nil => simp at less
  | cons c more => exact (key_lt_next _ c).trans_le (key_le_foldl _ more)

theorem ofOffset_bijOn (text : List Char) :
    Set.BijOn (fun offset => ofOffset offset text) {offset | IsBoundary text offset}
      {p | p.IsIn text} := by
  refine ⟨?_, ?_, ?_⟩
  · intro offset bounds
    obtain ⟨front, within, rfl⟩ := isBoundary_iff.mp bounds
    show (ofOffset _ text).IsIn text
    rw [ofOffset_of_within within]
    exact (front_of_within within).1
  · intro first isFirst second isSecond same
    exact (ofOffset_strictMonoOn text).injOn isFirst isSecond (congrArg key same)
  · intro p inside
    obtain ⟨within, leads⟩ := IsIn.front_leads inside
    refine ⟨byteLength (p.front text), isBoundary_iff.mpr ⟨_, within, rfl⟩, ?_⟩
    show ofOffset _ text = p
    rw [ofOffset_of_within within, leads]

theorem byteOffset_ofOffset {text : List Char} {offset : Nat} (bounds : IsBoundary text offset) :
    (ofOffset offset text).byteOffset text = offset := by
  obtain ⟨front, within, rfl⟩ := isBoundary_iff.mp bounds
  rw [ofOffset_of_within within, byteOffset, (front_of_within within).2]

/-- On the boundaries of a content, positions grow with the offset, take every line and column that
the content has, and give the offset back. Any other offset, also one behind the end, has the position
of the boundary in front of it, which stepping back from the clamped offset always finds. -/
theorem ofOffset_numbers_boundaries (content : String) :
    StrictMonoOn (fun offset => (ofOffset offset content.toList).key)
      {offset | IsBoundary content.toList offset} ∧
    Set.BijOn (fun offset => ofOffset offset content.toList)
      {offset | IsBoundary content.toList offset} {p | p.IsIn content.toList} ∧
    (∀ offset, IsBoundary content.toList offset →
      (ofOffset offset content.toList).byteOffset content.toList = offset) ∧
    ∀ offset, ∃ floor,
      stepBack? content.toList (min offset (byteLength content.toList)) = some floor ∧
      IsGreatest {other | IsBoundary content.toList other ∧
        other ≤ min offset (byteLength content.toList)} floor ∧
      ofOffset offset content.toList = ofOffset floor content.toList := by
  refine ⟨ofOffset_strictMonoOn _, ofOffset_bijOn _, fun _ => byteOffset_ofOffset, ?_⟩
  intro offset
  obtain ⟨front, within, position, found, greatest⟩ := ofOffset_floor content.toList offset
  refine ⟨byteLength front, found, greatest, ?_⟩
  rw [position, ofOffset_of_within within]

theorem accentedContent_boundaries :
    IsBoundary "é\n\nb".toList 3 ∧ ofOffset 3 "é\n\nb".toList = ⟨2, 1⟩ ∧
      (ofOffset 3 "é\n\nb".toList).byteOffset "é\n\nb".toList = 3 ∧
      ∃ floor, stepBack? "é\n\nb".toList (min 9 (byteLength "é\n\nb".toList)) = some floor ∧
        ofOffset 9 "é\n\nb".toList = ofOffset floor "é\n\nb".toList := by
  have bounds : IsBoundary "é\n\nb".toList 3 := by decide
  obtain ⟨_, _, rebuilt, others⟩ := ofOffset_numbers_boundaries "é\n\nb"
  obtain ⟨floor, stepped, _, same⟩ := others 9
  exact ⟨bounds, by decide, rebuilt 3 bounds, floor, stepped, same⟩

end Position

end NamingLint.Text
