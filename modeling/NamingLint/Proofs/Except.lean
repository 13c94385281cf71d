import Mathlib.Data.List.Forall2

/-! Computations that can fail: when a sequence of them gives a result, and which error it gives if not. -/

namespace NamingLint

variable {ε δ α β : Type}

theorem exists_ok_iff {first : Except ε α} :
    (∃ value, first = .ok value) ↔ ∀ error, first ≠ .error error := by
  cases first <;> simp

theorem eq_ok_unit_iff {first : Except ε Unit} : first = .ok () ↔ ∀ error, first ≠ .error error := by
  cases first <;> simp

theorem bind_eq_ok_iff {first : Except ε α} {next : α → Except ε β} {result : β} :
    first >>= next = .ok result ↔ ∃ value, first = .ok value ∧ next value = .ok result := by
  cases first with
  | error error => simp [bind, Except.bind]
  | ok value => simp [bind, Except.bind]

theorem bind_pure_eq_ok_iff {first : Except ε α} {value : α → β} {result : β} :
    (first >>= fun item => pure (value item)) = .ok result ↔
      ∃ item, first = .ok item ∧ result = value item := by
  rw [bind_eq_ok_iff]
  simp only [pure, Except.pure, Except.ok.injEq, @eq_comm _ result]

theorem bind_eq_error_iff {first : Except ε α} {next : α → Except ε β} {error : ε} :
    first >>= next = .error error ↔
      first = .error error ∨ ∃ value, first = .ok value ∧ next value = .error error := by
  cases first with
  | error error => simp [bind, Except.bind]
  | ok value => simp [bind, Except.bind]

theorem bind_eq_error_iff_left {first : Except ε α} {next : α → Except ε β} {error : ε}
    (passes : ∀ value, first = .ok value → ∃ result, next value = .ok result) :
    first >>= next = .error error ↔ first = .error error := by
  rw [bind_eq_error_iff]
  apply or_iff_left
  intro failed
  obtain ⟨value, known, failed⟩ := failed
  obtain ⟨result, passed⟩ := passes value known
  rw [passed] at failed
  cases failed

theorem mapError_eq_ok_iff {first : Except ε α} {relabel : ε → δ} {value : α} :
    first.mapError relabel = .ok value ↔ first = .ok value := by
  cases first <;> simp [Except.mapError]

theorem mapError_eq_error_iff {first : Except ε α} {relabel : ε → δ} {error : δ} :
    first.mapError relabel = .error error ↔ ∃ cause, first = .error cause ∧ error = relabel cause := by
  cases first <;> simp [Except.mapError, eq_comm]

theorem map_eq_ok_iff {first : Except ε α} {f : α → β} {result : β} :
    first.map f = .ok result ↔ ∃ value, first = .ok value ∧ result = f value := by
  cases first <;> simp [Except.map, eq_comm]

theorem map_eq_error_iff {first : Except ε α} {f : α → β} {error : ε} :
    first.map f = .error error ↔ first = .error error := by
  cases first <;> simp [Except.map]

theorem forM_eq_ok_iff {items : List α} {test : α → Except ε Unit} :
    forM items test = .ok () ↔ ∀ item ∈ items, test item = .ok () := by
  induction items with
  | nil => simp [pure, Except.pure]
  | cons item items ih =>
      rw [List.forM_cons, bind_eq_ok_iff, List.forall_mem_cons, ← ih]
      constructor
      · rintro ⟨⟨⟩, first, rest⟩
        exact ⟨first, rest⟩
      · rintro ⟨first, rest⟩
        exact ⟨⟨⟩, first, rest⟩

theorem mapM_eq_ok_iff {items : List α} {action : α → Except ε β} {values : List β} :
    items.mapM action = .ok values ↔
      List.Forall₂ (fun item value => action item = .ok value) items values := by
  induction items generalizing values with
  | nil =>
      rw [List.mapM_nil, List.forall₂_nil_left_iff]
      exact ⟨fun read => by cases read; rfl, fun same => by rw [same]; rfl⟩
  | cons item items ih =>
      rw [List.mapM_cons, bind_eq_ok_iff]
      constructor
      · rintro ⟨value, first, read⟩
        obtain ⟨rest, later, read⟩ := bind_eq_ok_iff.mp read
        cases read
        exact .cons first (ih.mp later)
      · intro pairs
        cases pairs with
        | cons first later => exact ⟨_, first, by rw [ih.mpr later]; rfl⟩

theorem exists_item_of_forall₂ {related : α → β → Prop} {items : List α} {values : List β}
    (pairs : List.Forall₂ related items values) :
    ∀ value ∈ values, ∃ item ∈ items, related item value := by
  induction pairs with
  | nil => simp
  | @cons item value items values first later ih =>
      intro other member
      rcases List.mem_cons.mp member with same | inside
      · exact ⟨item, List.mem_cons_self, same ▸ first⟩
      · obtain ⟨found, listed, holds⟩ := ih other inside
        exact ⟨found, List.mem_cons_of_mem item listed, holds⟩

theorem exists_value_of_forall₂ {related : α → β → Prop} {items : List α} {values : List β}
    (pairs : List.Forall₂ related items values) :
    ∀ item ∈ items, ∃ value ∈ values, related item value :=
  exists_item_of_forall₂ pairs.flip

theorem mapM_ok_of_forall {items : List α} {action : α → Except ε β}
    (each : ∀ item ∈ items, ∃ value, action item = .ok value) :
    ∃ values, items.mapM action = .ok values := by
  induction items with
  | nil => exact ⟨[], rfl⟩
  | cons item items ih =>
      obtain ⟨value, first⟩ := each item List.mem_cons_self
      obtain ⟨values, rest⟩ := ih fun other member => each other (List.mem_cons_of_mem item member)
      exact ⟨value :: values, mapM_eq_ok_iff.mpr (.cons first (mapM_eq_ok_iff.mp rest))⟩

/-- A first failure is at the head of a list, or the head passes and it is further on. -/
theorem exists_first_cons_iff {passes fails : α → Prop} {head : α} {tail : List α} :
    (∃ before item after, head :: tail = before ++ item :: after ∧
      (∀ other ∈ before, passes other) ∧ fails item) ↔
    fails head ∨ passes head ∧ ∃ before item after, tail = before ++ item :: after ∧
      (∀ other ∈ before, passes other) ∧ fails item := by
  constructor
  · intro first
    obtain ⟨before, item, after, split, passed, failed⟩ := first
    cases before with
    | nil =>
        rw [List.nil_append, List.cons.injEq] at split
        exact Or.inl (split.1 ▸ failed)
    | cons other before =>
        rw [List.cons_append, List.cons.injEq] at split
        right
        refine ⟨split.1 ▸ passed other List.mem_cons_self, before, item, after, split.2, ?_, failed⟩
        intro next member
        exact passed next (List.mem_cons_of_mem other member)
  · intro first
    rcases first with failed | ⟨passed, before, item, after, split, earlier, failed⟩
    · exact ⟨[], head, tail, rfl, by simp, failed⟩
    · refine ⟨head :: before, item, after, by rw [split, List.cons_append], ?_, failed⟩
      intro other member
      rcases List.mem_cons.mp member with same | inside
      · exact same ▸ passed
      · exact earlier other inside

theorem exists_first_of_mem {fails : α → Prop} {items : List α} (found : ∃ item ∈ items, fails item) :
    ∃ before item after, items = before ++ item :: after ∧
      (∀ other ∈ before, ¬ fails other) ∧ fails item := by
  induction items with
  | nil => simp at found
  | cons head tail ih =>
      rw [exists_first_cons_iff]
      by_cases atHead : fails head
      · exact Or.inl atHead
      · have later : ∃ item ∈ tail, fails item := by simpa [atHead] using found
        exact Or.inr ⟨atHead, ih later⟩

theorem exists_first_congr {items : List α} {passes passes' fails fails' : α → Prop}
    (samePasses : ∀ item ∈ items, (passes item ↔ passes' item))
    (sameFails : ∀ item ∈ items, (fails item ↔ fails' item)) :
    (∃ before item after, items = before ++ item :: after ∧
      (∀ other ∈ before, passes other) ∧ fails item) ↔
    ∃ before item after, items = before ++ item :: after ∧
      (∀ other ∈ before, passes' other) ∧ fails' item := by
  induction items with
  | nil => simp
  | cons head tail ih =>
      have rest := ih (fun item member => samePasses item (List.mem_cons_of_mem head member))
        (fun item member => sameFails item (List.mem_cons_of_mem head member))
      rw [exists_first_cons_iff, exists_first_cons_iff, rest, samePasses head List.mem_cons_self,
        sameFails head List.mem_cons_self]

theorem mapM_eq_error_iff {items : List α} {action : α → Except ε β} {error : ε} :
    items.mapM action = .error error ↔
      ∃ before item after, items = before ++ item :: after ∧
        (∀ other ∈ before, ∃ value, action other = .ok value) ∧ action item = .error error := by
  induction items with
  | nil => simp [pure, Except.pure]
  | cons head tail ih =>
      rw [List.mapM_cons, bind_eq_error_iff, exists_first_cons_iff, ← ih]
      constructor
      · intro failed
        rcases failed with atHead | ⟨value, first, failed⟩
        · exact Or.inl atHead
        · rcases bind_eq_error_iff.mp failed with later | ⟨values, rest, impossible⟩
          · exact Or.inr ⟨⟨value, first⟩, later⟩
          · cases impossible
      · intro failed
        rcases failed with atHead | ⟨⟨value, first⟩, later⟩
        · exact Or.inl atHead
        · exact Or.inr ⟨value, first, bind_eq_error_iff.mpr (Or.inl later)⟩

theorem exists_foldlM_iff {step : β → α → Except ε β} {passes : α → Prop}
    (each : ∀ state item, (∃ next, step state item = .ok next) ↔ passes item) {items : List α}
    {state : β} : (∃ result, items.foldlM step state = .ok result) ↔ ∀ item ∈ items, passes item := by
  induction items generalizing state with
  | nil => simp [pure, Except.pure]
  | cons item items ih =>
      simp only [List.foldlM_cons, bind_eq_ok_iff, List.forall_mem_cons]
      constructor
      · intro passed
        obtain ⟨result, next, first, rest⟩ := passed
        exact ⟨(each state item).mp ⟨next, first⟩, ih.mp ⟨result, rest⟩⟩
      · intro passed
        obtain ⟨next, first⟩ := (each state item).mpr passed.1
        obtain ⟨result, rest⟩ := @ih next |>.mpr passed.2
        exact ⟨result, next, first, rest⟩

theorem mapM_congr {items : List α} {first second : α → Except ε β}
    (same : ∀ item ∈ items, first item = second item) : items.mapM first = items.mapM second := by
  induction items with
  | nil => rfl
  | cons item items ih =>
      have rest := ih fun other member => same other (List.mem_cons_of_mem item member)
      rw [List.mapM_cons, List.mapM_cons, same item List.mem_cons_self, rest]

theorem foldlM_filter_of_skip {step : β → α → Except ε β} {keep : α → Bool}
    (skips : ∀ state item, keep item = false → step state item = .ok state) (items : List α)
    (state : β) : (items.filter keep).foldlM step state = items.foldlM step state := by
  rw [List.foldlM_filter]
  congr
  funext state item
  cases kept : keep item with
  | true => rfl
  | false => exact (skips state item kept).symm

/-- Folds over lists that look the same give the same result if items that look the same do. -/
theorem foldlM_eq_of_view {γ ω : Type} {items : List α} {others : List β} {view : α → ω} {look : β → ω}
    {first : γ → α → Except ε γ} {second : γ → β → Except ε γ} (same : items.map view = others.map look)
    (alike : ∀ item ∈ items, ∀ other ∈ others, view item = look other →
      ∀ state, first state item = second state other) (state : γ) :
    items.foldlM first state = others.foldlM second state := by
  induction items generalizing others state with
  | nil =>
      cases others with
      | nil => rfl
      | cons other others => cases same
  | cons item items ih =>
      cases others with
      | nil => cases same
      | cons other others =>
          rw [List.map_cons, List.map_cons, List.cons.injEq] at same
          have rest := ih same.2 fun x isItem y isOther =>
            alike x (List.mem_cons_of_mem item isItem) y (List.mem_cons_of_mem other isOther)
          rw [List.foldlM_cons, List.foldlM_cons,
            alike item List.mem_cons_self other List.mem_cons_self same.1]
          congr 1
          funext next
          exact rest next

theorem forM_congr {items : List α} {first second : α → Except ε Unit}
    (same : ∀ item ∈ items, first item = second item) : forM items first = forM items second := by
  induction items with
  | nil => rfl
  | cons item items ih =>
      have rest := ih fun other member => same other (List.mem_cons_of_mem item member)
      rw [List.forM_cons, List.forM_cons, same item List.mem_cons_self, rest]

theorem forM_eq_error_iff {items : List α} {test : α → Except ε Unit} {error : ε} :
    forM items test = .error error ↔
      ∃ before item after, items = before ++ item :: after ∧
        (∀ other ∈ before, test other = .ok ()) ∧ test item = .error error := by
  induction items with
  | nil => simp [pure, Except.pure]
  | cons head tail ih =>
      rw [List.forM_cons, bind_eq_error_iff, exists_first_cons_iff, ← ih]
      constructor
      · intro failed
        rcases failed with atHead | ⟨⟨⟩, passed, later⟩
        · exact Or.inl atHead
        · exact Or.inr ⟨passed, later⟩
      · intro failed
        rcases failed with atHead | ⟨passed, later⟩
        · exact Or.inl atHead
        · exact Or.inr ⟨⟨⟩, passed, later⟩

end NamingLint
