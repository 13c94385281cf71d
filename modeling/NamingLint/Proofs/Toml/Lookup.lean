import NamingLint.Proofs.Except
import NamingLint.Proofs.Toml.DistinctKeys

/-! Looking values up by name.

Since no table has two entries of one name, a fold over the entries of a table comes to one lookup for
each setting that it keeps: one that is absent has its default, whatever else is there. -/

namespace NamingLint.Toml

def entryOf? (entries : List Entry) (name : String) : Option Entry :=
  entries.find? fun entry => entry.1.name == name

namespace Value

def get? (name : String) : Value → Option Value
  | .table entries => (entryOf? entries name).map fun entry => entry.2.2
  | _ => none

def isTable : Value → Bool
  | .table _ => true
  | _ => false

def holdsTables : Value → Bool
  | .table entries => entries.all fun entry => entry.2.2.isTable
  | _ => false

def at? (value : Value) (path : List String) : Option Value :=
  path.foldlM (fun found name => found.get? name) value

@[simp] theorem at?_nil (value : Value) : value.at? [] = some value := rfl

@[simp] theorem at?_cons (value : Value) (name : String) (path : List String) :
    value.at? (name :: path) = (value.get? name).bind fun found => found.at? path :=
  List.foldlM_cons

theorem isTable_iff {value : Value} : value.isTable = true ↔ ∃ entries, value = .table entries := by
  cases value <;> simp [isTable]

theorem holdsTables_iff {value : Value} : value.holdsTables = true ↔
    ∃ entries, value = .table entries ∧ ∀ entry ∈ entries, ∃ inner, entry.2.2 = .table inner := by
  cases value with
  | table entries =>
      simp only [holdsTables, List.all_eq_true, isTable_iff, Value.table.injEq, exists_eq_left']
  | _ => simp [holdsTables]

theorem at?_singleton (value : Value) (name : String) : value.at? [name] = value.get? name := by
  simp

end Value

theorem entryOf?_cons (entry : Entry) (entries : List Entry) (name : String) :
    entryOf? (entry :: entries) name =
      if entry.1.name = name then some entry else entryOf? entries name := by
  simp only [entryOf?, List.find?_cons]
  split <;> simp_all

theorem entryOf?_eq_none {entries : List Entry} {name : String} (absent : name ∉ names entries) :
    entryOf? entries name = none := by
  refine List.find?_eq_none.mpr fun entry member same => absent ?_
  exact List.mem_map.mpr ⟨entry, member, beq_iff_eq.mp same⟩

theorem entryOf?_eq_some_iff {entries : List Entry} (keys : (names entries).Nodup) {name : String}
    {entry : Entry} : entryOf? entries name = some entry ↔ entry ∈ entries ∧ entry.1.name = name := by
  constructor
  · intro found
    have named := List.find?_some found
    exact ⟨List.mem_of_find?_eq_some found, beq_iff_eq.mp named⟩
  · intro inside
    obtain ⟨member, same⟩ := inside
    induction entries with
    | nil => cases member
    | cons first entries ih =>
        obtain ⟨fresh, keys⟩ := List.nodup_cons.mp keys
        rw [entryOf?_cons]
        rcases List.mem_cons.mp member with here | later
        · rw [← here, if_pos same]
        · have other : first.1.name ≠ name := by
            intro clash
            exact fresh (List.mem_map.mpr ⟨entry, later, same.trans clash.symm⟩)
          rw [if_neg other]
          exact ih keys later

theorem get?_table_eq_some_iff {entries : List Entry} (keys : (names entries).Nodup) {name : String}
    {value : Value} : (Value.table entries).get? name = some value ↔
      ∃ entry ∈ entries, entry.1.name = name ∧ entry.2.2 = value := by
  simp only [Value.get?, Option.map_eq_some_iff, entryOf?_eq_some_iff keys, and_assoc]

namespace Value

/-- A value stands at the end of a path of names, through whichever entries. -/
def Has (value : Value) : List String → Value → Prop
  | [], found => value = found
  | name :: path, found =>
    ∃ entries, value = .table entries ∧ ∃ entry ∈ entries, entry.1.name = name ∧ entry.2.2.Has path found

theorem Distinct.keys {entries : List Entry} (distinct : (Value.table entries).Distinct) :
    (names entries).Nodup := by
  cases distinct with
  | table keys each => exact keys

theorem Distinct.entry {entries : List Entry} (distinct : (Value.table entries).Distinct)
    {entry : Entry} (member : entry ∈ entries) : entry.2.2.Distinct := by
  cases distinct with
  | table keys each => exact each entry member

theorem Distinct.get?_eq_some_iff {value found : Value} (distinct : value.Distinct)
    {name : String} : value.get? name = some found ↔
      ∃ entries, value = .table entries ∧ ∃ entry ∈ entries, entry.1.name = name ∧ entry.2.2 = found := by
  cases distinct with
  | table keys each =>
      simp only [Value.table.injEq, exists_eq_left']
      exact get?_table_eq_some_iff keys
  | _ => simp [Value.get?]

theorem Distinct.at?_eq_some_iff {value found : Value} (distinct : value.Distinct)
    {path : List String} : value.at? path = some found ↔ value.Has path found := by
  induction path generalizing value with
  | nil => simp [Has]
  | cons name path ih =>
      rw [at?_cons, Option.bind_eq_some_iff, Has]
      simp only [distinct.get?_eq_some_iff]
      constructor
      · intro ⟨middle, ⟨entries, whole, entry, member, named, same⟩, rest⟩
        subst whole same
        exact ⟨entries, rfl, entry, member, named, (ih (distinct.entry member)).mp rest⟩
      · intro ⟨entries, whole, entry, member, named, rest⟩
        subst whole
        exact ⟨entry.2.2, ⟨entries, rfl, entry, member, named, rfl⟩,
          (ih (distinct.entry member)).mpr rest⟩

end Value

/-- What a setting has come to: its default where nothing is said, or else what is said. -/
inductive Setting {α β : Type} (means : α → β → Prop) (default : α) : Option β → α → Prop where
  | absent : Setting means default none default
  | given {said : β} {chosen : α} (holds : means chosen said) : Setting means default (some said) chosen

section

variable {α β : Type} {means : α → β → Prop} {default chosen : α}

@[simp] theorem setting_none_iff : Setting means default none chosen ↔ chosen = default := by
  constructor
  · intro setting
    cases setting
    rfl
  · intro same
    rw [same]
    exact .absent

@[simp] theorem setting_some_iff {said : β} :
    Setting means default (some said) chosen ↔ means chosen said := by
  constructor
  · intro setting
    cases setting with
    | given holds => exact holds
  · exact .given

end

section

variable {α : Type} {means : α → Entry → Prop} {name : String}

def OfValue (means : α → Value → Prop) (chosen : α) (entry : Entry) : Prop := means chosen entry.2.2

theorem setting_get?_iff {means : α → Value → Prop} {default chosen : α} {entries : List Entry} :
    Setting means default ((Value.table entries).get? name) chosen ↔
      Setting (OfValue means) default (entryOf? entries name) chosen := by
  rw [Value.get?]
  cases entryOf? entries name <;> simp [OfValue]

def Step (means : α → Entry → Prop) (name : String) (entry : Entry) (old new : α) : Prop :=
  if entry.1.name = name then means new entry else new = old

/-- To take the entries one after the other is to look the name up. -/
theorem setting_cons_iff {entry : Entry} {entries : List Entry} {old new : α}
    (fresh : entry.1.name ∉ names entries) :
    Setting means old (entryOf? (entry :: entries) name) new ↔
      ∃ middle, Step means name entry old middle ∧ Setting means middle (entryOf? entries name) new := by
  rw [entryOf?_cons]
  by_cases same : entry.1.name = name
  · have later : entryOf? entries name = none := entryOf?_eq_none (same ▸ fresh)
    simp [Step, same, later]
  · simp [Step, same]

theorem exists_step_iff (entry : Entry) (old : α) :
    (∃ new, Step means name entry old new) ↔ (entry.1.name = name → ∃ new, means new entry) := by
  by_cases same : entry.1.name = name <;> simp [Step, same]

theorem exists_step_ofValue_iff {means : α → Value → Prop} (entry : Entry) (old : α) :
    (∃ new, Step (OfValue means) name entry old new) ↔
      (entry.1.name = name → ∃ new, means new entry.2.2) :=
  exists_step_iff entry old

theorem setting_of_foldlM {σ ε : Type} {step : σ → Entry → Except ε σ} (field : σ → α)
    (steps : ∀ {state entry next}, step state entry = .ok next →
      Step means name entry (field state) (field next))
    {entries : List Entry} (keys : (names entries).Nodup) {state result : σ}
    (read : entries.foldlM step state = .ok result) :
    Setting means (field state) (entryOf? entries name) (field result) := by
  induction entries generalizing state with
  | nil =>
      cases read
      exact .absent
  | cons entry entries ih =>
      obtain ⟨fresh, keys⟩ := List.nodup_cons.mp keys
      rw [List.foldlM_cons, bind_eq_ok_iff] at read
      obtain ⟨next, first, rest⟩ := read
      exact (setting_cons_iff fresh).mpr ⟨field next, steps first, ih keys rest⟩

end

end NamingLint.Toml
