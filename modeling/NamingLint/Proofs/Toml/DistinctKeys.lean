import Mathlib.Data.List.Nodup
import NamingLint.Toml.Document

/-! No table of a document has two entries of one name.

This is where a document differs from a list of lines. Every way to add to a table looks for the name
first, so what holds of the drafts holds of the values that they end as, and a lookup by name finds
all that the document says. -/

namespace NamingLint.Toml

def names {α : Type} (entries : List (Key × α)) : List String := entries.map fun entry => entry.1.name

@[simp] theorem names_append {α : Type} (first second : List (Key × α)) :
    names (first ++ second) = names first ++ names second := List.map_append

theorem bind_pure_eq_some_iff {α β : Type} {first : Option α} {value : α → β} {result : β} :
    (first >>= fun item => pure (value item)) = some result ↔
      ∃ item, first = some item ∧ value item = result := by
  cases first <;> simp

/-- Within a value, no table has two entries of one name. -/
inductive Value.Distinct : Value → Prop where
  | string (text : String) : Distinct (.string text)
  | integer (value : Int) : Distinct (.integer value)
  | float (value : Float64) : Distinct (.float value)
  | boolean (value : Bool) : Distinct (.boolean value)
  | datetime (text : String) : Distinct (.datetime text)
  | array {items : List (Option Span × Value)} (each : ∀ item ∈ items, Distinct item.2) :
      Distinct (.array items)
  | table {entries : List (Key × Option Span × Value)} (keys : (names entries).Nodup)
      (each : ∀ entry ∈ entries, Distinct entry.2.2) : Distinct (.table entries)

namespace Draft

inductive Distinct : Draft → Prop where
  | value (span : Span) {content : Value} (held : content.Distinct) : Distinct (.value span content)
  | table (origin : Origin) {entries : List (Key × Draft)} (keys : (names entries).Nodup)
      (each : ∀ entry ∈ entries, Distinct entry.2) : Distinct (.table origin entries)
  | tables {items : List (Span × List (Key × Draft))} (keys : ∀ item ∈ items, (names item.2).Nodup)
      (each : ∀ item ∈ items, ∀ entry ∈ item.2, Distinct entry.2) : Distinct (.tables items)

structure DistinctEntries (entries : Entries) : Prop where
  keys : (names entries).Nodup
  each : ∀ entry ∈ entries, Distinct entry.2

theorem DistinctEntries.nil : DistinctEntries [] := ⟨List.nodup_nil, by simp⟩

theorem distinct_table_iff {origin : Origin} {entries : Entries} :
    Distinct (.table origin entries) ↔ DistinctEntries entries := by
  constructor
  · intro distinct
    cases distinct with
    | table _ keys each => exact ⟨keys, each⟩
  · intro distinct
    exact .table origin distinct.keys distinct.each

theorem distinct_tables_iff {items : List (Span × Entries)} :
    Distinct (.tables items) ↔ ∀ item ∈ items, DistinctEntries item.2 := by
  constructor
  · intro distinct item member
    cases distinct with
    | tables keys each => exact ⟨keys item member, each item member⟩
  · intro distinct
    exact .tables (fun item member => (distinct item member).keys)
      fun item member => (distinct item member).each

theorem DistinctEntries.find? {entries : Entries} {key : Key} {draft : Draft}
    (distinct : DistinctEntries entries) (found : find? entries key = some draft) :
    draft.Distinct := by
  obtain ⟨entry, first, rfl⟩ := Option.map_eq_some_iff.mp found
  exact distinct.each entry (List.mem_of_find?_eq_some first)

theorem not_mem_names_of_find? {entries : Entries} {key : Key} (absent : find? entries key = none) :
    key.name ∉ names entries := by
  intro member
  obtain ⟨entry, inside, same⟩ := List.mem_map.mp member
  have differs := List.find?_eq_none.mp (Option.map_eq_none_iff.mp absent) entry inside
  exact differs (by simp [same])

theorem DistinctEntries.push {entries : Entries} {key : Key} {draft : Draft}
    (distinct : DistinctEntries entries) (fresh : key.name ∉ names entries)
    (added : draft.Distinct) : DistinctEntries (entries ++ [(key, draft)]) where
  keys := by
    rw [names_append]
    exact distinct.keys.append (List.nodup_singleton _) (List.disjoint_singleton.mpr fresh)
  each entry member := by
    rcases List.mem_append.mp member with before | last
    · exact distinct.each entry before
    · rw [List.mem_singleton.mp last]
      exact added

@[simp] theorem names_replace (entries : Entries) (key : Key) (draft : Draft) :
    names (replace entries key draft) = names entries := by
  rw [names, replace, List.map_map]
  apply List.map_congr_left
  intro entry _
  simp only [Function.comp_apply]
  split <;> rfl

theorem DistinctEntries.replace {entries : Entries} {key : Key} {draft : Draft}
    (distinct : DistinctEntries entries) (put : draft.Distinct) :
    DistinctEntries (replace entries key draft) where
  keys := by
    rw [names_replace]
    exact distinct.keys
  each entry member := by
    obtain ⟨old, inside, rfl⟩ := List.mem_map.mp member
    split
    · exact put
    · exact distinct.each old inside

theorem DistinctEntries.erase {entries : Entries} (key : Key) (distinct : DistinctEntries entries) :
    DistinctEntries (erase entries key) where
  keys := distinct.keys.sublist (List.filter_sublist.map _)
  each entry member := distinct.each entry (List.mem_of_mem_filter member)

theorem not_mem_names_erase (entries : Entries) (key : Key) :
    key.name ∉ names (erase entries key) := by
  intro member
  obtain ⟨entry, inside, same⟩ := List.mem_map.mp member
  have differs := (List.mem_filter.mp inside).2
  simp [same] at differs

/-- Whatever keeps the names of the last table of a path apart keeps all names apart. -/
theorem DistinctEntries.descend {dotted : Bool} {change : Origin → Entries → Option Entries}
    (keeps : ∀ {origin entries changed}, DistinctEntries entries →
      change origin entries = some changed → DistinctEntries changed)
    {path : List Key} {origin : Origin} {entries changed : Entries}
    (distinct : DistinctEntries entries)
    (ran : descend dotted change path origin entries = some changed) : DistinctEntries changed := by
  induction path generalizing origin entries changed with
  | nil => exact keeps distinct ran
  | cons key path ih =>
      rw [Draft.descend] at ran
      split at ran
      next absent =>
        obtain ⟨inner, below, rfl⟩ := bind_pure_eq_some_iff.mp ran
        exact distinct.push (not_mem_names_of_find? absent)
          (distinct_table_iff.mpr (ih .nil below))
      next origin' inner present =>
        split at ran
        · obtain ⟨inner', below, rfl⟩ := bind_pure_eq_some_iff.mp ran
          have held := distinct_table_iff.mp (distinct.find? present)
          exact distinct.replace (distinct_table_iff.mpr (ih held below))
        · cases ran
      next items present =>
        split at ran
        next span inner last =>
          obtain ⟨inner', below, rfl⟩ := bind_pure_eq_some_iff.mp ran
          have held := distinct_tables_iff.mp (distinct.find? present)
          have grown := ih (held _ (List.mem_of_getLast? last)) below
          apply distinct.replace
          rw [distinct_tables_iff]
          intro item member
          rcases List.mem_append.mp member with before | last
          · exact held item (List.dropLast_subset items before)
          · rw [List.mem_singleton.mp last]
            exact grown
        next => cases ran
      next => cases ran

theorem DistinctEntries.addEntry {dotted : Bool} {key : Key} {draft : Draft} {origin : Origin}
    {entries changed : Entries} (added : draft.Distinct) (distinct : DistinctEntries entries)
    (ran : addEntry dotted key draft origin entries = some changed) : DistinctEntries changed := by
  rw [Draft.addEntry] at ran
  split at ran
  · cases ran
  · split at ran
    next => cases ran
    next absent =>
      cases ran
      exact distinct.push (not_mem_names_of_find? absent) added

theorem DistinctEntries.assignAll {origin : Origin} {assignments : List Assignment}
    {entries changed : Entries} (values : ∀ a ∈ assignments, a.value.Distinct)
    (distinct : DistinctEntries entries)
    (ran : assignAll origin entries assignments = some changed) : DistinctEntries changed := by
  induction assignments generalizing entries with
  | nil =>
      cases ran
      exact distinct
  | cons a assignments ih =>
      rw [Draft.assignAll, List.foldlM_cons] at ran
      obtain ⟨next, first, rest⟩ := Option.bind_eq_some_iff.mp ran
      have added : Distinct (.value a.span a.value) := .value _ (values a List.mem_cons_self)
      exact ih (fun b member => values b (List.mem_cons_of_mem a member))
        (distinct.descend (addEntry added) first) rest

theorem DistinctEntries.openTable {span : Span} {key : Key} {assignments : List Assignment}
    {entries changed : Entries} (values : ∀ a ∈ assignments, a.value.Distinct)
    (distinct : DistinctEntries entries)
    (ran : openTable span key assignments entries = some changed) : DistinctEntries changed := by
  have filled {old : Entries} (held : DistinctEntries old)
      (ran : (do
        let inner ← Draft.assignAll (.header span) old assignments
        return Draft.erase entries key ++ [(key, .table (.header span) inner)]) = some changed) :
      DistinctEntries changed := by
    obtain ⟨inner, assigned, rfl⟩ := bind_pure_eq_some_iff.mp ran
    exact (distinct.erase key).push (not_mem_names_erase entries key)
      (distinct_table_iff.mpr (held.assignAll values assigned))
  rw [Draft.openTable] at ran
  split at ran
  next => exact filled .nil ran
  next present => exact filled (distinct_table_iff.mp (distinct.find? present)) ran
  next => cases ran

theorem DistinctEntries.openItem {span : Span} {key : Key} {assignments : List Assignment}
    {entries changed : Entries} (values : ∀ a ∈ assignments, a.value.Distinct)
    (distinct : DistinctEntries entries)
    (ran : openItem span key assignments entries = some changed) : DistinctEntries changed := by
  rw [Draft.openItem] at ran
  obtain ⟨inner, filled, ran⟩ := Option.bind_eq_some_iff.mp ran
  have added : DistinctEntries inner := DistinctEntries.nil.assignAll values filled
  split at ran
  next absent =>
    cases ran
    exact distinct.push (not_mem_names_of_find? absent) (distinct_tables_iff.mpr (by simpa using added))
  next items present =>
    cases ran
    have held := distinct_tables_iff.mp (distinct.find? present)
    apply distinct.replace
    rw [distinct_tables_iff, List.forall_mem_append]
    exact ⟨held, by simpa using added⟩
  next => cases ran

theorem finishEntries_eq_map (entries : Entries) :
    finishEntries entries = entries.map fun entry => (entry.1, finish entry.2) := by
  induction entries with
  | nil => rw [finishEntries, List.map_nil]
  | cons entry entries ih => rw [finishEntries, List.map_cons, ih]

theorem finishItems_eq_map (items : List (Span × Entries)) :
    finishItems items = items.map fun item => (some item.1, .table (finishEntries item.2)) := by
  induction items with
  | nil => rw [finishItems, List.map_nil]
  | cons item items ih => rw [finishItems, List.map_cons, ih]

@[simp] theorem names_finishEntries (entries : Entries) :
    names (finishEntries entries) = names entries := by
  rw [finishEntries_eq_map, names, List.map_map]
  rfl

theorem distinct_finishEntries {entries : Entries} (keys : (names entries).Nodup)
    (each : ∀ entry ∈ entries, (finish entry.2).2.Distinct) :
    (Value.table (finishEntries entries)).Distinct := by
  refine .table ((names_finishEntries entries).symm ▸ keys) fun entry member => ?_
  rw [finishEntries_eq_map] at member
  obtain ⟨drafted, inside, rfl⟩ := List.mem_map.mp member
  exact each drafted inside

theorem Distinct.finish {draft : Draft} (distinct : draft.Distinct) : (finish draft).2.Distinct := by
  induction distinct with
  | value span held =>
      rw [Draft.finish]
      exact held
  | table origin keys each ih =>
      rw [Draft.finish]
      exact distinct_finishEntries keys ih
  | @tables items keys each ih =>
      rw [Draft.finish]
      refine .array fun item member => ?_
      rw [finishItems_eq_map] at member
      obtain ⟨drafted, inside, rfl⟩ := List.mem_map.mp member
      exact distinct_finishEntries (keys drafted inside) (ih drafted inside)

theorem DistinctEntries.finish {entries : Entries} (distinct : DistinctEntries entries) :
    (Value.table (finishEntries entries)).Distinct :=
  distinct_finishEntries distinct.keys fun entry member => (distinct.each entry member).finish

end Draft

namespace Scan

variable {α β : Type}

/-- Whatever a scan returns, wherever it starts, has a property. -/
def Ensures (scan : Scan α) (holds : α → Prop) : Prop :=
  ∀ cursor value next, scan cursor = some (value, next) → holds value

variable {holds : α → Prop} {held : β → Prop}

theorem ensures_pure {value : α} (given : holds value) : Ensures (pure value) holds := by
  intro cursor result next ran
  cases ran
  exact given

theorem ensures_failure : Ensures (failure : Scan α) holds := by
  intro cursor result next ran
  cases ran

theorem Ensures.bind {scan : Scan α} {step : α → Scan β} (first : Ensures scan holds)
    (second : ∀ value, holds value → Ensures (step value) held) : Ensures (scan >>= step) held := by
  intro cursor result next ran
  obtain ⟨⟨value, middle⟩, before, after⟩ := Option.bind_eq_some_iff.mp ran
  exact second value (first cursor value middle before) middle result next after

theorem ensures_bind {scan : Scan α} {step : α → Scan β}
    (second : ∀ value, Ensures (step value) held) : Ensures (scan >>= step) held := by
  have first : Ensures scan fun _ => True := fun _ _ _ _ => trivial
  exact first.bind fun value _ => second value

theorem Ensures.orElse {first second : Scan α} (one : Ensures first holds)
    (other : Ensures second holds) : Ensures (first <|> second) holds := by
  intro cursor result next ran
  change (first cursor <|> second cursor) = some (result, next) at ran
  cases tried : first cursor with
  | none =>
      rw [tried] at ran
      exact other cursor result next ran
  | some found =>
      rw [tried] at ran
      exact one cursor result next (tried.trans ran)

theorem Ensures.located {scan : Scan α} (ensured : Ensures scan holds) :
    Ensures (located scan) fun found => holds found.2 := by
  intro cursor result next ran
  obtain ⟨⟨value, after⟩, found, same⟩ := Option.map_eq_some_iff.mp ran
  cases same
  exact ensured cursor value next found

theorem Ensures.maybe {scan : Scan α} (ensured : Ensures scan holds) :
    Ensures (maybe scan) fun found => ∀ value ∈ found, holds value := by
  intro cursor result next ran value member
  rw [Scan.maybe] at ran
  split at ran
  next found =>
    cases ran
    cases member
    exact ensured cursor value next found
  next =>
    cases ran
    cases member

theorem Ensures.many {scan : Scan α} (ensured : Ensures scan holds) (steps : Nat) :
    Ensures (many scan steps) fun found => ∀ value ∈ found, holds value := by
  induction steps with
  | zero => exact ensures_pure (by simp)
  | succ steps ih =>
      refine ensured.maybe.bind fun found first => ?_
      cases found with
      | none => exact ensures_pure (by simp)
      | some value =>
          refine ih.bind fun values rest => ensures_pure ?_
          exact List.forall_mem_cons.mpr ⟨first value rfl, rest⟩

theorem Ensures.separated {scan : Scan α} {separator : Char} (ensured : Ensures scan holds) :
    Ensures (separated separator scan) fun found => ∀ value ∈ found, holds value := by
  refine ensured.bind fun value first => ensures_bind fun steps => ?_
  refine ((ensures_bind fun _ => ensured).many steps).bind fun values rest => ensures_pure ?_
  exact List.forall_mem_cons.mpr ⟨first, rest⟩

end Scan

open Scan

theorem ensures_radixInteger (mark : Char) (base : Nat) (test : Char → Bool) :
    Ensures (radixInteger mark base test) Value.Distinct := by
  refine ensures_bind fun _ => ensures_bind fun digits => ?_
  dsimp only
  split
  · exact ensures_pure (.integer _)
  · exact ensures_failure

theorem ensures_integer : Ensures integer Value.Distinct := by
  refine (ensures_radixInteger _ _ _).orElse ((ensures_radixInteger _ _ _).orElse
    ((ensures_radixInteger _ _ _).orElse ?_))
  refine ensures_bind fun negative => ensures_bind fun digits => ?_
  dsimp only
  split
  · exact ensures_pure (.integer _)
  · exact ensures_failure

theorem ensures_decimalFloat : Ensures decimalFloat Value.Distinct := by
  have sized (value : Float64) :
      Ensures (if value = .infinite false then failure else return .float value) Value.Distinct := by
    split
    · exact ensures_failure
    · exact ensures_pure (.float _)
  refine ensures_bind fun negative => ensures_bind fun whole => ensures_bind fun digits => ?_
  dsimp only
  split
  · exact ensures_bind fun _ => sized _
  · exact ensures_bind fun _ => sized _

theorem ensures_specialFloat : Ensures specialFloat Value.Distinct :=
  ensures_bind fun _ => (ensures_bind fun _ => ensures_pure (.float _)).orElse
    (ensures_bind fun _ => ensures_pure (.float _))

theorem ensures_datetime : Ensures datetime Value.Distinct :=
  (ensures_bind fun _ => ensures_bind fun _ => ensures_pure (.datetime _)).orElse
    (ensures_bind fun _ => ensures_pure (.datetime _))

theorem ensures_scalar : Ensures scalar Value.Distinct := by
  refine ensures_bind fun next => ?_
  split
  · exact ensures_bind fun _ => ensures_pure (.string _)
  · exact ensures_bind fun _ => ensures_pure (.string _)
  · exact ensures_bind fun _ => ensures_pure (.boolean _)
  · exact ensures_bind fun _ => ensures_pure (.boolean _)
  · exact ensures_datetime.orElse (ensures_decimalFloat.orElse
      (ensures_specialFloat.orElse ensures_integer))

section

variable {scan : Scan (Span × Value)} (ensured : Ensures scan fun found => found.2.Distinct)
include ensured

theorem ensures_assignment : Ensures (assignment scan) fun a => a.value.Distinct := by
  refine ensures_bind fun parts => ensures_bind fun split => ensures_bind fun _ =>
    ensures_bind fun _ => ensured.bind fun found distinct => ?_
  exact ensures_pure distinct

theorem ensures_array : Ensures (array scan) Value.Distinct := by
  have items : Ensures (item scan) fun found => found.2.Distinct :=
    ensures_bind fun _ => ensured.bind fun _ distinct => ensures_bind fun _ => ensures_pure distinct
  refine ensures_bind fun _ => items.separated.maybe.bind fun found each => ?_
  have whole : (Value.array (found.getD [])).Distinct := by
    cases found with
    | none => exact .array (by simp)
    | some items => exact .array (each items rfl)
  split
  · exact ensures_bind fun _ => ensures_bind fun _ => ensures_bind fun _ => ensures_pure whole
  · exact ensures_bind fun _ => ensures_bind fun _ => ensures_pure whole

theorem ensures_inlineTable : Ensures (inlineTable scan) Value.Distinct := by
  have lines : Ensures (do let a ← assignment scan; blanks; return a) fun a => a.value.Distinct :=
    (ensures_assignment ensured).bind fun _ distinct => ensures_bind fun _ => ensures_pure distinct
  refine ensures_bind fun _ => lines.separated.maybe.bind fun found each => ensures_bind fun _ =>
    ensures_bind fun _ => ?_
  split
  next entries filled =>
    have values : ∀ a ∈ found.getD [], a.value.Distinct := by
      cases found with
      | none => simp
      | some assignments => exact each assignments rfl
    exact ensures_pure (Draft.DistinctEntries.nil.assignAll values filled).finish
  next => exact ensures_failure

end

theorem ensures_value (levels : Nat) : Ensures (value levels) fun found => found.2.Distinct := by
  induction levels with
  | zero => exact ensures_scalar.located
  | succ levels ih =>
      refine Ensures.located (ensures_bind fun next => ?_)
      split
      · exact ensures_array ih
      · exact ensures_inlineTable ih
      · exact ensures_scalar

def Statement.Distinct (s : Statement) : Prop := ∀ a, s = .assign a → a.value.Distinct

theorem ensures_statement : Ensures statement Statement.Distinct := by
  have nothing : Statement.Distinct .nothing := by simp [Statement.Distinct]
  refine ensures_bind fun ahead => ?_
  split
  · exact ensures_bind fun _ => ensures_bind fun _ => ensures_pure nothing
  · exact ensures_bind fun _ => ensures_bind fun _ => ensures_pure (by simp [Statement.Distinct])
  · exact ensures_bind fun _ => ensures_bind fun _ => ensures_pure (by simp [Statement.Distinct])
  · exact ensures_bind fun _ => ensures_pure nothing
  · exact ensures_bind fun _ => ensures_pure nothing
  · exact ensures_failure
  · refine (ensures_assignment (ensures_value nestingLimit)).bind fun a distinct => ?_
    refine ensures_bind fun _ => ensures_pure fun b same => ?_
    cases same
    exact distinct

theorem ensures_statements :
    Ensures statements fun found => ∀ s ∈ found, s.Distinct := by
  have lines : Ensures (do let s ← statement; blanks; return s) Statement.Distinct :=
    ensures_statement.bind fun _ distinct => ensures_bind fun _ => ensures_pure distinct
  refine ensures_bind fun _ => ensures_bind fun _ => ensures_bind fun steps =>
    (lines.many steps).bind fun found each => ?_
  exact ensures_bind fun _ => ensures_pure each

theorem distinct_sections {lines : List Statement} (each : ∀ s ∈ lines, s.Distinct) :
    (∀ a ∈ (sections lines).1, a.value.Distinct) ∧
      ∀ s ∈ (sections lines).2, ∀ a ∈ s.assignments, a.value.Distinct := by
  induction lines with
  | nil => simp [sections]
  | cons line lines ih =>
      rw [List.forall_mem_cons] at each
      obtain ⟨top, rest⟩ := ih each.2
      cases line with
      | nothing => exact ⟨top, rest⟩
      | assign a => exact ⟨List.forall_mem_cons.mpr ⟨each.1 a rfl, top⟩, rest⟩
      | table span path key => exact ⟨by simp [sections], List.forall_mem_cons.mpr ⟨top, rest⟩⟩
      | tableItem span path key => exact ⟨by simp [sections], List.forall_mem_cons.mpr ⟨top, rest⟩⟩

theorem distinct_addSection {entries changed : Draft.Entries} {s : Section}
    (values : ∀ a ∈ s.assignments, a.value.Distinct) (distinct : Draft.DistinctEntries entries)
    (ran : addSection entries s = some changed) : Draft.DistinctEntries changed := by
  rw [addSection] at ran
  split at ran
  next => exact distinct.descend (fun held opened => held.openTable values opened) ran
  next => exact distinct.descend (fun held opened => held.openItem values opened) ran
  all_goals
    cases ran
    exact distinct

theorem distinct_addSections {rest : List Section} {entries changed : Draft.Entries}
    (values : ∀ s ∈ rest, ∀ a ∈ s.assignments, a.value.Distinct)
    (distinct : Draft.DistinctEntries entries)
    (ran : rest.foldlM addSection entries = some changed) : Draft.DistinctEntries changed := by
  induction rest generalizing entries with
  | nil =>
      cases ran
      exact distinct
  | cons s rest ih =>
      rw [List.foldlM_cons] at ran
      obtain ⟨next, first, later⟩ := Option.bind_eq_some_iff.mp ran
      rw [List.forall_mem_cons] at values
      exact ih values.2 (distinct_addSection values.1 distinct first) later

theorem distinct_of_parse? {text : String} {document : List Entry}
    (read : parse? text = some document) : (Value.table document).Distinct := by
  obtain ⟨⟨lines, next⟩, scanned, assembled⟩ := Option.bind_eq_some_iff.mp read
  obtain ⟨top, rest⟩ := distinct_sections (ensures_statements _ _ _ scanned)
  obtain ⟨entries, first, assembled⟩ := Option.bind_eq_some_iff.mp assembled
  obtain ⟨drafts, later, rfl⟩ := bind_pure_eq_some_iff.mp assembled
  exact (distinct_addSections rest (Draft.DistinctEntries.nil.assignAll top first) later).finish

end NamingLint.Toml
