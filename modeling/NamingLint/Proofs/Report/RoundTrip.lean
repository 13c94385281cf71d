import NamingLint.Cli.Output
import NamingLint.Proofs.Json.RoundTrip

/-! The JSON output of a run gives back the result that it was printed from.

Every part of a result is a record, and a record that is written with all of its fields is read field by
field. Numbers are read back if they take at most 64 bits, texts whatever they hold. -/

namespace NamingLint

theorem mapM_map_eq_some {α β γ : Type} {read : β → Option γ} {write : α → β} {value : α → γ}
    {items : List α} (each : ∀ item ∈ items, read (write item) = some (value item)) :
    (items.map write).mapM read = some (items.map value) := by
  induction items with
  | nil => rfl
  | cons item items ih =>
      have others := ih fun other member => each other (List.mem_cons_of_mem item member)
      rw [List.map_cons, List.mapM_cons, each item List.mem_cons_self, others]
      rfl

namespace Json.Value

def ofFields (fields : List (String × Value)) : List (Text × Value) :=
  fields.map fun (name, value) => (some name, value)

theorem field?_ofFields {fields : List (String × Value)} (distinct : (fields.map Prod.fst).Nodup) :
    ∀ field ∈ fields, field? (ofFields fields) field.1 = some field.2 := by
  induction fields with
  | nil => simp
  | cons first fields ih =>
      obtain ⟨fresh, others⟩ := List.nodup_cons.mp distinct
      intro field member
      rcases List.mem_cons.mp member with rfl | later
      · have alone : ((ofFields fields).filter fun member => member.1 == some field.1) = [] := by
          simp only [ofFields, List.filter_eq_nil_iff, List.mem_map]
          rintro _ ⟨other, isOther, rfl⟩ same
          have repeated : other.1 = field.1 := by simpa using same
          exact fresh (repeated ▸ List.mem_map_of_mem isOther)
        change field? ((some field.1, field.2) :: ofFields fields) field.1 = some field.2
        rw [field?, List.filter_cons_of_pos (by simp), alone]
      · have differ : first.1 ≠ field.1 := by
          intro same
          exact fresh (same ▸ List.mem_map_of_mem later)
        have skipped : field? (ofFields (first :: fields)) field.1 =
            field? (ofFields fields) field.1 := by
          simp [field?, ofFields, differ]
        rw [skipped, ih others field later]

theorem record?_ofMembers {fields : List (String × Value)} {names : List String}
    (named : fields.map Prod.fst = names) (distinct : names.Nodup) :
    (ofMembers fields).record? names = some (fields.map Prod.snd) := by
  subst named
  have texts : ((ofFields fields).any fun member => member.1.isNone) = false := by
    simp [ofFields]
  change (if (ofFields fields).any fun member => member.1.isNone then none
    else (fields.map Prod.fst).mapM (field? (ofFields fields))) = _
  rw [texts, if_neg Bool.false_ne_true, mapM_map_eq_some (field?_ofFields distinct)]

end Json.Value

namespace LintResult

open Json (Value)

def FitsLocation (l : Location) : Prop :=
  l.line < UInt64.size ∧ l.column < UInt64.size ∧ l.offset < UInt64.size ∧ l.length < UInt64.size

/-- All numbers of a result take at most 64 bits. -/
def Fits (result : LintResult) : Prop :=
  result.filesChecked < UInt64.size ∧ ∀ v ∈ result.violations, FitsLocation v.location

instance (l : Location) : Decidable (FitsLocation l) := inferInstanceAs (Decidable (_ ∧ _))

instance (result : LintResult) : Decidable result.Fits := inferInstanceAs (Decidable (_ ∧ _))

theorem location?_locationToJson {l : Location} (fits : FitsLocation l) :
    location? (locationToJson l) = some l := by
  obtain ⟨line, column, offset, length⟩ := fits
  have fields : (locationToJson l).record? ["file", "line", "column", "offset", "length"] =
      some [.ofText l.file.text, .ofNat l.line, .ofNat l.column, .ofNat l.offset, .ofNat l.length] :=
    Value.record?_ofMembers rfl (by decide)
  simp only [location?, fields, Option.bind_eq_bind, Option.bind_some, Value.ofText, Value.text?,
    Json.word64?_ofNat _ line, Json.word64?_ofNat _ column, Json.word64?_ofNat _ offset,
    Json.word64?_ofNat _ length]
  rfl

theorem severity?_severityToJson (severity : Severity) :
    severity? (severityToJson severity) = some severity := by
  cases severity
  rfl

theorem violation?_violationToJson {v : Violation} (fits : FitsLocation v.location) :
    violation? (violationToJson v) = some v := by
  have fields : (violationToJson v).record? ["code", "rule", "severity", "location", "message"] =
      some [.ofText v.code, .ofText v.rule, severityToJson v.severity, locationToJson v.location,
        .ofText v.message] := Value.record?_ofMembers rfl (by decide)
  simp only [violation?, fields, Option.bind_eq_bind, Option.bind_some, Value.ofText, Value.text?,
    severity?_severityToJson, location?_locationToJson fits]
  rfl

theorem ofJson?_toJson {result : LintResult} (fits : result.Fits) :
    ofJson? result.toJson = some result := by
  have fields : result.toJson.record? ["violations", "files_checked"] =
      some [.array (result.violations.map violationToJson), .ofNat result.filesChecked] :=
    Value.record?_ofMembers rfl (by decide)
  have violations : (result.violations.map violationToJson).mapM violation? =
      some (result.violations.map id) :=
    mapM_map_eq_some fun v member => violation?_violationToJson (fits.2 v member)
  simp only [ofJson?, fields, Option.bind_eq_bind, Option.bind_some, Value.list?, violations,
    Json.word64?_ofNat _ fits.1, List.map_id]
  rfl

theorem whole_ofMembers {fields : List (String × Value)} (each : ∀ field ∈ fields, field.2.Whole) :
    (Value.ofMembers fields).Whole := by
  apply Value.Whole.object
  intro member isMember
  obtain ⟨field, isField, rfl⟩ := List.mem_map.mp isMember
  exact each field isField

theorem whole_locationToJson (l : Location) : (locationToJson l).Whole := by
  apply whole_ofMembers
  simp only [List.forall_mem_cons]
  exact ⟨.string _, .number _, .number _, .number _, .number _, by simp⟩

theorem whole_violationToJson (v : Violation) : (violationToJson v).Whole := by
  apply whole_ofMembers
  simp only [List.forall_mem_cons]
  exact ⟨.string _, .string _, .string _, whole_locationToJson v.location, .string _, by simp⟩

theorem whole_toJson (result : LintResult) : result.toJson.Whole := by
  apply whole_ofMembers
  simp only [List.forall_mem_cons]
  refine ⟨.array _ ?_, .number _, by simp⟩
  intro item member
  obtain ⟨v, _, rfl⟩ := List.mem_map.mp member
  exact whole_violationToJson v

/-- Reading a result that was printed as JSON succeeds and gives the same result, whatever texts it
holds, and so does reading the output of a run with its line end. -/
theorem json_output_reads_back (renderer : Snippet.Renderer) (read : Path → Option String)
    (result : LintResult) (fits : result.Fits) :
    LintResult.parse? result.pretty = some result ∧
    ∃ printed, Cli.render renderer .json read result = some printed ∧
      LintResult.parse? printed = some result := by
  have behind : ∀ blanks : String, (∀ c ∈ blanks.toList, Json.isBlank c = true) →
      LintResult.parse? (result.pretty ++ blanks) = some result := by
    intro blanks blank
    rw [LintResult.parse?, LintResult.pretty, result.whole_toJson.parse?_pretty blank,
      Option.bind_some, ofJson?_toJson fits]
  constructor
  · have alone := behind "" (by simp)
    rwa [String.append_empty] at alone
  · exact ⟨result.pretty ++ "\n", rfl, behind "\n" (by simp [Json.isBlank])⟩

def awkwardResult : LintResult where
  violations :=
    [⟨"EG\"001\\", "ts\x01\x1f\x7f", .error,
        ⟨⟨"a\tb/\u7c7b.ts"⟩, 0, 18446744073709551615, 18446744073709551615, 1⟩, "\n\r\x08\x0c \u00e9/"⟩,
      ⟨"", "", .error, ⟨⟨""⟩, 1, 10, 100, 1000⟩, "\x7b\"x\": [1, \\u0041]\x7d\x00"⟩]
  filesChecked := 18446744073709551615

theorem awkwardResult_reads_back :
    awkwardResult.Fits ∧ LintResult.parse? awkwardResult.pretty = some awkwardResult ∧
    ∃ printed, Cli.render (fun _ => none) .json (fun _ => none) awkwardResult = some printed ∧
      LintResult.parse? printed = some awkwardResult := by
  have fits : awkwardResult.Fits := by decide
  exact ⟨fits, json_output_reads_back (fun _ => none) (fun _ => none) awkwardResult fits⟩

end LintResult

end NamingLint
