import NamingLint.Config
import NamingLint.Proofs.Toml.Lookup

/-! What a configuration says, read off the document that it stands in. -/

namespace NamingLint.Config

open Toml

/-! What the readers accept. -/

def IsPath (path : Path) (value : Value) : Prop := value = .string path.text

def IsTexts (texts : List String) (value : Value) : Prop :=
  ∃ items, value = .array items ∧ items.map Prod.snd = texts.map Value.string

def IsFlag (flag : Bool) (value : Value) : Prop := value = .boolean flag

theorem readPath_eq_ok_iff {span : Span} {value : Value} {path : Path} :
    readPath span value = .ok path ↔ IsPath path value := by
  cases value with
  | string text =>
      obtain ⟨written⟩ := path
      simp [readPath, IsPath]
  | _ => simp [readPath, IsPath]

theorem readText_eq_ok_iff {span : Span} {value : Value} {text : String} :
    readText span value = .ok text ↔ value = .string text := by
  cases value <;> simp [readText]

theorem readBool_eq_ok_iff {span : Span} {value : Value} {flag : Bool} :
    readBool span value = .ok flag ↔ IsFlag flag value := by
  cases value <;> simp [readBool, IsFlag]

theorem readTexts_eq_ok_iff {span : Span} {value : Value} {texts : List String} :
    readTexts span value = .ok texts ↔ IsTexts texts value := by
  cases value with
  | array items =>
      simp only [readTexts, IsTexts, Value.array.injEq, exists_eq_left']
      rw [mapM_eq_ok_iff, ← List.forall₂_eq_eq_eq, List.forall₂_map_left_iff,
        List.forall₂_map_right_iff]
      simp only [readText_eq_ok_iff]
  | _ => simp [readTexts, IsTexts]

theorem readAnalyzerEntry_eq_ok_iff {config result : AnalyzerConfig} {entry : Entry} :
    readAnalyzerEntry config entry = .ok result ↔
      Step (OfValue IsPath) "root" entry config.root result.root ∧
      Step (OfValue IsTexts) "exclude" entry config.exclude result.exclude ∧
      Step (OfValue IsFlag) "respect_gitignore" entry config.respectGitignore
        result.respectGitignore := by
  obtain ⟨root, exclude, flag⟩ := config
  obtain ⟨root', exclude', flag'⟩ := result
  rw [readAnalyzerEntry]
  split
  next named =>
    rw [bind_pure_eq_ok_iff]
    simp [readPath_eq_ok_iff, OfValue, Step, named]
  next named =>
    rw [bind_pure_eq_ok_iff]
    simp [readTexts_eq_ok_iff, OfValue, Step, named, and_left_comm]
  next named =>
    rw [bind_pure_eq_ok_iff]
    simp [readBool_eq_ok_iff, OfValue, Step, named, -Bool.exists_bool, and_assoc, and_comm,
      and_left_comm]
  next notRoot notExclude notFlag =>
    rw [Step, if_neg notRoot, Step, if_neg notExclude, Step, if_neg notFlag]
    simp [eq_comm]

structure Fits (name : String) (value : Value) : Prop where
  root : name = "root" → ∃ path, IsPath path value
  exclude : name = "exclude" → ∃ texts, IsTexts texts value
  respectGitignore : name = "respect_gitignore" → ∃ flag, IsFlag flag value

theorem exists_readAnalyzerEntry_iff (config : AnalyzerConfig) (entry : Entry) :
    (∃ result, readAnalyzerEntry config entry = .ok result) ↔ Fits entry.1.name entry.2.2 := by
  simp only [readAnalyzerEntry_eq_ok_iff]
  constructor
  · intro ⟨result, root, exclude, flag⟩
    exact ⟨(exists_step_iff entry _).mp ⟨_, root⟩, (exists_step_iff entry _).mp ⟨_, exclude⟩,
      (exists_step_iff entry _).mp ⟨_, flag⟩⟩
  · intro fits
    obtain ⟨path, root⟩ := (exists_step_ofValue_iff entry config.root).mpr fits.root
    obtain ⟨texts, exclude⟩ := (exists_step_ofValue_iff entry config.exclude).mpr fits.exclude
    obtain ⟨on, flag⟩ :=
      (exists_step_ofValue_iff entry config.respectGitignore).mpr fits.respectGitignore
    exact ⟨⟨path, texts, on⟩, root, exclude, flag⟩

/-! The table of one rule. -/

def IsSwitch (enabled : Option Bool) (value : Value) : Prop :=
  ∃ flag, enabled = some flag ∧ IsFlag flag value

theorem readRuleEntry_eq_ok_iff {rule result : RuleConfig} {entry : Entry} :
    readRuleEntry rule entry = .ok result ↔
      entry.1.name = "enabled" ∧ IsSwitch result.enabled entry.2.2 := by
  obtain ⟨enabled⟩ := result
  rw [readRuleEntry]
  split
  next named =>
    rw [bind_pure_eq_ok_iff]
    simp [readBool_eq_ok_iff, named, IsSwitch, -Bool.exists_bool, and_comm]
  next other => simp [other]

def FitsRule (name : String) (value : Value) : Prop := name = "enabled" ∧ ∃ flag, IsFlag flag value

theorem exists_readRuleEntry_iff (rule : RuleConfig) (entry : Entry) :
    (∃ result, readRuleEntry rule entry = .ok result) ↔ FitsRule entry.1.name entry.2.2 := by
  simp only [readRuleEntry_eq_ok_iff, IsSwitch]
  constructor
  · intro ⟨result, named, flag, _, holds⟩
    exact ⟨named, flag, holds⟩
  · intro ⟨named, flag, holds⟩
    exact ⟨⟨some flag⟩, named, flag, rfl, holds⟩

theorem enabled_of_readRule {span : Span} {options : List Entry} (keys : (names options).Nodup)
    {rule : RuleConfig} (read : readRule span (.table options) = .ok rule) :
    Setting IsSwitch none ((Value.table options).get? "enabled") rule.enabled := by
  rw [setting_get?_iff]
  refine setting_of_foldlM RuleConfig.enabled (fun stepped => ?_) keys read
  obtain ⟨named, holds⟩ := readRuleEntry_eq_ok_iff.mp stepped
  rw [Step, if_pos named]
  exact holds

theorem off_iff {found : Option Value} {enabled : Option Bool}
    (setting : Setting IsSwitch none found enabled) :
    enabled = some false ↔ found = some (.boolean false) := by
  cases setting with
  | absent => simp
  | given holds =>
      obtain ⟨flag, rfl, rfl⟩ := holds
      simp

/-! The top table. -/

def ReadsAnalyzer (config : AnalyzerConfig) (entry : Entry) : Prop :=
  readAnalyzer (place entry.2 entry.1) entry.2.2 = .ok config

def ReadsRules (rules : List (String × RuleConfig)) (entry : Entry) : Prop :=
  readRules (place entry.2 entry.1) entry.2.2 = .ok rules

def ReadsRule (rule : RuleConfig) (entry : Entry) : Prop :=
  readRule (place entry.2 entry.1) entry.2.2 = .ok rule

theorem readEntry_eq_ok_iff {config result : Config} {entry : Entry} :
    readEntry config entry = .ok result ↔
      Step ReadsAnalyzer "analyzer" entry config.analyzer result.analyzer ∧
      Step ReadsRules "rules" entry config.rules result.rules := by
  obtain ⟨analyzer, rules⟩ := config
  obtain ⟨analyzer', rules'⟩ := result
  rw [readEntry]
  split
  next named =>
    rw [bind_pure_eq_ok_iff]
    simp [Step, named, ReadsAnalyzer]
  next named =>
    rw [bind_pure_eq_ok_iff]
    simp [Step, named, ReadsRules, and_comm]
  next notAnalyzer notRules =>
    rw [Step, if_neg notAnalyzer, Step, if_neg notRules]
    simp [eq_comm]

theorem exists_readEntry_iff (config : Config) (entry : Entry) :
    (∃ result, readEntry config entry = .ok result) ↔
      (entry.1.name = "analyzer" → ∃ analyzer, ReadsAnalyzer analyzer entry) ∧
      (entry.1.name = "rules" → ∃ rules, ReadsRules rules entry) := by
  simp only [readEntry_eq_ok_iff]
  constructor
  · intro ⟨result, analyzer, rules⟩
    exact ⟨(exists_step_iff entry _).mp ⟨_, analyzer⟩, (exists_step_iff entry _).mp ⟨_, rules⟩⟩
  · intro ⟨tables, lists⟩
    obtain ⟨chosen, analyzer⟩ := (exists_step_iff entry config.analyzer).mpr tables
    obtain ⟨list, rules⟩ := (exists_step_iff entry config.rules).mpr lists
    exact ⟨⟨chosen, list⟩, analyzer, rules⟩

theorem readRules_table_iff {span : Span} {entries : List Entry} {rules : List (String × RuleConfig)} :
    readRules span (.table entries) = .ok rules ↔
      List.Forall₂ (fun entry rule => rule.1 = entry.1.name ∧ ReadsRule rule.2 entry) entries rules := by
  rw [readRules, mapM_eq_ok_iff]
  simp only [bind_pure_eq_ok_iff]
  constructor
  all_goals
    intro pairs
    refine pairs.imp fun entry rule read => ?_
  · obtain ⟨chosen, read, rfl⟩ := read
    exact ⟨rfl, read⟩
  · exact ⟨rule.2, read.2, by rw [← read.1]⟩

theorem lookup_rel_entryOf? {entries : List Entry} {rules : List (String × RuleConfig)}
    (pairs : List.Forall₂ (fun entry rule => rule.1 = entry.1.name ∧ ReadsRule rule.2 entry)
      entries rules) (name : String) :
    Option.Rel ReadsRule (rules.lookup name) (entryOf? entries name) := by
  induction pairs with
  | nil => exact .none
  | @cons entry rule entries rules read rest ih =>
      obtain ⟨key, chosen⟩ := rule
      obtain ⟨rfl, read⟩ := read
      rw [entryOf?_cons, List.lookup_cons]
      by_cases same : entry.1.name = name
      · rw [if_pos same, same, beq_self_eq_true]
        exact .some read
      · rw [if_neg same, beq_false_of_ne (Ne.symm same)]
        exact ih

theorem isRuleEnabled_eq_false_iff {config : Config} {name : String} :
    config.isRuleEnabled name = false ↔
      ∃ rule, config.rules.lookup name = some rule ∧ rule.enabled = some false := by
  rw [isRuleEnabled]
  cases config.rules.lookup name with
  | none => simp
  | some rule => rcases rule with ⟨_ | _ | _⟩ <;> simp

/-- The analyzer's settings are a table and the rules are a table of tables, where they are there. -/
def tabular (document : Value) : Bool :=
  (document.get? "analyzer").all Value.isTable && (document.get? "rules").all Value.holdsTables

/-- Whatever the tables say is of its kind. -/
structure Acceptable (document : Value) : Prop where
  analyzer : ∀ name value, document.at? ["analyzer", name] = some value → Fits name value
  rules : ∀ name option value, document.at? ["rules", name, option] = some value → FitsRule option value

theorem exists_readsAnalyzer_iff {entry : Entry} {entries : List Entry}
    (table : entry.2.2 = .table entries) :
    (∃ analyzer, ReadsAnalyzer analyzer entry) ↔ ∀ inner ∈ entries, Fits inner.1.name inner.2.2 := by
  simp only [ReadsAnalyzer, table, readAnalyzer]
  exact exists_foldlM_iff exists_readAnalyzerEntry_iff

theorem exists_readsRule_iff {entry : Entry} {options : List Entry}
    (table : entry.2.2 = .table options) :
    (∃ rule, ReadsRule rule entry) ↔ ∀ option ∈ options, FitsRule option.1.name option.2.2 := by
  simp only [ReadsRule, table, readRule]
  exact exists_foldlM_iff exists_readRuleEntry_iff

theorem exists_readsRules_iff {entry : Entry} {entries : List Entry}
    (table : entry.2.2 = .table entries) :
    (∃ rules, ReadsRules rules entry) ↔ ∀ inner ∈ entries, ∃ rule, ReadsRule rule inner := by
  simp only [ReadsRules, table, readRules]
  constructor
  · intro ⟨rules, read⟩ inner member
    obtain ⟨chosen, _, read⟩ := exists_value_of_forall₂ (mapM_eq_ok_iff.mp read) inner member
    obtain ⟨rule, read, _⟩ := bind_pure_eq_ok_iff.mp read
    exact ⟨rule, read⟩
  · intro each
    apply mapM_ok_of_forall
    intro inner member
    obtain ⟨rule, read⟩ := each inner member
    exact ⟨_, bind_pure_eq_ok_iff.mpr ⟨rule, read, rfl⟩⟩

theorem lookup_off_iff {entries : List Entry} {rules : List (String × RuleConfig)}
    (distinct : (Value.table entries).Distinct)
    (tables : ∀ entry ∈ entries, ∃ options, entry.2.2 = .table options)
    (pairs : List.Forall₂ (fun entry rule => rule.1 = entry.1.name ∧ ReadsRule rule.2 entry)
      entries rules) (name : String) :
    (∃ rule, rules.lookup name = some rule ∧ rule.enabled = some false) ↔
      (Value.table entries).at? [name, "enabled"] = some (.boolean false) := by
  have related := lookup_rel_entryOf? pairs name
  generalize rules.lookup name = looked at related
  rw [Value.at?_cons, Value.get?]
  cases found : entryOf? entries name with
  | none =>
      rw [found] at related
      cases related
      simp
  | some entry =>
      obtain ⟨member, _⟩ := (entryOf?_eq_some_iff distinct.keys).mp found
      obtain ⟨options, table⟩ := tables entry member
      have keys : (names options).Nodup := Value.Distinct.keys (table ▸ distinct.entry member)
      rw [found] at related
      cases related with
      | some reads =>
          rw [ReadsRule, table] at reads
          rw [Option.map_some, Option.bind_some, table, Value.at?_singleton,
            ← off_iff (enabled_of_readRule keys reads)]
          simp

section

variable {document : List Entry} (distinct : (Value.table document).Distinct)
  (shaped : tabular (.table document) = true)
include distinct shaped

theorem table_of_analyzer {entry : Entry} (member : entry ∈ document)
    (named : entry.1.name = "analyzer") : ∃ entries, entry.2.2 = .table entries := by
  have found := distinct.get?_eq_some_iff.mpr ⟨document, rfl, entry, member, named, rfl⟩
  rw [tabular, found, Bool.and_eq_true, Option.all_some] at shaped
  exact Value.isTable_iff.mp shaped.1

theorem tables_of_rules {entry : Entry} (member : entry ∈ document) (named : entry.1.name = "rules") :
    ∃ entries, entry.2.2 = .table entries ∧ ∀ inner ∈ entries, ∃ options, inner.2.2 = .table options := by
  have found := distinct.get?_eq_some_iff.mpr ⟨document, rfl, entry, member, named, rfl⟩
  rw [tabular, found, Bool.and_eq_true, Option.all_some] at shaped
  exact Value.holdsTables_iff.mp shaped.2

theorem exists_ofToml_iff : (∃ config, ofToml document = .ok config) ↔ Acceptable (.table document) := by
  simp only [ofToml]
  rw [exists_foldlM_iff exists_readEntry_iff]
  constructor
  · intro each
    constructor
    · intro name value found
      obtain ⟨_, same, entry, member, named, entries, table, inner, inside, rfl, rfl⟩ :=
        distinct.at?_eq_some_iff.mp found
      cases same
      exact (exists_readsAnalyzer_iff table).mp ((each entry member).1 named) inner inside
    · intro name key value found
      obtain ⟨_, same, entry, member, named, entries, table, inner, inside, rfl, options, optionTable,
        option, listed, rfl, rfl⟩ := distinct.at?_eq_some_iff.mp found
      cases same
      have read := (exists_readsRules_iff table).mp ((each entry member).2 named) inner inside
      exact (exists_readsRule_iff optionTable).mp read option listed
  · intro acceptable entry member
    constructor
    · intro named
      obtain ⟨entries, table⟩ := table_of_analyzer distinct shaped member named
      rw [exists_readsAnalyzer_iff table]
      intro inner inside
      apply acceptable.analyzer
      exact distinct.at?_eq_some_iff.mpr
        ⟨document, rfl, entry, member, named, entries, table, inner, inside, rfl, rfl⟩
    · intro named
      obtain ⟨entries, table, each⟩ := tables_of_rules distinct shaped member named
      rw [exists_readsRules_iff table]
      intro inner inside
      obtain ⟨options, optionTable⟩ := each inner inside
      rw [exists_readsRule_iff optionTable]
      intro option listed
      apply acceptable.rules inner.1.name
      exact distinct.at?_eq_some_iff.mpr ⟨document, rfl, entry, member, named, entries, table, inner,
        inside, rfl, options, optionTable, option, listed, rfl, rfl⟩

theorem analyzer_setting {α : Type} {means : α → Value → Prop} {name : String}
    (field : AnalyzerConfig → α)
    (steps : ∀ {config entry next}, readAnalyzerEntry config entry = .ok next →
      Step (OfValue means) name entry (field config) (field next))
    {config : Config} (read : ofToml document = .ok config) :
    Setting means (field .default) ((Value.table document).at? ["analyzer", name])
      (field config.analyzer) := by
  have chosen : Setting ReadsAnalyzer .default (entryOf? document "analyzer") config.analyzer :=
    setting_of_foldlM Config.analyzer (fun stepped => (readEntry_eq_ok_iff.mp stepped).1)
      distinct.keys read
  rw [Value.at?_cons, Value.get?]
  cases found : entryOf? document "analyzer" with
  | none =>
      rw [found, setting_none_iff] at chosen
      rw [chosen]
      exact .absent
  | some entry =>
      obtain ⟨member, named⟩ := (entryOf?_eq_some_iff distinct.keys).mp found
      obtain ⟨entries, table⟩ := table_of_analyzer distinct shaped member named
      have keys : (names entries).Nodup := Value.Distinct.keys (table ▸ distinct.entry member)
      rw [found, setting_some_iff, ReadsAnalyzer, table] at chosen
      rw [Option.map_some, Option.bind_some, table, Value.at?_singleton, setting_get?_iff]
      exact setting_of_foldlM field steps keys chosen

theorem isRuleEnabled_iff {config : Config} (read : ofToml document = .ok config) (name : String) :
    config.isRuleEnabled name = false ↔
      (Value.table document).at? ["rules", name, "enabled"] = some (.boolean false) := by
  have chosen : Setting ReadsRules [] (entryOf? document "rules") config.rules :=
    setting_of_foldlM Config.rules (fun stepped => (readEntry_eq_ok_iff.mp stepped).2)
      distinct.keys read
  rw [isRuleEnabled_eq_false_iff, Value.at?_cons, Value.get?]
  cases found : entryOf? document "rules" with
  | none =>
      rw [found, setting_none_iff] at chosen
      simp [chosen]
  | some entry =>
      obtain ⟨member, named⟩ := (entryOf?_eq_some_iff distinct.keys).mp found
      obtain ⟨entries, table, each⟩ := tables_of_rules distinct shaped member named
      rw [found, setting_some_iff, ReadsRules, table, readRules_table_iff] at chosen
      rw [Option.map_some, Option.bind_some, table]
      exact lookup_off_iff (table ▸ distinct.entry member) each chosen name

end

def restrict (fields : List String) : Value → Value
  | .table entries => .table (entries.filter fun entry => fields.contains entry.1.name)
  | other => other

/-- The part of a document that means something: the tables of the analyzer and of the rules, and of
the former the entries that it knows. -/
def knownPart (document : List Entry) : List Entry :=
  (document.filter fun entry => ["analyzer", "rules"].contains entry.1.name).map fun entry =>
    if entry.1.name = "analyzer" then (entry.1, entry.2.1, restrict analyzerFields entry.2.2) else entry

theorem readAnalyzerEntry_of_unknown (config : AnalyzerConfig) (entry : Entry)
    (unknown : analyzerFields.contains entry.1.name = false) :
    readAnalyzerEntry config entry = .ok config := by
  have other : entry.1.name ∉ analyzerFields := by simpa using unknown
  rw [readAnalyzerEntry]
  split
  all_goals simp_all [analyzerFields]

theorem readAnalyzer_restrict (span : Span) (value : Value) :
    readAnalyzer span (restrict analyzerFields value) = readAnalyzer span value := by
  cases value with
  | table entries =>
      rw [restrict, readAnalyzer, readAnalyzer]
      exact foldlM_filter_of_skip readAnalyzerEntry_of_unknown entries _
  | _ => rfl

theorem ofToml_knownPart (document : List Entry) : ofToml (knownPart document) = ofToml document := by
  have restricted (config : Config) (entry : Entry) : readEntry config
      (if entry.1.name = "analyzer" then (entry.1, entry.2.1, restrict analyzerFields entry.2.2)
        else entry) = readEntry config entry := by
    split
    next named =>
      simp only [readEntry, named]
      rw [readAnalyzer_restrict]
      rfl
    next => rfl
  have skips (config : Config) (entry : Entry)
      (unknown : ["analyzer", "rules"].contains entry.1.name = false) :
      readEntry config entry = .ok config := by
    rw [readEntry]
    split
    all_goals simp_all
  calc ofToml (knownPart document)
      = (document.filter fun entry => ["analyzer", "rules"].contains entry.1.name).foldlM readEntry
          default := by
        rw [ofToml, knownPart, List.foldlM_map]
        simp only [restricted]
    _ = ofToml document := foldlM_filter_of_skip skips document default

/-- A reader of documents in which no table has a key twice. -/
def KeepsKeysApart (reader : Toml.Reader) : Prop :=
  ∀ text document, reader text = some document → (Value.table document).Distinct

theorem keepsKeysApart_parse? : KeepsKeysApart Toml.parse? := fun _ _ read => distinct_of_parse? read

/-- A document in which the analyzer and the rules are tables is accepted if and only if each setting
has a value of its kind and rules have no option but `enabled`. Names that mean nothing do not count,
each setting that is absent has its own default, and a rule is off if and only if it is switched off. -/
theorem parse_reads_off_document {reader : Toml.Reader} (apart : KeepsKeysApart reader) {text : String}
    {document : List Entry} (read : reader text = some document)
    (shaped : tabular (.table document) = true) :
    ((∃ config, parse reader text = .ok config) ↔ Acceptable (.table document)) ∧
    parse reader text = ofToml (knownPart document) ∧
    ∀ config, parse reader text = .ok config →
      Setting IsPath AnalyzerConfig.default.root ((Value.table document).at? ["analyzer", "root"])
        config.analyzer.root ∧
      Setting IsTexts AnalyzerConfig.default.exclude
        ((Value.table document).at? ["analyzer", "exclude"]) config.analyzer.exclude ∧
      Setting IsFlag AnalyzerConfig.default.respectGitignore
        ((Value.table document).at? ["analyzer", "respect_gitignore"])
        config.analyzer.respectGitignore ∧
      ∀ name, config.isRuleEnabled name = false ↔
        (Value.table document).at? ["rules", name, "enabled"] = some (.boolean false) := by
  have parsed : parse reader text = ofToml document := by rw [parse, read]
  have distinct : (Value.table document).Distinct := apart text document read
  rw [parsed, ofToml_knownPart]
  refine ⟨exists_ofToml_iff distinct shaped, rfl, ?_⟩
  intro config accepted
  have analyzer {α : Type} {means : α → Value → Prop} {name : String} :=
    @analyzer_setting document distinct shaped α means name
  refine ⟨analyzer AnalyzerConfig.root ?_ accepted, analyzer AnalyzerConfig.exclude ?_ accepted,
    analyzer AnalyzerConfig.respectGitignore ?_ accepted, isRuleEnabled_iff distinct shaped accepted⟩
  all_goals
    intro config entry next stepped
    simp only [readAnalyzerEntry_eq_ok_iff] at stepped
  · exact stepped.1
  · exact stepped.2.1
  · exact stepped.2.2

def halfWrittenText : String :=
  "title = 1\n[analyzer]\nexclude = [\"gen\"]\nlevel = \"x\"\n[rules.egret]\nenabled = false\n[rules.heron]\n"

def halfWrittenConfig : Config where
  analyzer := { AnalyzerConfig.default with exclude := ["gen"] }
  rules := [("egret", ⟨some false⟩), ("heron", ⟨none⟩)]

theorem halfWrittenText_parse : parse Toml.parse? halfWrittenText = .ok halfWrittenConfig := by
  have evaluated : (parse Toml.parse? halfWrittenText).toOption = some halfWrittenConfig := by
    decide +kernel
  cases known : parse Toml.parse? halfWrittenText with
  | error error => simp [known, Except.toOption] at evaluated
  | ok config => simpa [known, Except.toOption] using evaluated

theorem halfWrittenText_settings : ∃ document, Toml.parse? halfWrittenText = some document ∧
    tabular (.table document) = true ∧ parse Toml.parse? halfWrittenText = .ok halfWrittenConfig ∧
    Acceptable (.table document) ∧
    Setting IsTexts AnalyzerConfig.default.exclude ((Value.table document).at? ["analyzer", "exclude"])
      ["gen"] ∧
    (Value.table document).at? ["rules", "egret", "enabled"] = some (.boolean false) ∧
    (Value.table document).at? ["rules", "heron", "enabled"] ≠ some (.boolean false) := by
  have evaluated :
      (Toml.parse? halfWrittenText).any (fun document => tabular (.table document)) = true := by
    decide +kernel
  obtain ⟨document, read, shaped⟩ := (Option.any_eq_true _ _).mp evaluated
  obtain ⟨accepts, _, settings⟩ := parse_reads_off_document keepsKeysApart_parse? read shaped
  obtain ⟨_, exclude, _, rules⟩ := settings halfWrittenConfig halfWrittenText_parse
  refine ⟨document, read, shaped, halfWrittenText_parse, ?_, exclude, ?_, ?_⟩
  · exact accepts.mp ⟨halfWrittenConfig, halfWrittenText_parse⟩
  · exact (rules "egret").mp (by decide)
  · intro off
    have enabled := (rules "heron").mpr off
    revert enabled
    decide

end NamingLint.Config
