import NamingLint.Cli.Output
import NamingLint.Proofs.Except
import NamingLint.Proofs.Path.Join

/-! The sources that text output shows.

The source of the last file that was read is kept for the next violation. It is used for a file with the
same components only, so each violation is shown with what a read of its own file gives. The renderer that
shows a violation in its source may be any, and may fail. -/

namespace NamingLint.Cli

open Snippet (Diagnostic Renderer)

/-- Reads that take paths with the same components for the same file. -/
def ByComponents (read : Path → Option String) : Prop :=
  ∀ p q : Path, p.components = q.components → read p = read q

def Cache.after (read : Path → Option String) (files : List Path) : Cache :=
  files.foldl (Cache.fetch read) none

namespace Cache

def Fresh (read : Path → Option String) (cache : Cache) : Prop :=
  ∀ known text, cache = some (known, text) → read known = some text

variable {read : Path → Option String} {cache : Cache}

theorem fresh_none (read : Path → Option String) : Fresh read none := nofun

theorem fresh_read (read : Path → Option String) (file : Path) :
    Fresh read ((read file).map fun text => (file, text)) := by
  intro known text kept
  obtain ⟨found, isRead, same⟩ := Option.map_eq_some_iff.mp kept
  cases same
  exact isRead

theorem fetch_cases (cache : Cache) (read : Path → Option String) (file : Path) :
    (∃ known text, cache = some (known, text) ∧ known.components = file.components ∧
      cache.fetch read file = cache) ∨
    cache.fetch read file = (read file).map fun text => (file, text) := by
  cases cache with
  | none => exact Or.inr rfl
  | some entry =>
      rw [fetch]
      split
      · rename_i same
        exact Or.inl ⟨entry.1, entry.2, rfl, same, rfl⟩
      · exact Or.inr rfl

theorem Fresh.fetch (fresh : Fresh read cache) (file : Path) : Fresh read (cache.fetch read file) := by
  rcases fetch_cases cache read file with ⟨_, _, _, _, stays⟩ | again
  · rw [stays]
    exact fresh
  · rw [again]
    exact fresh_read read file

theorem Fresh.fetch_text (byComponents : ByComponents read) (fresh : Fresh read cache) (file : Path) :
    (cache.fetch read file).map Prod.snd = read file := by
  rcases fetch_cases cache read file with ⟨known, text, kept, same, stays⟩ | again
  · calc
      (cache.fetch read file).map Prod.snd = some text := by rw [stays, kept, Option.map_some]
      _ = read known := (fresh known text kept).symm
      _ = read file := byComponents known file same
  · rw [again, Option.map_map]
    exact Option.map_id'

theorem fetch_file {file known : Path} {text : String}
    (kept : cache.fetch read file = some (known, text)) : known.components = file.components := by
  rcases fetch_cases cache read file with ⟨_, _, before, same, stays⟩ | again
  · rw [stays, before] at kept
    cases kept
    exact same
  · rw [again] at kept
    obtain ⟨_, _, entry⟩ := Option.map_eq_some_iff.mp kept
    cases entry
    rfl

theorem after_concat (read : Path → Option String) (files : List Path) (file : Path) :
    after read (files ++ [file]) = (after read files).fetch read file := by
  rw [after, List.foldl_append]
  rfl

theorem fresh_after (read : Path → Option String) (files : List Path) :
    Fresh read (Cache.after read files) := by
  induction files using List.reverseRecOn with
  | nil => exact fresh_none read
  | append_singleton files file ih =>
      rw [after_concat]
      exact ih.fetch file

end Cache

structure Poses (v : Violation) (source : String) (d : Diagnostic) : Prop where
  name : d.name = v.location.file.text
  source : d.source = source
  heading : d.heading = "[" ++ v.code ++ "] " ++ v.message
  label : d.label = v.rule
  span : d.span = ⟨v.location.offset, v.location.length⟩

/-- What is printed of a violation alone, with a line feed behind: in its source if a read gives one, as
the renderer shows it, and in plain words if not. -/
inductive Shown (renderer : Renderer) (read : Path → Option String) (v : Violation) : String → Prop
  | framed (source : String) (d : Diagnostic) (text : String)
      (readable : read v.location.file = some source) (poses : Poses v source d)
      (rendered : renderer d = some text) : Shown renderer read v (text ++ "\n")
  | plain (unreadable : read v.location.file = none) :
      Shown renderer read v (v.code ++ " " ++ v.rule ++ " at " ++ v.location.file.text ++ ":" ++
        toString v.location.line ++ ":" ++ toString v.location.column ++ "\n  " ++ v.severity.word ++
        ": " ++ v.message ++ "\n" ++ "\n")

def Refused (renderer : Renderer) (read : Path → Option String) (v : Violation) : Prop :=
  ∃ source d, read v.location.file = some source ∧ Poses v source d ∧ renderer d = none

section Render

variable {renderer : Renderer} {read : Path → Option String} {v : Violation}

theorem poses_iff {source : String} {d : Diagnostic} : Poses v source d ↔ d = diagnostic v source := by
  constructor
  · rintro ⟨name, source, heading, label, span⟩
    cases d
    simp only at name source heading label span
    simp only [name, source, heading, label, span, diagnostic, Violation.heading]
  · rintro rfl
    exact ⟨rfl, rfl, rfl, rfl, rfl⟩

theorem renderOne_eq_some_iff {piece : String} :
    renderOne renderer v (read v.location.file) = some piece ↔ Shown renderer read v piece := by
  have words : v.report ++ "\n" = v.code ++ " " ++ v.rule ++ " at " ++ v.location.file.text ++ ":" ++
      toString v.location.line ++ ":" ++ toString v.location.column ++ "\n  " ++ v.severity.word ++
      ": " ++ v.message ++ "\n" ++ "\n" := by
    simp only [Violation.report, Violation.place, String.append_assoc]
  constructor
  · intro shown
    cases outcome : read v.location.file with
    | none =>
        rw [outcome, renderOne, Option.some.injEq, words] at shown
        rw [← shown]
        exact .plain outcome
    | some source =>
        rw [outcome] at shown
        obtain ⟨text, rendered, rfl⟩ := Option.map_eq_some_iff.mp shown
        exact .framed source _ text outcome (poses_iff.mpr rfl) rendered
  · intro shown
    cases shown with
    | framed source d text readable poses rendered =>
        rw [poses_iff.mp poses] at rendered
        rw [readable, renderOne, rendered, Option.map_some]
    | plain unreadable => rw [unreadable, renderOne, words]

theorem renderOne_eq_none_iff :
    renderOne renderer v (read v.location.file) = none ↔ Refused renderer read v := by
  constructor
  · intro fails
    cases outcome : read v.location.file with
    | none =>
        rw [outcome] at fails
        cases fails
    | some source =>
        rw [outcome] at fails
        exact ⟨source, _, outcome, poses_iff.mpr rfl, Option.map_eq_none_iff.mp fails⟩
  · rintro ⟨source, d, readable, poses, fails⟩
    rw [poses_iff.mp poses] at fails
    rw [readable, renderOne, fails, Option.map_none]

theorem renderAll_cons (byComponents : ByComponents read) {cache : Cache} (fresh : cache.Fresh read)
    (violations : List Violation) :
    renderAll renderer read cache (v :: violations) = do
      let shown ← renderOne renderer v (read v.location.file)
      return shown ++ (← renderAll renderer read (cache.fetch read v.location.file) violations) := by
  rw [renderAll]
  simp only [fresh.fetch_text byComponents]

theorem renderAll_eq_some_iff (byComponents : ByComponents read) {cache : Cache}
    (fresh : cache.Fresh read) {violations : List Violation} {out : String} :
    renderAll renderer read cache violations = some out ↔
      ∃ pieces, List.Forall₂ (Shown renderer read) violations pieces ∧ out = String.join pieces := by
  induction violations generalizing cache out with
  | nil =>
      simp only [renderAll, Option.some.injEq, List.forall₂_nil_left_iff, exists_eq_left]
      exact eq_comm
  | cons v violations ih =>
      rw [renderAll_cons byComponents fresh]
      simp only [Option.bind_eq_bind, Option.bind_eq_some_iff, Option.pure_def, Option.some.injEq,
        renderOne_eq_some_iff, ih (fresh.fetch v.location.file)]
      constructor
      · rintro ⟨piece, first, _, ⟨pieces, later, rfl⟩, rfl⟩
        exact ⟨piece :: pieces, .cons first later, (String.join_cons ..).symm⟩
      · rintro ⟨_, all, rfl⟩
        cases all with
        | cons first later => exact ⟨_, first, _, ⟨_, later, rfl⟩, (String.join_cons ..).symm⟩

theorem renderAll_eq_none_iff (byComponents : ByComponents read) {cache : Cache}
    (fresh : cache.Fresh read) {violations : List Violation} :
    renderAll renderer read cache violations = none ↔
      ∃ before v after, violations = before ++ v :: after ∧
        (∀ w ∈ before, ∃ piece, Shown renderer read w piece) ∧ Refused renderer read v := by
  induction violations generalizing cache with
  | nil => simp [renderAll]
  | cons v violations ih =>
      rw [renderAll_cons byComponents fresh, exists_first_cons_iff,
        ← ih (fresh.fetch v.location.file), ← renderOne_eq_none_iff]
      simp only [← renderOne_eq_some_iff]
      cases renderOne renderer v (read v.location.file) with
      | none => simp
      | some piece => cases renderAll renderer read (cache.fetch read v.location.file) violations <;> simp

end Render

/-- Text output is what is printed of each violation alone, one after the other, each with a read of its
own file behind the root. There is none exactly if the renderer fails on some violation, and the first such
violation ends the output. After any files that were asked for, what is kept is a read of the last one:
nothing if that fails, and never the source of a file with other components. -/
theorem renderText_reads_each_afresh (renderer : Renderer) (root : Path) {read : Path → Option String}
    (byComponents : ByComponents read) (result : LintResult) :
    (∀ out, renderText renderer (fun file => read (root.join file)) result = some out ↔
      ∃ pieces, List.Forall₂ (Shown renderer fun file => read (root.join file)) result.violations pieces ∧
        out = String.join pieces) ∧
    (renderText renderer (fun file => read (root.join file)) result = none ↔
      ∃ before v after, result.violations = before ++ v :: after ∧
        (∀ w ∈ before, ∃ piece, Shown renderer (fun file => read (root.join file)) w piece) ∧
        Refused renderer (fun file => read (root.join file)) v) ∧
    ∀ files file,
      (Cache.after (fun file => read (root.join file)) (files ++ [file])).map Prod.snd =
        read (root.join file) ∧
      ∀ known text, Cache.after (fun file => read (root.join file)) (files ++ [file]) =
        some (known, text) → known.components = file.components := by
  have behind : ByComponents fun file => read (root.join file) := by
    intro p q same
    exact byComponents _ _ (Path.components_join_congr root same)
  have nothing := Cache.fresh_none fun file => read (root.join file)
  refine ⟨fun out => renderAll_eq_some_iff behind nothing, renderAll_eq_none_iff behind nothing, ?_⟩
  intro files file
  rw [Cache.after_concat]
  constructor
  · exact (Cache.fresh_after _ files).fetch_text behind file
  · intro known text kept
    exact Cache.fetch_file kept

def readHall (p : Path) : Option String :=
  if p.components = [.root, .normal "p", .normal "Hall.ts"] then some "class hall {}\n" else none

def hallViolation (file : String) (length : Nat) : Violation :=
  ⟨"EG001", "ts-egret", .error, ⟨⟨file⟩, 1, 1, 0, length⟩, "Class names must be PascalCase"⟩

def headline : Renderer := fun d =>
  if d.span.stop ≤ Text.byteLength d.source.toList then
    some (d.name ++ ": " ++ d.heading ++ " (" ++ d.label ++ ")")
  else none

theorem readHall_byComponents : ByComponents readHall := by
  intro p q same
  rw [readHall, readHall, same]

/-- A violation in a file that is gone stands between two of one file, which is written in two ways. Then
one of them has a span that ends behind the source. -/
theorem readHall_renders_between_failures :
    renderText headline (fun file => readHall (Path.join ⟨"/p/"⟩ file))
      ⟨[hallViolation "Hall.ts" 13, hallViolation "gone.ts" 13, hallViolation "Hall.ts/." 13], 2⟩ =
      some ("Hall.ts: [EG001] Class names must be PascalCase (ts-egret)\n" ++
        "EG001 ts-egret at gone.ts:1:1\n  error: Class names must be PascalCase\n\n" ++
        "Hall.ts/.: [EG001] Class names must be PascalCase (ts-egret)\n") ∧
    renderText headline (fun file => readHall (Path.join ⟨"/p/"⟩ file))
      ⟨[hallViolation "gone.ts" 99, hallViolation "Hall.ts" 99, hallViolation "Hall.ts" 13], 2⟩ = none ∧
    Cache.after (fun file => readHall (Path.join ⟨"/p/"⟩ file)) [⟨"Hall.ts"⟩, ⟨"gone.ts"⟩] = none := by
  have found : readHall (Path.join ⟨"/p/"⟩ ⟨"Hall.ts"⟩) = some "class hall {}\n" := by decide +kernel
  have again : readHall (Path.join ⟨"/p/"⟩ ⟨"Hall.ts/."⟩) = some "class hall {}\n" := by decide +kernel
  have failed : readHall (Path.join ⟨"/p/"⟩ ⟨"gone.ts"⟩) = none := by decide +kernel
  refine ⟨?_, ?_, ?_⟩
  · apply ((renderText_reads_each_afresh headline ⟨"/p/"⟩ readHall_byComponents _).1 _).mpr
    have first : Shown headline (fun file => readHall (Path.join ⟨"/p/"⟩ file))
        (hallViolation "Hall.ts" 13) _ :=
      .framed _ ⟨"Hall.ts", _, _, _, _⟩ "Hall.ts: [EG001] Class names must be PascalCase (ts-egret)" found
        ⟨rfl, rfl, rfl, rfl, rfl⟩ (by decide +kernel)
    have last : Shown headline (fun file => readHall (Path.join ⟨"/p/"⟩ file))
        (hallViolation "Hall.ts/." 13) _ :=
      .framed _ ⟨"Hall.ts/.", _, _, _, _⟩ "Hall.ts/.: [EG001] Class names must be PascalCase (ts-egret)"
        again ⟨rfl, rfl, rfl, rfl, rfl⟩ (by decide +kernel)
    exact ⟨_, .cons first (.cons (.plain failed) (.cons last .nil)), by decide +kernel⟩
  · apply (renderText_reads_each_afresh headline ⟨"/p/"⟩ readHall_byComponents _).2.1.mpr
    refine ⟨[hallViolation "gone.ts" 99], hallViolation "Hall.ts" 99, _, rfl, ?_, ?_⟩
    · intro w member
      rw [List.mem_singleton] at member
      subst member
      exact ⟨_, .plain failed⟩
    · exact ⟨_, ⟨"Hall.ts", _, _, _, _⟩, found, ⟨rfl, rfl, rfl, rfl, rfl⟩, by decide +kernel⟩
  · have last := ((renderText_reads_each_afresh headline ⟨"/p/"⟩ readHall_byComponents ⟨[], 0⟩).2.2
      [⟨"Hall.ts"⟩] ⟨"gone.ts"⟩).1
    rw [failed, Option.map_eq_none_iff] at last
    exact last

end NamingLint.Cli
