import NamingLint.Proofs.Concrete.Faults
import NamingLint.Proofs.Text.ByteColumns
import NamingLint.Report

/-! Where syntax errors are reported, against where violations are.

A syntax error is placed by the bytes in front of it and a violation by the characters in front of it. -/

namespace NamingLint

open Text (IsBoundary IsAscii Position lastLine)

/-- A syntax error that is reported at a boundary has the line of a violation there. Its column is that of
the bytes in front of it, so it is never smaller, and the same exactly if all characters between the last
line feed and the boundary are ASCII. -/
theorem syntaxError_position_against_location (source : String) (label : Concrete.Label)
    (bounds : IsBoundary source.toList label.start) :
    ∃ front line column, Text.takeBytes? label.start source.toList = some front ∧
      Position.mk line column =
        .behindBytes ((Text.bytes source.toList).take label.start) ∧
      (∀ languageId extensions grammar root, grammar source = some root →
        root.errorLabel? = some label →
        (Parser.ofGrammar languageId extensions grammar).parse source =
          .error (.syntaxError line column)) ∧
      ∀ (file : SourceFile) (span : Span), file.content = source → span.offset = label.start →
        (file.location span).line = line ∧ (file.location span).column ≤ column ∧
        ((file.location span).column = column ↔ ∀ c ∈ lastLine front, IsAscii c) := by
  obtain ⟨front, ⟨rest, whole⟩, before⟩ := Text.isBoundary_iff.mp bounds
  have taken := Text.takeBytes?_eq_some_iff.mpr ⟨rest, whole.symm, before⟩
  have inBytes : Position.ofOffsetInBytes label.start source.toList =
      ⟨front.count '\n' + 1, Text.byteLength (lastLine front) + 1⟩ := by
    rw [← whole, ← before, Position.ofOffsetInBytes_append, Position.behindBytes_bytes]
  refine ⟨front, front.count '\n' + 1, Text.byteLength (lastLine front) + 1, taken, ?_, ?_, ?_⟩
  · rw [← whole, ← before, Text.take_bytes_append, Position.behindBytes_bytes]
  · intro languageId extensions grammar root read reported
    simp only [Parser.ofGrammar, read, Parser.ofConcrete, reported, Parser.errorAt, inBytes]
  · intro file span content offset
    have inCharacters : Position.ofOffset span.offset file.content.toList =
        ⟨front.count '\n' + 1, (lastLine front).length + 1⟩ := by
      rw [content, offset, ← whole, ← before, Position.ofOffset_append]
    have shorter := Text.length_le_byteLength (lastLine front)
    simp only [SourceFile.location, inCharacters, ← Text.length_eq_byteLength_iff]
    refine ⟨trivial, ?_, ?_⟩
    · omega
    · omega

section Sample

open Concrete (Node)

def wideText : String := "// é\nconst s = \"😀😀\"; class b  \x7d \x7d"

def wideFault : Concrete.Label := ⟨.other "ERROR", true, true, false, true, 28, 40, none⟩

def wideProgram : Node :=
  .flagged (.other "program") 0 40 none
    [.inner .comment 0 5 none [],
      .inner .lexicalDeclaration 6 27 none
        [.token "const" 6 11,
          .inner .variableDeclarator 12 26 none
            [.inner .identifier 12 13 (some .name) [], .token "=" 14 15,
              .inner .string 16 26 (some .value) []],
          .token ";" 26 27],
      .mk wideFault
        [.token "class" 28 33, .inner .identifier 34 35 none [], .token "\x7d" 37 38,
          .token "\x7d" 39 40]]

theorem wideProgram_error :
    IsBoundary wideText.toList wideFault.start ∧
    (Parser.typescript fun _ => some wideProgram).parse wideText = .error (.syntaxError 2 23) ∧
    ((SourceFile.ofPath ⟨"/work/a.ts"⟩ wideText ⟨"/work"⟩).location ⟨28, 12⟩).line = 2 ∧
    ((SourceFile.ofPath ⟨"/work/a.ts"⟩ wideText ⟨"/work"⟩).location ⟨28, 12⟩).column ≤ 23 ∧
    ((SourceFile.ofPath ⟨"/work/a.ts"⟩ wideText ⟨"/work"⟩).location ⟨28, 12⟩).column ≠ 23 := by
  have bounds : IsBoundary wideText.toList wideFault.start := by decide
  obtain ⟨front, line, column, taken, placed, reported, against⟩ :=
    syntaxError_position_against_location wideText wideFault bounds
  have behind : Position.behindBytes ((Text.bytes wideText.toList).take wideFault.start) = ⟨2, 23⟩ := by
    decide +kernel
  rw [behind, Position.mk.injEq] at placed
  obtain ⟨rfl, rfl⟩ := placed
  obtain ⟨sameLine, smaller, same⟩ :=
    against (.ofPath ⟨"/work/a.ts"⟩ wideText ⟨"/work"⟩) ⟨28, 12⟩ rfl rfl
  have wide : ∃ c ∈ lastLine front, ¬ IsAscii c := by
    have known : Text.takeBytes? wideFault.start wideText.toList =
        some "// é\nconst s = \"😀😀\"; ".toList := by
      decide +kernel
    rw [taken, Option.some.injEq] at known
    rw [known]
    exact ⟨'😀', by decide, by decide⟩
  refine ⟨bounds, reported _ _ _ wideProgram rfl (by decide), sameLine, smaller, ?_⟩
  intro equal
  obtain ⟨c, member, notAscii⟩ := wide
  exact notAscii (same.mp equal c member)

end Sample

end NamingLint
