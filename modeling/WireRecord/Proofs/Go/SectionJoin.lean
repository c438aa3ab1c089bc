/-
Source files as joins of their sections.

A source file is written piece by piece, with a break before some pieces and behind others, because what
stands before the first record is optional. The main result, `source_text_joins_sections`, says that what
an unlimited sink gets is the same as if the sections were joined, with one blank line between each two
and a line break at the end: the remark that the file is generated, if it is wanted; the package clause;
the import, if some member is an integer; and then, for each record, what a type definition and what a
serializer give when they are emitted alone. If names and tags stay on their lines, a blank line between
two sections is the only kind of blank line there is.

Sections are told apart by blank lines in another place already, as blocks of lines (`text_emitSource`).
That the blocks are the sections is left to say here (`map_ofLines_sourceBlocks`), and what follows from
blocks having no empty lines is a fact about texts of blocks (`Text.exists_cons_of_ofBlocks_eq`).
-/
import WireRecord.Proofs.Emission.Sequence
import WireRecord.Proofs.Go.Sections

set_option autoImplicit false

namespace WireRecord

open Emission
open Text (IsLine ofLines ofBlocks)

namespace Go

/-- The sections of a source file, in the order in which they stand in it. -/
def sections (options : SourceOptions) (records : List Record) : List String :=
  (if options.banner then ["// Code generated by struct-gen. DO NOT EDIT."] else [])
    ++ ["package " ++ options.package]
    ++ (if records.any fun r => r.members.any (·.tag.isInteger) then ["import \"encoding/binary\""]
        else [])
    ++ records.flatMap fun r => [(emitDefinition r).text, (emitSerializer r).text]

/-- The members of the records decide about the import, although it is the slots that are looked at. -/
theorem needsBinaryImport_eq_any_members (records : List Record) :
    needsBinaryImport records = records.any fun r => r.members.any (·.tag.isInteger) := by
  exact congrArg records.any (funext Record.any_isInteger_slots)

/-- The blocks of a source file are its sections. -/
theorem map_ofLines_sourceBlocks (options : SourceOptions) (records : List Record) :
    (sourceBlocks options records).map ofLines = sections options records := by
  have hoptional : ∀ (wanted : Bool) (line : String),
      (if wanted then [[line]] else []).map ofLines = if wanted then [line] else [] := by
    intro wanted line
    cases wanted
    · rfl
    · exact congrArg ([·]) String.intercalate_singleton
  have hclause : ofLines [packageClause options.package] = "package " ++ options.package :=
    String.intercalate_singleton
  have hrecords : (records.flatMap recordBlocks).map ofLines =
      records.flatMap fun r => [(emitDefinition r).text, (emitSerializer r).text] := by
    rw [List.map_flatMap]
    refine congrArg (records.flatMap ·) (funext fun r => ?_)
    rw [text_emitDefinition, text_emitSerializer, definition_eq_ofLines, serializer_eq_ofLines]
    rfl
  rw [sourceBlocks, headerBlocks, List.map_append, List.map_append, List.map_cons, hoptional,
    hoptional, hclause, hrecords, needsBinaryImport_eq_any_members, sections, List.append_cons]
  rfl

/-- **A source file is the join of its sections**, with one blank line between each two and a line break
at the end; and of a record it has what is emitted for the record alone. If the package, the names and
the tags stay on their lines, there are never three line breaks one behind the other, and exactly one at
the end. -/
theorem source_text_joins_sections (options : SourceOptions) (records : List Record) :
    let text := "\n\n".intercalate (sections options records) ++ "\n"
    complete (emitSource options records) = textBytes text ∧
    (∀ r, complete (emitDefinition r) = textBytes (emitDefinition r).text ∧
      complete (emitSerializer r) = textBytes (emitSerializer r).text) ∧
    (IsLine options.package → (∀ r ∈ records, r.OnLines) →
      ¬"\n\n\n".toList <:+: text.toList ∧ "\n".toList <:+ text.toList ∧
        ¬"\n\n".toList <:+ text.toList) := by
  intro text
  have htext : ofBlocks (sourceBlocks options records) = text := by
    rw [ofBlocks, map_ofLines_sourceBlocks]
  refine ⟨?_, fun r => ⟨complete_eq_bytes _, complete_eq_bytes _⟩, ?_⟩
  · rw [complete_eq_bytes, bytes, text_emitSource, htext]
  · intro hpackage hrecords
    have hbehind : ∀ before after : List Char, text.toList = before ++ '\n' :: '\n' :: after →
        ∃ c rest, after = c :: rest ∧ c ≠ '\n' := by
      intro before after hcut
      rw [← htext] at hcut
      exact Text.exists_cons_of_ofBlocks_eq (isBlock_of_mem_sourceBlocks hpackage hrecords)
        (sourceBlocks_ne_nil options records) hcut
    refine ⟨?_, ?_, ?_⟩
    · rintro ⟨before, after, hthree⟩
      obtain ⟨c, rest, hafter, hc⟩ := hbehind before ('\n' :: after) (by simpa using hthree.symm)
      exact hc (List.cons.inj hafter).1.symm
    · exact ⟨_, String.toList_append.symm⟩
    · rintro ⟨before, htwo⟩
      obtain ⟨c, rest, hafter, -⟩ := hbehind before [] htwo.symm
      cases hafter

/-- A record in which all is empty that can be. -/
def blankRecord : Record where
  name := ""
  members := [{ name := "", tag := .other "", size := 0 }]

/-- Empty names and texts make no blank lines. -/
theorem source_text_joins_sections_blank :
    IsLine "" ∧ (∀ r ∈ [blankRecord], r.OnLines) ∧
      sections { package := "", banner := false } [blankRecord] =
        ["package ", "type  struct \x7b\n\t \n\x7d",
          "func ( ) MarshalBinary() ([]byte, error) \x7b\n\tvar buf [0]byte\n\treturn nil\n\x7d"] ∧
      ¬"\n\n\n".toList <:+: ("\n\n".intercalate
        (sections { package := "", banner := false } [blankRecord]) ++ "\n").toList := by
  have hpackage : IsLine "" := by decide
  have hblank : ∀ r ∈ [blankRecord], r.OnLines := by
    rw [List.forall_mem_singleton]
    exact ⟨by decide, by decide, by decide⟩
  obtain ⟨-, -, hlines⟩ :=
    source_text_joins_sections { package := "", banner := false } [blankRecord]
  exact ⟨hpackage, hblank, by decide +kernel, (hlines hpackage hblank).1⟩

end Go

end WireRecord
