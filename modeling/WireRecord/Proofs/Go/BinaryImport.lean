/-
The import of a source file.

A source file that stores no integer must not import the package that stores integers, and one that
does must. Whether it is imported is decided before any statement is made, from the layouts alone. The
main result, `imports_binary_iff`, says that the decision is right: the import stands between the
package clause and the first type definition if and only if a line of some serializer calls the
package, and that is the case if and only if a member of some record is an integer. A record without
integers makes no difference to the import, however its members and their types are spelled.

Both decisions are tied to the slots. The one taken in advance looks at nothing else, so all that is
to be said about it is where the import stands in the text (`importsBinary_iff_needsBinaryImport`).
The lines of a serializer are known one by one, and only a statement for an integer begins with the
name of the package (`callsBinary_serializer_iff`).
-/
import WireRecord.Proofs.Go.Sections

set_option autoImplicit false

namespace WireRecord

theorem TypeTag.isInteger_iff_width {t : TypeTag} :
    t.isInteger = true ↔ ∃ width, t = .unsigned width ∨ t = .signed width := by
  cases t <;> simp [isInteger]

/-- A record has a slot for an integer exactly if a member is one. -/
theorem Record.exists_isInteger_iff {r : Record} :
    (∃ s ∈ r.layout.slots, s.isInteger = true) ↔
      ∃ m ∈ r.members, ∃ width, m.tag = .unsigned width ∨ m.tag = .signed width := by
  rw [← List.any_eq_true, any_isInteger_slots, List.any_eq_true]
  exact exists_congr fun m => and_congr_right fun _ => TypeTag.isInteger_iff_width

namespace Go

open Emission

/-! ## Calls in a serializer -/

/-- Some line of a text is a statement that calls the package that stores integers. -/
def CallsBinary (text : String) : Prop :=
  ∃ line ∈ Text.lines text, "\tbinary.".toList <+: line.toList

/-- Of the statements only those for integers begin with the name of the package. -/
theorem prefix_statement_iff {receiver statement : String} {s : Slot}
    (h : statement? receiver s = some statement) :
    "\tbinary.".toList <+: ("\t" ++ statement).toList ↔ s.isInteger = true := by
  rw [statement?_eq] at h
  obtain ⟨e, he, rfl⟩ := Option.map_eq_some_iff.mp h
  rw [Slot.isInteger, he]
  cases e with
  | put signed width =>
    refine iff_of_true ?_ rfl
    -- the name of the package opens both byte orders
    cases s.byteOrder <;> simp [verb, byteOrderExpr]
  | copy =>
    refine iff_of_false ?_ Bool.false_ne_true
    simp [verb]

theorem callsBinary_serializer_iff {r : Record} (h : r.WrittenOnLines) :
    CallsBinary (serializer r) ↔ ∃ s ∈ r.layout.slots, s.isInteger = true := by
  have hlines : Text.lines (serializer r) = serializerLines r := by
    rw [serializer_eq_ofLines]
    exact Text.lines_ofLines (fun _ => isLine_of_mem_serializerLines h) (by simp [serializerLines])
  rw [CallsBinary, hlines]
  constructor
  · rintro ⟨line, hline, hprefix⟩
    simp only [serializerLines, List.mem_cons, List.mem_append, List.mem_map, List.not_mem_nil,
      or_false] at hline
    rcases hline with rfl | rfl | ⟨statement, hstatement, rfl⟩ | rfl | rfl
    · simp [header] at hprefix
    · simp [bufferLine] at hprefix
    · obtain ⟨s, hs, htext⟩ := List.mem_filterMap.mp hstatement
      exact ⟨s, hs, (prefix_statement_iff htext).mp hprefix⟩
    · simp at hprefix
    · simp at hprefix
  · rintro ⟨s, hs, hinteger⟩
    -- a slot for an integer has a statement
    obtain ⟨statement, htext⟩ : ∃ statement, statement? r.receiver s = some statement := by
      rw [statement?_eq]
      cases he : s.encoding with
      | some e => exact ⟨_, rfl⟩
      | none =>
        rw [Slot.isInteger, he] at hinteger
        exact absurd hinteger Bool.false_ne_true
    have hstatement : statement ∈ statements r := List.mem_filterMap.mpr ⟨s, hs, htext⟩
    refine ⟨"\t" ++ statement, ?_, (prefix_statement_iff htext).mpr hinteger⟩
    simp only [serializerLines, List.mem_cons, List.mem_append]
    exact Or.inr (Or.inr (Or.inl (List.mem_map_of_mem hstatement)))

/-! ## The import in a source file -/

theorem needsBinaryImport_iff {records : List Record} :
    needsBinaryImport records = true ↔
      ∃ r ∈ records, ∃ s ∈ r.layout.slots, s.isInteger = true := by
  simp only [needsBinaryImport, List.any_eq_true]

/-- The text of a source file up to its package clause. -/
def clauseText (options : SourceOptions) : String :=
  (if options.banner then banner ++ sectionBreak else "") ++ packageClause options.package

/-- The import stands in the text of a source file between the package clause and the type definition
of the first record, as a section of its own. -/
def ImportsBinary (options : SourceOptions) (records : List Record) : Prop :=
  ∃ first rest, records.head? = some first ∧ (emitSource options records).text =
    clauseText options ++ sectionBreak ++ binaryImport ++ sectionBreak ++ definition first ++ rest

theorem text_emitHeader_eq (options : SourceOptions) (records : List Record) :
    (emitHeader options records).text = clauseText options
      ++ (if needsBinaryImport records then sectionBreak ++ binaryImport else "") := by
  unfold emitHeader clauseText
  by_cases hbanner : options.banner <;> by_cases himport : needsBinaryImport records <;>
    simp [hbanner, himport, Emission.text, String.append_assoc]

/-- The text of a source file up to the type definition of the first record. -/
theorem text_emitSource_cons (options : SourceOptions) (r : Record) (records : List Record) :
    ∃ rest, (emitSource options (r :: records)).text = clauseText options
      ++ (if needsBinaryImport (r :: records) then sectionBreak ++ binaryImport else "")
      ++ sectionBreak ++ definition r ++ rest := by
  have hevent : Emission.text [.log (.sourceFile options.package (r :: records).length)] = "" := rfl
  refine ⟨sectionBreak ++ serializer r ++ Emission.text (records.flatMap emitRecord ++ [.write "\n"]), ?_⟩
  rw [emitSource, text_append, text_append, text_append, hevent, String.empty_append,
    text_emitHeader_eq, List.flatMap_cons, text_append, text_emitRecord, text_append]
  simp only [String.append_assoc]

/-- **The import stands in the text exactly if it was found to be needed.** -/
theorem importsBinary_iff_needsBinaryImport (options : SourceOptions) (records : List Record) :
    ImportsBinary options records ↔ needsBinaryImport records = true := by
  constructor
  · rintro ⟨first, rest, hfirst, htext⟩
    obtain ⟨records, rfl⟩ := List.head?_eq_some_iff.mp hfirst
    obtain ⟨rest', htext'⟩ := text_emitSource_cons options first records
    by_contra hneed
    -- without an import, a type definition stands where the import is said to stand
    rw [htext', if_neg hneed, String.append_empty] at htext
    simp only [String.append_assoc, String.append_right_inj] at htext
    simp [definition, binaryImport, ← String.toList_inj] at htext
  · intro hneed
    rcases records with _ | ⟨first, records⟩
    · exact absurd hneed Bool.false_ne_true
    obtain ⟨rest, htext⟩ := text_emitSource_cons options first records
    refine ⟨first, rest, rfl, ?_⟩
    rw [htext, if_pos hneed]
    simp only [String.append_assoc]

/-- **A source file imports what it uses, and nothing else.** The import of the package that stores
integers stands between the package clause and the first type definition exactly if a line of some
serializer calls the package, which is the case exactly if some member is an integer. A record of
which every member is a string or of a type that is not understood makes no difference to the import,
whatever its names and the texts of its types are. -/
theorem imports_binary_iff (options : SourceOptions) {records : List Record}
    (hlines : ∀ r ∈ records, r.WrittenOnLines) :
    (ImportsBinary options records ↔ ∃ r ∈ records, CallsBinary (emitSerializer r).text) ∧
    ((∃ r ∈ records, CallsBinary (emitSerializer r).text) ↔
      ∃ r ∈ records, ∃ m ∈ r.members, ∃ width, m.tag = .unsigned width ∨ m.tag = .signed width) ∧
    ∀ (before after : List Record) (r : Record),
      (∀ m ∈ r.members, m.tag = .string ∨ ∃ text, m.tag = .other text) →
        (ImportsBinary options (before ++ r :: after) ↔ ImportsBinary options (before ++ after)) := by
  have hcalls : (∃ r ∈ records, CallsBinary (emitSerializer r).text) ↔
      ∃ r ∈ records, ∃ s ∈ r.layout.slots, s.isInteger = true := by
    refine exists_congr fun r => and_congr_right fun hr => ?_
    rw [text_emitSerializer]
    exact callsBinary_serializer_iff (hlines r hr)
  refine ⟨?_, ?_, ?_⟩
  · rw [importsBinary_iff_needsBinaryImport, needsBinaryImport_iff, hcalls]
  · rw [hcalls]
    exact exists_congr fun r => and_congr_right fun _ => Record.exists_isInteger_iff
  · intro before after r htags
    have hnone : ¬ ∃ s ∈ r.layout.slots, s.isInteger = true := by
      rw [Record.exists_isInteger_iff]
      rintro ⟨m, hm, width, hinteger⟩
      rcases htags m hm with hstring | ⟨text, hother⟩
      · rw [hstring] at hinteger
        simp at hinteger
      · rw [hother] at hinteger
        simp at hinteger
    simp only [importsBinary_iff_needsBinaryImport, needsBinaryImport_iff, List.mem_append,
      List.mem_cons, or_and_right, exists_or, exists_eq_left, hnone, false_or]

/-- A record without integers that looks as if it had some: a member's name opens with the name of the
package, and a type was kept although its text is that of an integer. -/
def mimicRecord : Record where
  name := "binary"
  members := [
    { name := "binary.PutUint8", tag := .string, size := .clamp 4 },
    { name := "\tbinary.x", tag := .other "uint8", size := .clamp 1 }]

/-- The look of a record does not cause the import, and does not hide it. -/
theorem imports_binary_mimic :
    (∀ r ∈ [mimicRecord, gaugeRecord], r.WrittenOnLines) ∧
      ¬ ImportsBinary {} [mimicRecord] ∧ ImportsBinary {} [mimicRecord, gaugeRecord] := by
  have hmimic : mimicRecord.WrittenOnLines := ⟨by decide, by decide⟩
  have hgauge : gaugeRecord.WrittenOnLines := ⟨by decide, by decide⟩
  have halone : ∀ r ∈ [mimicRecord], r.WrittenOnLines := by
    simpa using hmimic
  have hlines : ∀ r ∈ [mimicRecord, gaugeRecord], r.WrittenOnLines := by
    simpa using ⟨hmimic, hgauge⟩
  obtain ⟨hone, hinteger, -⟩ := imports_binary_iff {} halone
  obtain ⟨hboth, hinteger', -⟩ := imports_binary_iff {} hlines
  refine ⟨hlines, ?_, ?_⟩
  · rw [hone, hinteger]
    simp [mimicRecord]
  · rw [hboth, hinteger']
    simp [mimicRecord, gaugeRecord]

end Go

end WireRecord
