/-
Keys of members, records and options.

A description in JSON may be wrong in its keys alone: a known key may be given twice, or one may be
missing that has no default. The main result, `descriptions_keysDecide`, says how this is reported for
each of the three structures that are described by objects, if all values under known keys fit: the law is
`KeysDecide`, and the structures differ in their keys only. It is about texts, so the keys are those that
are read, in whatever way they are written.

Which values fit a field is spelled out here, apart from the forms, and is just what can be read there
(`Member.fits_iff` and the like), so nothing is left out by asking for it. A list of members fits if each
of its items is read as a member, which for an object is again a matter of its keys.
-/
import WireRecord.Proofs.Description.Presentation
import WireRecord.Proofs.Json.Keys

set_option autoImplicit false

namespace WireRecord

open Json (Document FirstRepeated Form KeysDecide Value ValueText)

/-- Whether a value fits a field of a member. -/
def Member.Fits : MemberField → Value → Prop
  | .name, v | .type, v => ∃ s, v = .string s
  | .size, v | .offset, v => ∃ n, v = .number (.natural n)
  | .byteOrder, v => v = .null ∨ ∃ s, v = .string s

/-- Whether a value fits a field of a record. -/
def Record.Fits : RecordField → Value → Prop
  | .name, v | .byteOrder, v => ∃ s, v = .string s
  | .members, v => ∃ items, v = .array items ∧ ∀ item ∈ items, ∃ m, Member.read item.parsed = .ok m

/-- Whether a value fits a field of the options. -/
def SourceOptions.Fits : SourceOptionsField → Value → Prop
  | .package, v => ∃ s, v = .string s
  | .banner, v => ∃ b, v = .bool b

/-- What fits is what can be read. -/
theorem Member.fits_iff {f : MemberField} {v : Value} :
    Fits f v ↔ ∃ content, form.read f v.parsed = .ok content := by
  cases f using MemberField.casesOn with
  | name => exact (exists_congr fun _ => Document.readString_parsed_iff).symm
  | type =>
    exact (Json.exists_map_eq_ok_iff.trans (exists_congr fun _ => Document.readString_parsed_iff)).symm
  | byteOrder =>
    have hread : (∃ token, v.parsed.readOption Document.readString = .ok token) ↔
        v = .null ∨ ∃ s, v.parsed.readString = .ok s := Document.exists_readOption_parsed_iff
    rw [exists_congr fun _ => Document.readString_parsed_iff] at hread
    exact hread.symm
  | _ => exact (exists_congr fun _ => Document.readExtent_parsed_iff).symm

theorem Record.fits_iff {f : RecordField} {v : Value} :
    Fits f v ↔ ∃ content, form.read f v.parsed = .ok content := by
  cases f using RecordField.casesOn with
  | members => exact Document.exists_readList_parsed_iff.symm
  | _ => exact (exists_congr fun _ => Document.readString_parsed_iff).symm

theorem SourceOptions.fits_iff {f : SourceOptionsField} {v : Value} :
    Fits f v ↔ ∃ content, form.read f v.parsed = .ok content := by
  cases f using SourceOptionsField.casesOn with
  | package => exact (exists_congr fun _ => Document.readString_parsed_iff).symm
  | banner => exact (exists_congr fun _ => Document.readBool_parsed_iff).symm

/-- **Wrong keys are reported by one law**, for a member, a record and the options of a source file. If a
known key is given more than once, the report names the key whose second place in the text comes first,
whether or not another one is missing; otherwise it names the first required key, as they are declared,
that is not given; and if there is none, something is read. -/
theorem descriptions_keysDecide :
    (∀ entries text, ValueText (.object entries) text →
      (∀ f v, (Member.form.label f, v) ∈ entries → Member.Fits f v) →
      KeysDecide ["name", "type", "size", "offset", "byte_order"] ["name", "type", "size"]
        (entries.map (·.1)) (Member.ofText text)) ∧
    (∀ entries text, ValueText (.object entries) text →
      (∀ f v, (Record.form.label f, v) ∈ entries → Record.Fits f v) →
      KeysDecide ["name", "byte_order", "members"] ["name"]
        (entries.map (·.1)) (Record.ofText text)) ∧
    (∀ entries text, ValueText (.object entries) text →
      (∀ f v, (SourceOptions.form.label f, v) ∈ entries → SourceOptions.Fits f v) →
      KeysDecide ["package", "banner"] [] (entries.map (·.1)) (SourceOptions.ofText text)) := by
  refine ⟨?_, ?_, ?_⟩
  · intro entries text htext hfits
    exact Form.readText_keysDecide Member.labelsDistinct htext fun f v hv =>
      Member.fits_iff.mp (hfits f v hv)
  · intro entries text htext hfits
    exact Form.readText_keysDecide Record.labelsDistinct htext fun f v hv =>
      Record.fits_iff.mp (hfits f v hv)
  · intro entries text htext hfits
    exact Form.readText_keysDecide SourceOptions.labelsDistinct htext fun f v hv =>
      SourceOptions.fits_iff.mp (hfits f v hv)

/-- Entries of a member without a type, whose name and size are given twice, around a key that a member
does not have. -/
def echoEntries : List (String × Value) :=
  [("name", .string "Id"), ("size", .number (.natural (.clamp 1))), ("x", .null), ("x", .array []),
    ("size", .number (.natural (.clamp 2))), ("name", .string "Id")]

def echoText : String :=
  "\x7b\"name\":\"Id\",\"size\":1,\"x\":null,\"x\":[],\"size\":2,\"name\":\"Id\"\x7d"

/-- The size is reported: its second place comes before that of the name, and a missing type is not looked
for. -/
theorem descriptions_keysDecide_echo :
    ValueText (.object echoEntries) echoText ∧
      (∀ f v, (Member.form.label f, v) ∈ echoEntries → Member.Fits f v) ∧
      Member.ofText echoText = .error (.mismatch (.duplicateField "size")) := by
  have htext : ValueText (.object echoEntries) echoText := by
    have hcounts : (Value.object echoEntries).HasCounts :=
      ⟨trivial, ⟨_, rfl⟩, trivial, trivial, ⟨_, rfl⟩, trivial, trivial⟩
    have hwritten : (Value.object echoEntries).text = echoText := by decide +kernel
    rw [← hwritten]
    exact Json.valueText_text hcounts
  have hfits : ∀ f v, (Member.form.label f, v) ∈ echoEntries → Member.Fits f v := by
    intro f v hv
    cases f using MemberField.casesOn with
    | name =>
      have hname : v = .string "Id" := by simpa [Member.form, echoEntries] using hv
      exact ⟨_, hname⟩
    | size =>
      have hsize : v = .number (.natural (.clamp 1)) ∨ v = .number (.natural (.clamp 2)) := by
        simpa [Member.form, echoEntries] using hv
      rcases hsize with hfirst | hsecond
      · exact ⟨_, hfirst⟩
      · exact ⟨_, hsecond⟩
    | _ => simp [Member.form, echoEntries] at hv
  have hsize : FirstRepeated ["name", "type", "size", "offset", "byte_order"]
      (echoEntries.map (·.1)) "size" :=
    ⟨["name", "size", "x", "x"], ["name"], rfl, by decide, by decide, by decide⟩
  obtain ⟨key, honly, hanswer⟩ := (descriptions_keysDecide.1 echoEntries echoText htext hfits).duplicate
    ⟨"size", by decide, by decide⟩
  rw [(honly "size").mp hsize]
  exact ⟨htext, hfits, hanswer⟩

end WireRecord
