/-
Descriptions written as JSON and read back.

A record, a member and the options of a source file are read back from their own JSON texts. The main
result, `descriptions_read_back`, says what comes out: reading always succeeds, the options are the same
again, and a record or a member is the same but for the tags, each of which is read anew from the text it
was written as. Only a tag that was kept although its text is understood is changed by that.

The text of a value is read as a document with one entry for each field that was written
(`Json.readText_text`), and an object with entries for some fields of a form is the structure of these
(`Json.Form.Written.readStruct`). What is left to say of each structure is which fields are written and
what is read from each. A member's own byte order is written only if there is one, and so left to its
default, which is none; an empty token is a token and is written.
-/
import WireRecord.Description.Reading
import WireRecord.Description.Writing
import WireRecord.Proofs.Json.Form
import WireRecord.Proofs.Json.Parsing

set_option autoImplicit false

namespace WireRecord

open Json (Document Entry Form Problem Value parsedItems HasCountsInItems)

/-! ## Descriptions with their tags read anew -/

/-- The same member with the tag that its tag's text spells. -/
def Member.normalized (m : Member) : Member := { m with tag := m.tag.normalized }

/-- The same record with the tags of its members read anew. -/
def Record.normalized (r : Record) : Record := { r with members := r.members.map Member.normalized }

/-- A member is unchanged unless its tag was kept although it is understood. -/
theorem Member.normalized_eq_self_iff {m : Member} :
    m.normalized = m ↔ ∀ s ∈ TypeTag.spellings, m.tag ≠ .other s := by
  rw [← TypeTag.isStable_iff, TypeTag.isStable_iff_normalized_eq]
  constructor
  · intro h
    exact congrArg Member.tag h
  · intro h
    rw [normalized, h]

/-- A record is unchanged unless a tag in it was kept although it is understood. -/
theorem Record.normalized_eq_self_iff {r : Record} :
    r.normalized = r ↔ ∀ m ∈ r.members, ∀ s ∈ TypeTag.spellings, m.tag ≠ .other s := by
  have hmembers : r.normalized = r ↔ r.members.map Member.normalized = r.members.map id := by
    rw [List.map_id]
    constructor
    · intro h
      exact congrArg Record.members h
    · intro h
      rw [normalized, h]
  rw [hmembers, List.map_inj_left]
  exact forall₂_congr fun m _ => Member.normalized_eq_self_iff

/-! ## Members -/

namespace Member

theorem labelsDistinct : form.LabelsDistinct := by
  intro f
  cases f using MemberField.casesOn <;> rfl

/-- The fields that are written. -/
def writtenFields (m : Member) : List MemberField :=
  [.name, .type, .size, .offset] ++ if m.byteOrder.isSome then [.byteOrder] else []

/-- What is written in each field. -/
def fieldDocument (m : Member) : MemberField → Document
  | .name => .string (some m.name)
  | .type => .string (some m.tag.text)
  | .size => .number (some (.natural m.size))
  | .offset => .number (some (.natural m.offset))
  | .byteOrder => .string m.byteOrder

/-- What is read from each field. -/
def fieldContent (m : Member) : (f : form.Field) → form.Content f
  | .name => m.name
  | .type => m.tag.normalized
  | .size => m.size
  | .offset => m.offset
  | .byteOrder => m.byteOrder

theorem mem_writtenFields {m : Member} {f : MemberField} :
    f ∈ m.writtenFields ↔ f = .byteOrder → m.byteOrder.isSome := by
  unfold writtenFields
  cases f <;> cases m.byteOrder <;> simp

theorem nodup_writtenFields (m : Member) : m.writtenFields.Nodup := by
  unfold writtenFields
  split <;> decide

theorem parsed_value (m : Member) :
    m.value.parsed = .object (m.writtenFields.map (form.entry m.fieldDocument)) .closed := by
  obtain ⟨name, tag, size, offset, byteOrder⟩ := m
  cases byteOrder <;> rfl

theorem hasCounts_value (m : Member) : m.value.HasCounts := by
  obtain ⟨name, tag, size, offset, byteOrder⟩ := m
  cases byteOrder with
  | none => exact ⟨trivial, trivial, ⟨size, rfl⟩, ⟨offset, rfl⟩, trivial⟩
  | some token => exact ⟨trivial, trivial, ⟨size, rfl⟩, ⟨offset, rfl⟩, trivial, trivial⟩

/-- Each field that is written is read. -/
theorem read_fieldDocument {m : Member} {f : MemberField} (h : f ∈ m.writtenFields) :
    form.read f (m.fieldDocument f) = .ok (m.fieldContent f) := by
  cases f with
  | byteOrder =>
    obtain ⟨token, htoken⟩ := Option.isSome_iff_exists.mp (mem_writtenFields.mp h rfl)
    rw [fieldDocument, fieldContent, htoken]
    rfl
  | _ => rfl

/-- The default stands for what is not written. -/
theorem default?_of_not_mem {m : Member} {f : MemberField} (h : f ∉ m.writtenFields) :
    form.default? f = some (m.fieldContent f) := by
  rw [mem_writtenFields, not_forall] at h
  obtain ⟨rfl, hnone⟩ := h
  rw [fieldContent, Option.not_isSome_iff_eq_none.mp hnone]
  rfl

theorem written (m : Member) : form.Written m.fieldContent m.fieldDocument m.writtenFields where
  labelsDistinct := labelsDistinct
  nodup := m.nodup_writtenFields
  read _ h := read_fieldDocument h
  default _ h := default?_of_not_mem h

/-- A member is read from the document that its value is read as. -/
theorem read_parsed (m : Member) : Member.read m.value.parsed = .ok m.normalized := by
  rw [parsed_value]
  exact m.written.readStruct

/-- **A member is read back from its text**, with its tag read anew. -/
theorem ofText_json (m : Member) : Member.ofText m.json = .ok m.normalized := by
  rw [Member.ofText, json, Json.readText_text Member.read m.hasCounts_value, read_parsed]

end Member

/-! ## Records -/

namespace Record

theorem labelsDistinct : form.LabelsDistinct := by
  intro f
  cases f using RecordField.casesOn <;> rfl

/-- What is written in each field. -/
def fieldDocument (r : Record) : RecordField → Document
  | .name => .string (some r.name)
  | .byteOrder => .string (some r.byteOrder)
  | .members => .array (r.members.map fun m => m.value.parsed) .closed

/-- What is read from each field. -/
def fieldContent (r : Record) : (f : form.Field) → form.Content f
  | .name => r.name
  | .byteOrder => r.byteOrder
  | .members => r.members.map Member.normalized

theorem parsed_value (r : Record) :
    r.value.parsed = .object (form.fields.map (form.entry r.fieldDocument)) .closed := by
  have hmembers : parsedItems (r.members.map Member.value) = r.members.map fun m => m.value.parsed := by
    rw [Json.parsedItems_eq_map, List.map_map]
    rfl
  rw [value, Value.parsed]
  simp only [Json.parsedEntries, Value.parsed, hmembers]
  rfl

theorem hasCounts_value (r : Record) : r.value.HasCounts := by
  have hmembers : HasCountsInItems (r.members.map Member.value) :=
    Json.hasCountsInItems_iff.mpr fun v hv => by
      obtain ⟨m, -, rfl⟩ := List.mem_map.mp hv
      exact m.hasCounts_value
  exact ⟨trivial, trivial, hmembers, trivial⟩

/-- Each field is read. -/
theorem read_fieldDocument (r : Record) (f : RecordField) :
    form.read f (r.fieldDocument f) = .ok (r.fieldContent f) := by
  cases f with
  | members =>
    refine Document.readList_of_forall₂ (List.forall₂_map_left_iff.mpr ?_)
    exact List.forall₂_map_right_iff.mpr (List.forall₂_same.mpr fun m _ => m.read_parsed)
  | _ => rfl

theorem written (r : Record) : form.Written r.fieldContent r.fieldDocument form.fields where
  labelsDistinct := labelsDistinct
  nodup := by
    show [RecordField.name, .byteOrder, .members].Nodup
    decide
  read f _ := r.read_fieldDocument f
  default f hf := absurd (form.mem_fields f) hf

/-- A record is read from the document that its value is read as. -/
theorem read_parsed (r : Record) : Record.read r.value.parsed = .ok r.normalized := by
  rw [parsed_value]
  exact r.written.readStruct

/-- **A record is read back from its text**, with the tags of its members read anew. -/
theorem ofText_json (r : Record) : Record.ofText r.json = .ok r.normalized := by
  rw [Record.ofText, json, Json.readText_text Record.read r.hasCounts_value, read_parsed]

end Record

/-! ## Options of source files -/

namespace SourceOptions

theorem labelsDistinct : form.LabelsDistinct := by
  intro f
  cases f using SourceOptionsField.casesOn <;> rfl

/-- What is written in each field. -/
def fieldDocument (o : SourceOptions) : SourceOptionsField → Document
  | .package => .string (some o.package)
  | .banner => .bool o.banner

/-- What is read from each field. -/
def fieldContent (o : SourceOptions) : (f : form.Field) → form.Content f
  | .package => o.package
  | .banner => o.banner

theorem parsed_value (o : SourceOptions) :
    o.value.parsed = .object (form.fields.map (form.entry o.fieldDocument)) .closed :=
  rfl

theorem hasCounts_value (o : SourceOptions) : o.value.HasCounts := ⟨trivial, trivial, trivial⟩

theorem written (o : SourceOptions) : form.Written o.fieldContent o.fieldDocument form.fields where
  labelsDistinct := labelsDistinct
  nodup := by
    show [SourceOptionsField.package, .banner].Nodup
    decide
  read f _ := by cases f using SourceOptionsField.casesOn <;> rfl
  default f hf := absurd (form.mem_fields f) hf

/-- Options are read from the document that their value is read as. -/
theorem read_parsed (o : SourceOptions) : SourceOptions.read o.value.parsed = .ok o := by
  rw [parsed_value]
  exact o.written.readStruct

/-- **Options are read back from their text.** -/
theorem ofText_json (o : SourceOptions) : SourceOptions.ofText o.json = .ok o := by
  rw [SourceOptions.ofText, json, Json.readText_text SourceOptions.read o.hasCounts_value, read_parsed]

end SourceOptions

/-! ## What is lost -/

/-- **Descriptions are read back from their own texts.** Reading succeeds; a record or a member is the
same but for its tags, each of which is read anew, and so exactly the same unless a tag was kept although
it is understood; the options of a source file are the same in any case. -/
theorem descriptions_read_back :
    (∀ r : Record, Record.ofText r.json = .ok r.normalized ∧
      (Record.ofText r.json = .ok r ↔
        ∀ m ∈ r.members, ∀ s ∈ TypeTag.spellings, m.tag ≠ .other s)) ∧
    (∀ m : Member, Member.ofText m.json = .ok m.normalized ∧
      (Member.ofText m.json = .ok m ↔ ∀ s ∈ TypeTag.spellings, m.tag ≠ .other s)) ∧
    ∀ o : SourceOptions, SourceOptions.ofText o.json = .ok o := by
  refine ⟨fun r => ⟨r.ofText_json, ?_⟩, fun m => ⟨m.ofText_json, ?_⟩, fun o => o.ofText_json⟩
  · rw [r.ofText_json, Except.ok.injEq, Record.normalized_eq_self_iff]
  · rw [m.ofText_json, Except.ok.injEq, Member.normalized_eq_self_iff]

end WireRecord
