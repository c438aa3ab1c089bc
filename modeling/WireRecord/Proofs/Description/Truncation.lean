/-
Texts of descriptions that are cut off.

No part of the text of a record, a member or the options of a source file is taken for a description of
its own. The main result, `cut_descriptions_refused`, says what is answered when the text is cut off
anywhere short of its end: that the text has ended. That is so even where all fields are given that must
be given, and for the options, of which none must be; and it is the answer also where the cut falls inside
a member, inside a string or an escape, or inside a number, of which what is left is another number.

What a structure is read from is an object that was written (`Json.Form.Written`), and such an object is
found too short wherever it is cut off, if the reader of each field waits for the rest of its own value
(`Json.Form.Written.readText_of_isPrefix`). So it is left to say this of each field. The members of a
record are a field that is a list, and a list waits because each member in it does.
-/
import WireRecord.Proofs.Description.RoundTrip
import WireRecord.Proofs.Json.Truncation.Reading

set_option autoImplicit false

namespace WireRecord

open Json (Awaits Document)

namespace Member

/-- Each field that is written waits for the rest of its value. -/
theorem awaits_fieldDocument {m : Member} {f : MemberField} (h : f ∈ m.writtenFields) :
    Awaits (form.read f) (m.fieldDocument f) := by
  cases f with
  | name => exact Json.awaits_string m.name
  | type => exact (Json.awaits_string m.tag.text).map TypeTag.ofText
  | size => exact Json.awaits_extent m.size
  | offset => exact Json.awaits_extent m.offset
  | byteOrder =>
    obtain ⟨token, htoken⟩ := Option.isSome_iff_exists.mp (mem_writtenFields.mp h rfl)
    rw [fieldDocument, htoken]
    exact (Json.awaits_string token).option

/-- A member waits for the rest of its object. -/
theorem awaits (m : Member) : Awaits Member.read m.value.parsed := by
  rw [parsed_value]
  exact m.written.awaits fun f hf => awaits_fieldDocument hf

theorem ofText_of_isPrefix {m : Member} {p : String} (hp : p.toList <+: m.json.toList)
    (hne : p ≠ m.json) : Member.ofText p = .error (.fault .ended) :=
  m.written.readText_of_isPrefix (fun _ hf => awaits_fieldDocument hf) m.hasCounts_value m.parsed_value
    hp hne

end Member

namespace Record

/-- Each field waits for the rest of its value. -/
theorem awaits_fieldDocument (r : Record) (f : RecordField) :
    Awaits (form.read f) (r.fieldDocument f) := by
  cases f with
  | name => exact Json.awaits_string r.name
  | byteOrder => exact Json.awaits_string r.byteOrder
  | members =>
    refine Json.awaits_list fun d hd => ?_
    obtain ⟨m, -, rfl⟩ := List.mem_map.mp hd
    exact m.awaits

theorem ofText_of_isPrefix {r : Record} {p : String} (hp : p.toList <+: r.json.toList)
    (hne : p ≠ r.json) : Record.ofText p = .error (.fault .ended) :=
  r.written.readText_of_isPrefix (fun f _ => r.awaits_fieldDocument f) r.hasCounts_value r.parsed_value
    hp hne

end Record

namespace SourceOptions

/-- Each field waits for the rest of its value. -/
theorem awaits_fieldDocument (o : SourceOptions) (f : SourceOptionsField) :
    Awaits (form.read f) (o.fieldDocument f) := by
  cases f with
  | package => exact Json.awaits_string o.package
  | banner => exact Json.awaits_bool o.banner

theorem ofText_of_isPrefix {o : SourceOptions} {p : String} (hp : p.toList <+: o.json.toList)
    (hne : p ≠ o.json) : SourceOptions.ofText p = .error (.fault .ended) :=
  o.written.readText_of_isPrefix (fun f _ => o.awaits_fieldDocument f) o.hasCounts_value o.parsed_value
    hp hne

end SourceOptions

/-- **No description is read from a text that is cut off.** Of all beginnings of the text of a record, a
member or the options of a source file, the empty one included, each but the whole is answered with the
fault that the text has ended: never with a description, and never with another problem. -/
theorem cut_descriptions_refused :
    (∀ (r : Record) (p : String), p.toList <+: r.json.toList →
      (Record.ofText p = .error (.fault .ended) ↔ p ≠ r.json)) ∧
    (∀ (m : Member) (p : String), p.toList <+: m.json.toList →
      (Member.ofText p = .error (.fault .ended) ↔ p ≠ m.json)) ∧
    ∀ (o : SourceOptions) (p : String), p.toList <+: o.json.toList →
      (SourceOptions.ofText p = .error (.fault .ended) ↔ p ≠ o.json) := by
  refine ⟨fun r p hp => ⟨?_, Record.ofText_of_isPrefix hp⟩, fun m p hp => ⟨?_, Member.ofText_of_isPrefix hp⟩,
    fun o p hp => ⟨?_, SourceOptions.ofText_of_isPrefix hp⟩⟩
  -- the whole text is read
  · rintro h rfl
    rw [r.ofText_json] at h
    cases h
  · rintro h rfl
    rw [m.ofText_json] at h
    cases h
  · rintro h rfl
    rw [o.ofText_json] at h
    cases h

/-- What is left of a record lacks only its last brace, what is left of a member ends inside a number, and
of the options nothing is left. -/
theorem cut_descriptions_refused_ping :
    Record.ofText "\x7b\"name\":\"Ping\",\"byte_order\":\"\",\"members\":[]" = .error (.fault .ended) ∧
      Member.ofText "\x7b\"name\":\"Id\",\"type\":\"string\",\"size\":1" = .error (.fault .ended) ∧
      SourceOptions.ofText "" = .error (.fault .ended) := by
  have hrecord : ({ name := "Ping" } : Record).json =
      "\x7b\"name\":\"Ping\",\"byte_order\":\"\",\"members\":[]\x7d" := by decide
  have hmember : ({ name := "Id", tag := .string, size := .clamp 16 } : Member).json =
      "\x7b\"name\":\"Id\",\"type\":\"string\",\"size\":16,\"offset\":0\x7d" := by decide
  have hoptions : ({} : SourceOptions).json = "\x7b\"package\":\"main\",\"banner\":true\x7d" := by decide
  obtain ⟨hrecords, hmembers, hall⟩ := cut_descriptions_refused
  refine ⟨(hrecords { name := "Ping" } _ ?_).mpr ?_,
    (hmembers { name := "Id", tag := .string, size := .clamp 16 } _ ?_).mpr ?_, (hall {} _ ?_).mpr ?_⟩
  · rw [hrecord]
    decide
  · rw [hrecord]
    decide
  · rw [hmember]
    decide
  · rw [hmember]
    decide
  · exact List.nil_prefix
  · rw [hoptions]
    decide

end WireRecord
