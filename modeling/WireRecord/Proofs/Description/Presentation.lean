/-
Records read from any presentation.

A record is presented by a text if the text says what is in the record: the record itself, and each of its
members for itself, by an object with its keys in any order, with unknown keys between them and without
some or all of those that would only say the default, or by an array of what stands in its fields, of
which the last may be left out if they are defaults. The text may have blanks between its tokens and any
escapes in its strings. The main result, `Record.ofText_of_presents`, is that none of this makes a
difference: every text that presents a record is read as that record.

The rules for the fields are spelled out here, apart from the forms that read them. A list of members is
presented by an array of presentations, so the rule for that field rests on the rules for a member.
-/
import WireRecord.Proofs.Description.RoundTrip
import WireRecord.Proofs.Json.Presentation

set_option autoImplicit false

namespace WireRecord

open Json (CharText Document FieldRule Form IsBlanks Presents TokenText Value ValueText isBlanks_nil
  tokenText_quote)

/-! ## Members -/

namespace Member

/-- The value of a member's own byte order. Where there is none, `null` says so. -/
def byteOrderValue (m : Member) : Value :=
  match m.byteOrder with
  | some token => .string token
  | none => .null

/-- How each field of a member may be presented. -/
def rule (m : Member) : MemberField → FieldRule
  | .name => { label := "name", Fits := (· = .string m.name), Omittable := False }
  | .type => { label := "type", Fits := (· = .string m.tag.text), Omittable := False }
  | .size => { label := "size", Fits := (· = m.size.value), Omittable := False }
  | .offset => { label := "offset", Fits := (· = m.offset.value), Omittable := m.offset = 0 }
  | .byteOrder =>
    { label := "byte_order", Fits := (· = m.byteOrderValue), Omittable := m.byteOrder = none }

/-- How the fields of a member may be presented, in the order in which an array has them. -/
def rules (m : Member) : List FieldRule :=
  [m.rule .name, m.rule .type, m.rule .size, m.rule .offset, m.rule .byteOrder]

/-- The form of a member reads what its rules allow. -/
theorem readsBy (m : Member) : form.ReadsBy m.rule m.fieldContent where
  label f := by cases f using MemberField.casesOn <;> rfl
  read f v h := by
    cases f using MemberField.casesOn with
    | byteOrder =>
      obtain rfl : v = m.byteOrderValue := h
      obtain ⟨name, tag, size, offset, byteOrder⟩ := m
      cases byteOrder <;> rfl
    | _ =>
      cases h
      rfl
  default f h := by
    cases f using MemberField.casesOn with
    | offset =>
      have hzero : m.offset = 0 := h
      rw [fieldContent, hzero]
      rfl
    | byteOrder =>
      have hnone : m.byteOrder = none := h
      rw [fieldContent, hnone]
      rfl
    | _ => exact h.elim

/-- A member is read from each of its presentations, with its tag read anew. -/
theorem read_of_presents {m : Member} {v : Value} (h : Presents m.rules v) :
    Member.read v.parsed = .ok m.normalized :=
  Form.readStruct_of_presents labelsDistinct m.readsBy h

end Member

/-! ## Records -/

namespace Record

/-- How each field of a record may be presented. -/
def rule (r : Record) : RecordField → FieldRule
  | .name => { label := "name", Fits := (· = .string r.name), Omittable := False }
  | .byteOrder =>
    { label := "byte_order", Fits := (· = .string r.byteOrder), Omittable := r.byteOrder = "" }
  | .members =>
    { label := "members"
      Fits := fun v => ∃ items, v = .array items ∧
        List.Forall₂ (fun m item => Presents m.rules item) r.members items
      Omittable := r.members = [] }

/-- How the fields of a record may be presented, in the order in which an array has them. -/
def rules (r : Record) : List FieldRule := [r.rule .name, r.rule .byteOrder, r.rule .members]

/-- Members are read one after the other, each from its own presentation. -/
theorem readList_of_presents {members : List Member} {items : List Value}
    (h : List.Forall₂ (fun m item => Presents m.rules item) members items) :
    Document.readList Member.read (.array (Json.parsedItems items) .closed) =
      .ok (members.map Member.normalized) := by
  have hread : List.Forall₂ (fun item m => Member.read item.parsed = .ok m.normalized) items members :=
    h.flip.imp fun item m => Member.read_of_presents
  rw [Json.parsedItems_eq_map]
  exact Document.readList_of_forall₂
    (List.forall₂_map_left_iff.mpr (List.forall₂_map_right_iff.mpr hread))

/-- The form of a record reads what its rules allow. -/
theorem readsBy (r : Record) : form.ReadsBy r.rule r.fieldContent where
  label f := by cases f using RecordField.casesOn <;> rfl
  read f v h := by
    cases f using RecordField.casesOn with
    | members =>
      obtain ⟨items, rfl, hitems⟩ := h
      exact readList_of_presents hitems
    | _ =>
      cases h
      rfl
  default f h := by
    cases f using RecordField.casesOn with
    | name => exact h.elim
    | byteOrder =>
      have hempty : r.byteOrder = "" := h
      rw [fieldContent, hempty]
      rfl
    | members =>
      have hnone : r.members = [] := h
      rw [fieldContent, hnone]
      rfl

/-- A record is read from each of its presentations, with the tags of its members read anew. -/
theorem read_of_presents {r : Record} {v : Value} (h : Presents r.rules v) :
    Record.read v.parsed = .ok r.normalized :=
  Form.readStruct_of_presents labelsDistinct r.readsBy h

/-- **A record is read from every text that presents it**, if each of its tags is read back from its own
text: in whatever way the record and its members are written, with or without their defaults, in whatever
order, among whatever else, and with any escapes and blanks. -/
theorem ofText_of_presents {r : Record} (hstable : ∀ m ∈ r.members, m.tag.isStable = true) {v : Value}
    (hv : Presents r.rules v) {text : String} (htext : ValueText v text) :
    Record.ofText text = .ok r := by
  have hsame : r.normalized = r :=
    normalized_eq_self_iff.mpr fun m hm => TypeTag.isStable_iff.mp (hstable m hm)
  rw [Record.ofText, Json.readText_of_valueText Record.read htext, read_of_presents hv, hsame]

end Record

/-! ## A record and a text that presents it -/

def pingRecord : Record where
  name := "Ping"
  members := [{ name := "Id", tag := .unsigned .w16, size := .clamp 2 }]

/-- The record as an object with its last field first and without its byte order, behind a key that it
does not have; its member as an array that ends with the size. -/
def pingValue : Value :=
  .object [("x", .array [.null]),
    ("members", .array [.array [.string "Id", .string "uint16", .number (.natural (.clamp 2))]]),
    ("name", .string "Ping")]

/-- The value with blanks in some places, and with one letter of the member's name escaped. -/
def pingText : String :=
  "\x7b\"x\":[null], \"members\" : [[\"\\u0049d\",\"uint16\",2]],\n\"name\":\"Ping\"\x7d"

theorem presents_pingValue : Presents pingRecord.rules pingValue := by
  refine .object fun rule hrule => ?_
  simp only [Record.rules, List.mem_cons, List.not_mem_nil, or_false] at hrule
  rcases hrule with rfl | rfl | rfl
  · exact .once (v := .string "Ping") rfl rfl
  · exact .leftOut rfl rfl
  · refine .once rfl ⟨_, rfl, .cons ?_ .nil⟩
    have hrules : ∀ m : Member, m.rules =
        [m.rule .name, m.rule .type, m.rule .size] ++ [m.rule .offset, m.rule .byteOrder] :=
      fun _ => rfl
    exact .array (hrules _) (.cons rfl (.cons rfl (.cons rfl .nil))) (by simp [Member.rule])

theorem valueText_pingText : ValueText pingValue pingText := by
  have hnone := isBlanks_nil
  have hspace : IsBlanks [' '] := by simp [IsBlanks]
  have hline : IsBlanks ['\n'] := by simp [IsBlanks]
  have hletter : CharText 'I' ['\\', 'u', '0', '0', '4', '9'] :=
    .unit (.digits (w := 0) (x := 0) (y := 4) (z := 9) ⟨by decide, by decide⟩ ⟨by decide, by decide⟩
      ⟨by decide, by decide⟩ ⟨by decide, by decide⟩)
  have hId : TokenText (.string (some "Id"))
      ('"' :: ((['\\', 'u', '0', '0', '4', '9'] ++ (['d'] ++ [])) ++ ['"'])) :=
    .string (.cons hletter (.cons (.plain (by decide) (by decide) (by decide)) .nil))
  have hsize : TokenText (.number (some (.natural (.clamp 2)))) ['2'] := .number rfl
  exact .cons hnone (.mark .objectOpen) <|
    .cons hnone (tokenText_quote "x") <| .cons hnone (.mark .colon) <|
    .cons hnone (.mark .arrayOpen) <| .cons hnone .null <| .cons hnone (.mark .arrayClose) <|
    .cons hnone (.mark .comma) <|
    .cons hspace (tokenText_quote "members") <| .cons hspace (.mark .colon) <|
    .cons hspace (.mark .arrayOpen) <| .cons hnone (.mark .arrayOpen) <|
    .cons hnone hId <| .cons hnone (.mark .comma) <|
    .cons hnone (tokenText_quote "uint16") <| .cons hnone (.mark .comma) <|
    .cons hnone hsize <| .cons hnone (.mark .arrayClose) <| .cons hnone (.mark .arrayClose) <|
    .cons hnone (.mark .comma) <|
    .cons hline (tokenText_quote "name") <| .cons hnone (.mark .colon) <|
    .cons hnone (tokenText_quote "Ping") <| .cons hnone (.mark .objectClose) <| .nil hnone

/-- The record is read from a text that looks little like the one it is written as. -/
theorem ofText_pingText :
    (∀ m ∈ pingRecord.members, m.tag.isStable = true) ∧ Presents pingRecord.rules pingValue ∧
      ValueText pingValue pingText ∧ Record.ofText pingText = .ok pingRecord := by
  have hstable : ∀ m ∈ pingRecord.members, m.tag.isStable = true := by
    intro m hm
    rw [List.mem_singleton.mp hm]
    exact TypeTag.isStable_iff_normalized_eq.mpr rfl
  exact ⟨hstable, presents_pingValue, valueText_pingText,
    Record.ofText_of_presents hstable presents_pingValue valueText_pingText⟩

end WireRecord
