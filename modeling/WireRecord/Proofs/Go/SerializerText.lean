/-
What the text of a serializer tells about a layout.

A serializer prints the name of its record, the size of the buffer, and one statement for each member
that can be written. The main result, `serializer_text_eq_iff`, says that it tells exactly this and no
more: two serializers have the same text if and only if the names, the sizes and the slots of the
members that can be written agree, where the byte order of a slot counts only for an integer. Names are
inserted as they are, so a name may look like any part of a statement; the only demand is that it stays
on its line.

The text is taken apart from the outside to the inside. Its lines can be told apart because none of its
parts holds a line break, and the first two and the last two lines are fixed in number. On the first
line the receiver is the lowercase form of the name behind it, which has one character or two
(`header_inj`). In a statement the first round bracket, the first colon and the first square bracket
behind it are never part of a name, because the member's name is the last part of all
(`statement?_eq_iff`).
-/
import WireRecord.Go.Serializer
import WireRecord.Proofs.Text.Lines
import Mathlib.Data.List.Forall2

set_option autoImplicit false

namespace WireRecord

open Text (IsLine isLine_append ofLines)

/-! ## Slots that are written -/

/-- The slots of the members that can be written, as they are declared. -/
def Layout.encodedSlots (l : Layout) : List Slot := l.slots.filter (·.encoding.isSome)

/-- Two slots agree in what is written about them: the member's name, where the slot starts and stops,
how it is written and, for an integer, in which byte order. -/
structure Slot.WrittenAlike (s t : Slot) : Prop where
  name : s.member.name = t.member.name
  start : s.start = t.start
  stop : s.stop = t.stop
  encoding : s.encoding = t.encoding
  byteOrder : ∀ signed width, s.encoding = some (.put signed width) → s.byteOrder = t.byteOrder

/-- The record's name and the names of the members that can be written stay on their lines. -/
structure Record.WrittenOnLines (r : Record) : Prop where
  name : IsLine r.name
  member : ∀ m ∈ r.members, m.tag.encoding.isSome → IsLine m.name

/-- The receiver stays on the line of the name. -/
theorem Record.isLine_receiver {r : Record} (h : IsLine r.name) : IsLine r.receiver := by
  unfold Record.receiver
  split
  · next first rest hname =>
    rw [IsLine, String.toList_ofList]
    refine Text.newline_not_mem_lowercase ?_
    rintro rfl
    exact h (hname ▸ List.mem_cons_self)
  · decide

namespace Go

/-! ## The first line -/

/-- The line that opens a method. -/
def header (r : Record) : String :=
  "func (" ++ r.receiver ++ " " ++ r.name ++ ") MarshalBinary() ([]byte, error) \x7b"

/-- **The receiver hides no part of the name behind it.** It is of one character or of two, and the
second character of the text tells which: a receiver of two has no space there. -/
theorem receiver_space_name_inj {r r' : Record}
    (h : r.receiver.toList ++ ' ' :: r.name.toList = r'.receiver.toList ++ ' ' :: r'.name.toList) :
    r.name = r'.name := by
  rw [← String.toList_inj]
  unfold Record.receiver at h
  cases hname : r.name.toList with
  | nil =>
    cases hname' : r'.name.toList with
    | nil => rfl
    | cons c' rest' =>
      -- a text of one character has no room for a name
      have hlength := congrArg List.length h
      simp [hname, hname'] at hlength
      omega
  | cons c rest =>
    cases hname' : r'.name.toList with
    | nil =>
      have hlength := congrArg List.length h
      simp [hname, hname'] at hlength
      omega
    | cons c' rest' =>
      rw [hname, hname'] at h
      simp only [String.toList_ofList] at h
      rcases Text.lowercase_eq_singleton_or c with ⟨d, hd⟩ | ⟨-, hd⟩ <;>
        rcases Text.lowercase_eq_singleton_or c' with ⟨d', hd'⟩ | ⟨-, hd'⟩
      all_goals rw [hd, hd'] at h
      · simpa using (List.cons.inj h).2
      · simp at h
      · simp at h
      · simpa using h

/-- The first line tells the name. -/
theorem header_inj {r r' : Record} (h : header r = header r') : r.name = r'.name := by
  rw [header, header, String.append_left_inj, String.append_assoc, String.append_assoc,
    String.append_assoc, String.append_assoc, String.append_right_inj, ← String.toList_inj] at h
  exact receiver_space_name_inj (by simpa using h)

theorem receiver_congr {r r' : Record} (h : r.name = r'.name) : r.receiver = r'.receiver := by
  rw [Record.receiver, Record.receiver, h]

/-! ## Statements -/

/-- What a statement calls. -/
def verb (order : ByteOrder) : Encoding → String
  | .put signed width => byteOrderExpr order ++ "." ++ putVerb signed ++ width.text
  | .copy => "copy"

theorem statement?_eq (receiver : String) (s : Slot) :
    statement? receiver s = s.encoding.map fun e => verb s.byteOrder e ++ arguments receiver s := by
  unfold statement?
  split <;> simp_all [verb]

theorem byteOrderExpr_append_inj {o o' : ByteOrder} {s t : String}
    (h : byteOrderExpr o ++ s = byteOrderExpr o' ++ t) : o = o' ∧ s = t := by
  cases o <;> cases o' <;> simp_all [byteOrderExpr, ← String.toList_inj]

theorem putVerb_append_inj {a b : Bool} {s t : String} (h : putVerb a ++ s = putVerb b ++ t) :
    a = b ∧ s = t := by
  cases a <;> cases b <;> simp_all [putVerb, ← String.toList_inj]

/-- What a statement calls tells how the member is written, and the byte order of an integer. -/
theorem verb_inj {o o' : ByteOrder} {e e' : Encoding} (h : verb o e = verb o' e') :
    e = e' ∧ ∀ signed width, e = .put signed width → o = o' := by
  cases e with
  | put signed width =>
    cases e' with
    | put signed' width' =>
      simp only [verb, String.append_assoc] at h
      obtain ⟨rfl, hverb⟩ := byteOrderExpr_append_inj h
      obtain ⟨rfl, hwidth⟩ := putVerb_append_inj ((String.append_right_inj ".").mp hverb)
      rw [IntWidth.text_inj hwidth]
      exact ⟨rfl, fun _ _ _ => rfl⟩
    | copy =>
      cases o <;> simp [verb, byteOrderExpr, ← String.toList_inj] at h
  | copy =>
    cases e' with
    | put signed' width' =>
      cases o' <;> simp [verb, byteOrderExpr, ← String.toList_inj] at h
    | copy => exact ⟨rfl, fun _ _ he => by cases he⟩

/-- No call has a round bracket in its name. -/
theorem bracket_not_mem_verb (o : ByteOrder) (e : Encoding) : '(' ∉ (verb o e).toList := by
  cases e with
  | put signed width =>
    have hdigits : '(' ∉ width.text.toList := Text.not_mem_repr (by decide) width.bits
    cases o <;> cases signed <;> simpa [verb, byteOrderExpr, putVerb] using hdigits
  | copy => simp [verb]

/-- The characters of the arguments, up to the delimiters between them. -/
theorem toList_arguments (receiver : String) (s : Slot) :
    (arguments receiver s).toList = '(' :: ("buf[".toList ++ (s.start.text.toList ++ ':' ::
      (s.stop.text.toList ++ ']' :: (", ".toList ++ receiver.toList ++ '.' ::
        (s.member.name.toList ++ [')']))))) := by
  have hparts : arguments receiver s = "(buf[" ++ s.start.text ++ ":" ++ s.stop.text ++ "], "
      ++ receiver ++ "." ++ s.member.name ++ ")" := rfl
  rw [hparts]
  simp

/-- The arguments of a statement tell the range and the name. -/
theorem arguments_inj {receiver : String} {s t : Slot}
    (h : arguments receiver s = arguments receiver t) :
    s.start = t.start ∧ s.stop = t.stop ∧ s.member.name = t.member.name := by
  rw [← String.toList_inj, toList_arguments, toList_arguments] at h
  have hrange := List.append_cancel_left (List.cons.inj h).2
  obtain ⟨hstart, hstop⟩ := Text.append_cons_inj (Text.not_mem_repr (by decide) s.start.val)
    (Text.not_mem_repr (by decide) t.start.val) hrange
  obtain ⟨hstop, hmember⟩ := Text.append_cons_inj (Text.not_mem_repr (by decide) s.stop.val)
    (Text.not_mem_repr (by decide) t.stop.val) hstop
  -- the receivers are equal, and the bracket behind the name is the last character
  have hname := List.append_cancel_right (List.cons.inj (List.append_cancel_left hmember)).2
  exact ⟨Extent.text_inj (String.toList_inj.mp hstart), Extent.text_inj (String.toList_inj.mp hstop),
    String.toList_inj.mp hname⟩

/-- The call and its arguments can be told apart. -/
theorem verb_append_arguments_inj {receiver : String} {s t : Slot} {o o' : ByteOrder}
    {e e' : Encoding} (h : verb o e ++ arguments receiver s = verb o' e' ++ arguments receiver t) :
    verb o e = verb o' e' ∧ arguments receiver s = arguments receiver t := by
  have hchars := congrArg String.toList h
  rw [String.toList_append, String.toList_append, toList_arguments, toList_arguments] at hchars
  obtain ⟨hverb, -⟩ := Text.append_cons_inj (bracket_not_mem_verb o e)
    (bracket_not_mem_verb o' e') hchars
  rw [String.toList_inj.mp hverb, String.append_right_inj] at h
  exact ⟨String.toList_inj.mp hverb, h⟩

/-- **A statement tells what is written about its slot, and nothing else.** -/
theorem statement?_eq_iff {receiver : String} {s t : Slot} (hs : s.encoding.isSome) :
    statement? receiver s = statement? receiver t ↔ s.WrittenAlike t := by
  obtain ⟨e, he⟩ := Option.isSome_iff_exists.mp hs
  rw [statement?_eq, statement?_eq, he, Option.map_some]
  constructor
  · intro h
    obtain ⟨e', he', htext⟩ := Option.map_eq_some_iff.mp h.symm
    obtain ⟨hverb, harguments⟩ := verb_append_arguments_inj htext.symm
    obtain ⟨rfl, horder⟩ := verb_inj hverb
    obtain ⟨hstart, hstop, hname⟩ := arguments_inj harguments
    refine ⟨hname, hstart, hstop, he.trans he'.symm, fun signed width hput => ?_⟩
    exact horder signed width (Option.some.inj (he.symm.trans hput))
  · intro h
    have harguments : arguments receiver s = arguments receiver t := by
      rw [← String.toList_inj, toList_arguments, toList_arguments, h.start, h.stop, h.name]
    have hverb : verb s.byteOrder e = verb t.byteOrder e := by
      cases e with
      | put signed width => rw [h.byteOrder signed width he]
      | copy => rfl
    rw [← h.encoding, he, Option.map_some, harguments, hverb]

/-! ## The statements of a record -/

/-- The statements are those of the slots that are written, one for each. -/
theorem map_some_statements (r : Record) :
    (statements r).map some = r.layout.encodedSlots.map (statement? r.receiver) := by
  rw [statements, List.map_filterMap_some_eq_filter_map_isSome, List.filter_map]
  congr 1
  refine List.filter_congr fun s _ => ?_
  rw [Function.comp_apply, statement?_eq, Option.isSome_map]

theorem length_statements (r : Record) : (statements r).length = r.layout.encodedCount := by
  rw [← List.length_map some, map_some_statements, List.length_map, Layout.encodedCount,
    List.countP_eq_length_filter, Layout.encodedSlots]

/-- Records with the same receiver have the same statements exactly if the slots that are written are
written alike. -/
theorem statements_eq_iff {r r' : Record} (h : r.receiver = r'.receiver) :
    statements r = statements r' ↔
      List.Forall₂ Slot.WrittenAlike r.layout.encodedSlots r'.layout.encodedSlots := by
  have hsome : ∀ s ∈ r.layout.encodedSlots, s.encoding.isSome :=
    fun s hs => (List.mem_filter.mp hs).2
  rw [← List.map_inj_right fun _ _ => Option.some.inj, map_some_statements, map_some_statements, ← h,
    ← List.forall₂_eq_eq_eq, List.forall₂_map_left_iff, List.forall₂_map_right_iff]
  constructor
  · intro hall
    refine ((List.forall₂_and_left _ _).mpr ⟨hsome, hall⟩).imp ?_
    rintro s t ⟨hs, hst⟩
    exact (statement?_eq_iff hs).mp hst
  · intro hall
    refine ((List.forall₂_and_left _ _).mpr ⟨hsome, hall⟩).imp ?_
    rintro s t ⟨hs, hst⟩
    exact (statement?_eq_iff hs).mpr hst

/-! ## The text -/

/-- The line that declares the buffer. -/
def bufferLine (r : Record) : String := "\tvar buf [" ++ r.layout.size.text ++ "]byte"

/-- The lines of a serializer. -/
def serializerLines (r : Record) : List String :=
  header r :: bufferLine r :: ((statements r).map ("\t" ++ ·) ++ ["\treturn nil", "\x7d"])

/-- A serializer line by line, with its last two lines as one text. -/
theorem serializer_eq_append (r : Record) :
    serializer r = header r ++ "\n" ++ (bufferLine r ++ "\n")
      ++ String.join ((statements r).map bodyLine) ++ ("\treturn nil\n" ++ "\x7d") := by
  -- `delta`: the equation that `rw` would use is checked down to the bytes of the literals, slowly
  delta serializer header bufferLine
  simp only [String.append_assoc]
  rfl

theorem serializer_eq_ofLines (r : Record) : serializer r = ofLines (serializerLines r) := by
  have hlines : serializerLines r =
      (header r :: bufferLine r :: ((statements r).map ("\t" ++ ·) ++ ["\treturn nil"])) ++ ["\x7d"] := by
    simp [serializerLines]
  have hbody : (statements r).map bodyLine = ((statements r).map ("\t" ++ ·)).map (· ++ "\n") := by
    rw [List.map_map]
    rfl
  have hreturn : "\treturn nil" ++ "\n" = "\treturn nil\n" := rfl
  rw [serializer_eq_append, hlines, Text.ofLines_concat, hbody, List.map_cons, List.map_cons,
    List.map_append, String.join_cons, String.join_cons, String.join_append, List.map_singleton,
    String.join_cons, String.join_nil, hreturn]
  simp only [String.append_assoc, String.append_empty]

theorem isLine_verb (o : ByteOrder) (e : Encoding) : IsLine (verb o e) := by
  cases e with
  | put signed width =>
    have hwidth : IsLine width.text := Text.isLine_repr width.bits
    have horder : IsLine (byteOrderExpr o) := by cases o <;> decide
    have hverb : IsLine (putVerb signed) := by cases signed <;> decide
    simp only [verb, isLine_append]
    exact ⟨⟨⟨horder, by decide⟩, hverb⟩, hwidth⟩
  | copy =>
    show IsLine "copy"
    decide

theorem isLine_arguments {receiver : String} {s : Slot} (hreceiver : IsLine receiver)
    (hname : IsLine s.member.name) : IsLine (arguments receiver s) := by
  have hstart : IsLine s.start.text := Text.isLine_repr s.start.val
  have hstop : IsLine s.stop.text := Text.isLine_repr s.stop.val
  rw [IsLine, toList_arguments]
  simpa using ⟨hstart, hstop, hreceiver, hname⟩

/-- The statements stay on their lines if the names in them do. -/
theorem isLine_of_mem_statements {r : Record} (h : r.WrittenOnLines) {statement : String}
    (hmem : statement ∈ statements r) : IsLine statement := by
  obtain ⟨s, hs, htext⟩ := List.mem_filterMap.mp hmem
  rw [statement?_eq] at htext
  obtain ⟨e, he, rfl⟩ := Option.map_eq_some_iff.mp htext
  have hencoded : s.member.tag.encoding.isSome = true := by
    rw [← Layout.encoding_of_mem_slotsFrom hs, he]
    rfl
  have hname : IsLine s.member.name :=
    h.member s.member (Record.member_mem_of_mem_slots hs) hencoded
  exact isLine_append.mpr ⟨isLine_verb s.byteOrder e,
    isLine_arguments (Record.isLine_receiver h.name) hname⟩

/-- Each line of a serializer is one line. -/
theorem isLine_of_mem_serializerLines {r : Record} (h : r.WrittenOnLines) {line : String}
    (hmem : line ∈ serializerLines r) : IsLine line := by
  have hsize : IsLine r.layout.size.text := Text.isLine_repr r.layout.size.val
  simp only [serializerLines, List.mem_cons, List.mem_append, List.not_mem_nil, or_false,
    List.mem_map] at hmem
  rcases hmem with rfl | rfl | ⟨statement, hstatement, rfl⟩ | rfl | rfl
  · simp only [header, isLine_append, Record.isLine_receiver h.name, h.name, and_true]
    decide
  · simp only [bufferLine, isLine_append, hsize, and_true]
    decide
  · exact isLine_append.mpr ⟨by decide, isLine_of_mem_statements h hstatement⟩
  · decide
  · decide

/-- The lines of a serializer can be told apart: each part of the record prints its own. -/
theorem serializerLines_inj {r r' : Record} (h : serializerLines r = serializerLines r') :
    header r = header r' ∧ bufferLine r = bufferLine r' ∧ statements r = statements r' := by
  obtain ⟨hheader, hrest⟩ := List.cons.inj h
  obtain ⟨hbuffer, hbody⟩ := List.cons.inj hrest
  have htabs := List.append_cancel_right hbody
  exact ⟨hheader, hbuffer,
    (List.map_inj_right fun _ _ => (String.append_right_inj "\t").mp).mp htabs⟩

theorem bufferLine_inj {r r' : Record} (h : bufferLine r = bufferLine r') :
    r.layout.size = r'.layout.size := by
  rw [bufferLine, bufferLine, String.append_left_inj, String.append_right_inj] at h
  exact Extent.text_inj h

/-- Serializers with the same text write the same slots. -/
theorem of_serializer_eq {r r' : Record} (hr : r.WrittenOnLines) (hr' : r'.WrittenOnLines)
    (h : serializer r = serializer r') :
    r.name = r'.name ∧ r.layout.size = r'.layout.size ∧
      List.Forall₂ Slot.WrittenAlike r.layout.encodedSlots r'.layout.encodedSlots := by
  rw [serializer_eq_ofLines, serializer_eq_ofLines,
    Text.ofLines_inj (fun _ => isLine_of_mem_serializerLines hr)
      (fun _ => isLine_of_mem_serializerLines hr') (by simp [serializerLines])
      (by simp [serializerLines])] at h
  obtain ⟨hheader, hbuffer, hstatements⟩ := serializerLines_inj h
  have hname := header_inj hheader
  exact ⟨hname, bufferLine_inj hbuffer, (statements_eq_iff (receiver_congr hname)).mp hstatements⟩

/-- **The text of a serializer tells the layout of what is written, and nothing else.** Two serializers
have the same text exactly if the names of the records are equal, the buffers have the same size, and
the slots of the members that can be written agree one by one in name, start, stop and encoding, and in
the byte order if the member is an integer. -/
theorem serializer_text_eq_iff {r r' : Record} (hr : r.WrittenOnLines) (hr' : r'.WrittenOnLines) :
    (emitSerializer r).text = (emitSerializer r').text ↔
      r.name = r'.name ∧ r.layout.size = r'.layout.size ∧
        List.Forall₂ Slot.WrittenAlike r.layout.encodedSlots r'.layout.encodedSlots := by
  rw [text_emitSerializer, text_emitSerializer]
  refine ⟨of_serializer_eq hr hr', ?_⟩
  rintro ⟨hname, hsize, hslots⟩
  have hreceiver := receiver_congr hname
  have hstatements := (statements_eq_iff hreceiver).mpr hslots
  have hheader : header r = header r' := by rw [header, header, hname, hreceiver]
  have hbuffer : bufferLine r = bufferLine r' := by rw [bufferLine, bufferLine, hsize]
  rw [serializer_eq_ofLines, serializer_eq_ofLines, serializerLines, serializerLines, hheader, hbuffer,
    hstatements]

/-- A record with an integer, a member that is left out, and a string under a name that looks like the
end of one argument and the beginning of another. -/
def gaugeRecord : Record where
  name := "\u0130ndex"
  byteOrder := "big"
  members := [
    { name := "Level", tag := .unsigned .w16, size := .clamp 2 },
    { name := "Ratio", tag := .other "float32", size := .clamp 4 },
    { name := "a], i.b)", tag := .string, size := .clamp 3, offset := .clamp 1 }]

/-- The same slots, described otherwise: the token of the record is another one, the member that is
left out has another type and a name of two lines, and the string has a byte order of its own. -/
def gaugeRecordRespelled : Record where
  name := "\u0130ndex"
  byteOrder := "b"
  members := [
    { name := "Level", tag := .unsigned .w16, size := .clamp 2, byteOrder := some "" },
    { name := "Ra\ntio", tag := .other "uint16", size := .clamp 3, offset := .clamp 1 },
    { name := "a], i.b)", tag := .string, size := .clamp 3, offset := .clamp 1,
      byteOrder := some "little" }]

theorem serializer_text_gauge :
    gaugeRecord.WrittenOnLines ∧ gaugeRecordRespelled.WrittenOnLines ∧
      gaugeRecord ≠ gaugeRecordRespelled ∧
      (emitSerializer gaugeRecord).text = (emitSerializer gaugeRecordRespelled).text := by
  have hlines : gaugeRecord.WrittenOnLines := ⟨by decide, by decide⟩
  have hlines' : gaugeRecordRespelled.WrittenOnLines := ⟨by decide, by decide⟩
  refine ⟨hlines, hlines', by decide, (serializer_text_eq_iff hlines hlines').mpr ⟨rfl, rfl, ?_⟩⟩
  -- the two slots that are written; the string is the one whose byte order is not compared
  exact .cons ⟨rfl, rfl, rfl, rfl, fun _ _ _ => rfl⟩
    (.cons ⟨rfl, rfl, rfl, rfl, fun _ _ hput => by cases hput⟩ .nil)

end Go

end WireRecord
