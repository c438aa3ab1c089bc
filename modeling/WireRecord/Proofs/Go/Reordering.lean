/-
Members in another order.

Where a member lies depends on all members before it. If a record outgrows the greatest count, even the
member at which the cursor stops is another one in each order. The main result, `reordering_conserves`,
says what does not depend on the order: the size of the buffer, how many members are written, whether a
source file imports the package that stores integers, and of each slot everything but its place. The
serializer keeps its first two lines, and its statements are the same, in another order, but for the
positions in them. If the record fits, each member also keeps the length of its slot.

Two facts carry all of it. The cursor ends at the exact sum of all members, clamped once, and a sum does
not depend on the order (`Layout.endFrom_perm`). And what a slot says apart from its place comes from its
own member (`Record.map_content_slots`), so the slots without their places are permuted as the members
are. Everything else is read off these.
-/
import WireRecord.Proofs.Go.Accounting
import WireRecord.Proofs.Go.ByteOrderInheritance
import WireRecord.Proofs.Go.SectionJoin
import WireRecord.Proofs.Layout.SideBySide

set_option autoImplicit false

namespace WireRecord

/-- The same record with other members, or with its own in another order. -/
def Record.withMembers (r : Record) (members : List Member) : Record := { r with members }

/-! ## Slots without their places -/

/-- What a slot says apart from its place. -/
structure Slot.Content where
  name : String
  tag : TypeTag
  size : Extent
  byteOrder : ByteOrder
  encoding : Option Encoding
deriving DecidableEq

def Slot.content (s : Slot) : Slot.Content :=
  ⟨s.member.name, s.member.tag, s.member.size, s.byteOrder, s.encoding⟩

/-- What the slot of a member says apart from its place, in a record of a given order. -/
def Member.content (inherited : ByteOrder) (m : Member) : Slot.Content :=
  ⟨m.name, m.tag, m.size, m.order inherited, m.tag.encoding⟩

namespace Record

/-- **What a slot says apart from its place comes from its member.** -/
theorem map_content_slots (r : Record) :
    r.layout.slots.map Slot.content = r.members.map (Member.content r.order) := by
  apply map_slots_eq
  intro s hs
  have horder : s.byteOrder = s.member.order r.order := Layout.byteOrder_of_mem_slotsFrom hs
  have hencoding : s.encoding = s.member.tag.encoding := Layout.encoding_of_mem_slotsFrom hs
  rw [Slot.content, Member.content, horder, hencoding]

/-- If all members fit together, each slot is as long as its member. -/
theorem map_length_slots {r : Record} (h : Layout.span r.members ≤ Extent.greatest) :
    r.layout.slots.map (fun s => (s.member.name, s.stop.val - s.start.val)) =
      r.members.map fun m => (m.name, m.size.val) := by
  apply map_slots_eq
  intro s hs
  obtain ⟨place, hplace⟩ := List.mem_iff_getElem?.mp hs
  have hlength := (r.readsOff_layout_iff.mpr h place s hplace).2
  rw [hlength]

end Record

/-! ## Members permuted -/

namespace Layout

theorem span_perm {members members' : List Member} (h : members'.Perm members) :
    span members' = span members :=
  (h.map fun m : Member => m.offset.val + m.size.val).sum_nat

/-- **The cursor ends at the same position in every order**, although it may be clamped at other members
on its way. -/
theorem endFrom_perm {members members' : List Member} (h : members'.Perm members) (cursor : Extent) :
    endFrom cursor members' = endFrom cursor members := by
  rw [endFrom_eq_clamp, endFrom_eq_clamp, span_perm h]

theorem encodedCount_eq (l : Layout) :
    l.encodedCount = (l.slots.map Slot.content).countP (·.encoding.isSome) := by
  rw [encodedCount, List.countP_map]
  rfl

end Layout

namespace Record

variable {r : Record} {members : List Member}

theorem size_withMembers (h : members.Perm r.members) :
    (r.withMembers members).layout.size = r.layout.size :=
  Layout.endFrom_perm h 0

theorem content_perm (h : members.Perm r.members) :
    ((r.withMembers members).layout.slots.map Slot.content).Perm (r.layout.slots.map Slot.content) := by
  rw [map_content_slots, map_content_slots]
  exact h.map (Member.content r.order)

theorem encodedCount_withMembers (h : members.Perm r.members) :
    (r.withMembers members).layout.encodedCount = r.layout.encodedCount := by
  rw [Layout.encodedCount_eq, Layout.encodedCount_eq]
  exact (content_perm h).countP_eq _

end Record

namespace Go

/-! ## Statements without their positions -/

/-- A statement without the two positions in it, which stand in its first square brackets. -/
def withoutRange (statement : String) : String :=
  let (call, behindCall) := Text.cutAt '[' statement.toList
  let (_, behindRange) := Text.cutAt ']' behindCall
  String.ofList (call ++ ("[:]".toList ++ behindRange))

/-- The statement for a slot without the positions, if the slot is written. -/
def rangeless? (receiver : String) (c : Slot.Content) : Option String :=
  c.encoding.map fun e => verb c.byteOrder e ++ ("(buf[:], " ++ receiver ++ "." ++ c.name ++ ")")

theorem squareBracket_not_mem_verb (o : ByteOrder) (e : Encoding) : '[' ∉ (verb o e).toList := by
  cases e with
  | put signed width =>
    have hdigits : '[' ∉ width.text.toList := Text.not_mem_repr (by decide) width.bits
    cases o <;> cases signed <;> simpa [verb, byteOrderExpr, putVerb] using hdigits
  | copy => simp [verb]

/-- **Nothing but the positions is left out of a statement**, whatever the names in it are. -/
theorem withoutRange_statement (receiver : String) (s : Slot) (e : Encoding) :
    withoutRange (verb s.byteOrder e ++ arguments receiver s) =
      verb s.byteOrder e ++ ("(buf[:], " ++ receiver ++ "." ++ s.member.name ++ ")") := by
  have hcall : '[' ∉ (verb s.byteOrder e).toList ++ "(buf".toList := by
    rw [List.mem_append, not_or]
    exact ⟨squareBracket_not_mem_verb s.byteOrder e, by decide⟩
  have hrange : ']' ∉ s.start.text.toList ++ ':' :: s.stop.text.toList := by
    have hstart : ']' ∉ s.start.text.toList := Text.not_mem_repr (by decide) s.start.val
    have hstop : ']' ∉ s.stop.text.toList := Text.not_mem_repr (by decide) s.stop.val
    simp [hstart, hstop]
  have htext : (verb s.byteOrder e ++ arguments receiver s).toList =
      ((verb s.byteOrder e).toList ++ "(buf".toList) ++ '[' ::
        ((s.start.text.toList ++ ':' :: s.stop.text.toList) ++ ']' ::
          (", ".toList ++ receiver.toList ++ '.' :: (s.member.name.toList ++ [')']))) := by
    rw [String.toList_append, toList_arguments]
    simp
  rw [withoutRange, htext, Text.cutAt_append_cons hcall]
  dsimp only
  rw [Text.cutAt_append_cons hrange, ← String.toList_inj]
  simp

/-- Without their positions, the statements are those of the slots without their places. -/
theorem map_withoutRange_statements (r : Record) :
    (statements r).map withoutRange =
      (r.layout.slots.map Slot.content).filterMap (rangeless? r.receiver) := by
  rw [statements, List.map_filterMap, List.filterMap_map]
  apply List.filterMap_congr
  intro s _
  rw [statement?_eq, Option.map_map, Function.comp_apply, rangeless?]
  refine congrArg (Option.map · s.encoding) (funext fun e => ?_)
  exact withoutRange_statement r.receiver s e

example : withoutRange "copy(buf[4:18], g.a], i[0:1])" = "copy(buf[:], g.a], i[0:1])" := by
  decide +kernel

/-! ## What a record keeps -/

theorem needsBinaryImport_withMembers {r : Record} {members : List Member} (h : members.Perm r.members)
    (before after : List Record) :
    needsBinaryImport (before ++ r.withMembers members :: after) =
      needsBinaryImport (before ++ r :: after) := by
  have hrecord : (r.withMembers members).members.any (·.tag.isInteger) =
      r.members.any (·.tag.isInteger) := h.any_eq
  simp only [needsBinaryImport_eq_any_members, List.any_append, List.any_cons, hrecord]

/-- **Reordering the members of a record conserves space and work.** The size of the buffer, the number of
members that are written and the import of every source file with the record stay as they are, and so does
what each slot says apart from its place. The serializer has the same first two lines and as many
statements, and without their positions these are the same ones in another order. If the exact sum of all
offsets and sizes fits in 64 bits, each slot keeps its length. -/
theorem reordering_conserves (r : Record) {members : List Member} (h : members.Perm r.members) :
    let r' := r.withMembers members
    let opening := header r ++ "\n" ++ (bufferLine r ++ "\n")
    let closing := "\treturn nil\n" ++ "\x7d"
    r'.layout.size = r.layout.size ∧
    r'.layout.encodedCount = r.layout.encodedCount ∧
    (∀ before after, needsBinaryImport (before ++ r' :: after) =
      needsBinaryImport (before ++ r :: after)) ∧
    (r'.layout.slots.map Slot.content).Perm (r.layout.slots.map Slot.content) ∧
    (emitSerializer r).text = opening ++ String.join ((statements r).map bodyLine) ++ closing ∧
    (emitSerializer r').text = opening ++ String.join ((statements r').map bodyLine) ++ closing ∧
    (statements r').length = (statements r).length ∧
    ((statements r').map withoutRange).Perm ((statements r).map withoutRange) ∧
    (Layout.span r.members ≤ 2 ^ 64 - 1 →
      (r'.layout.slots.map fun s => (s.member.name, s.stop.val - s.start.val)).Perm
        (r.layout.slots.map fun s => (s.member.name, s.stop.val - s.start.val))) := by
  intro r' opening closing
  have hsize : r'.layout.size = r.layout.size := Record.size_withMembers h
  have hcontent : (r'.layout.slots.map Slot.content).Perm (r.layout.slots.map Slot.content) :=
    Record.content_perm h
  refine ⟨hsize, Record.encodedCount_withMembers h, needsBinaryImport_withMembers h, hcontent,
    ?_, ?_, ?_, ?_, ?_⟩
  · rw [text_emitSerializer, serializer_eq_append]
  · have hheader : header r' = header r := rfl
    have hbuffer : bufferLine r' = bufferLine r := by rw [bufferLine, bufferLine, hsize]
    rw [text_emitSerializer, serializer_eq_append, hheader, hbuffer]
  · rw [length_statements, length_statements]
    exact Record.encodedCount_withMembers h
  · rw [map_withoutRange_statements, map_withoutRange_statements]
    exact hcontent.filterMap (rangeless? r.receiver)
  · intro hfits
    have hspan : Layout.span r'.members = Layout.span r.members := Layout.span_perm h
    have hfits' : Layout.span r'.members ≤ 2 ^ 64 - 1 := hspan.trans_le hfits
    rw [Record.map_length_slots hfits, Record.map_length_slots hfits']
    exact h.map fun m => (m.name, m.size.val)

/-- A record that outgrows the greatest count at its second member, and in the other order at its last. -/
def crowdedRecord : Record where
  name := "Dump"
  members := [
    { name := "Head", tag := .unsigned .w32, size := .clamp 4 },
    { name := "Body", tag := .string, size := .clamp 18446744073709551615 },
    { name := "Tail", tag := .other "float32", size := .clamp 4, offset := .clamp 2 }]

/-- The other order leaves no room for the first member, but conserves size and statements. -/
theorem reordering_conserves_crowded :
    let reversed := crowdedRecord.withMembers crowdedRecord.members.reverse
    crowdedRecord.members.reverse.Perm crowdedRecord.members ∧
    crowdedRecord.layout.slots.map (fun s => (s.member.name, s.stop.val - s.start.val)) =
      [("Head", 4), ("Body", 18446744073709551611), ("Tail", 0)] ∧
    reversed.layout.slots.map (fun s => (s.member.name, s.stop.val - s.start.val)) =
      [("Tail", 4), ("Body", 18446744073709551609), ("Head", 0)] ∧
    reversed.layout.size = crowdedRecord.layout.size ∧
    ((statements reversed).map withoutRange).Perm ((statements crowdedRecord).map withoutRange) := by
  intro reversed
  have hperm : crowdedRecord.members.reverse.Perm crowdedRecord.members := List.reverse_perm _
  obtain ⟨hsize, -, -, -, -, -, -, hstatements, -⟩ := reordering_conserves crowdedRecord hperm
  exact ⟨hperm, by decide, by decide, hsize, hstatements⟩

end Go

end WireRecord
