/-
Members without an encoding are padding.

A member of a type that is not understood has bytes of its own in the buffer, but nothing is stored
there. The main result, `skipped_members_are_padding`, says that this is all there is to it: a run of
such members can be taken out of a record, anywhere, if the member behind them leaves free the bytes
that they took, and neither the serializer nor the place of any other member changes. The bytes are
counted without a limit and clamped once, so nothing depends on where the sums outgrow the limit.

The slots of the members before the run are not touched. Behind the run the cursor stands in the same
place in both records after the offset of the next member (`endFrom_add_offset`), so this member and
those behind it have the same ranges. The run itself has no statements, so the statements are those of
the slots that remain.
-/
import WireRecord.Proofs.Layout.ExactSums
import WireRecord.Proofs.Go.SerializerText

set_option autoImplicit false

namespace WireRecord

/-- The same member behind as many free bytes as it and the given members take before its first byte. -/
def Member.behind (m : Member) (skipped : List Member) : Member :=
  m.withOffset (Extent.clamp (Layout.span skipped + m.offset.val))

/-- Two slots are the same for whoever stores or looks for a member in the buffer: the members have the
same name, and lie in the same place, in the same byte order and encoding. -/
structure Slot.StoredAlike (s t : Slot) : Prop where
  name : s.member.name = t.member.name
  start : s.start = t.start
  stop : s.stop = t.stop
  byteOrder : s.byteOrder = t.byteOrder
  encoding : s.encoding = t.encoding

theorem Slot.StoredAlike.refl (s : Slot) : s.StoredAlike s := ⟨rfl, rfl, rfl, rfl, rfl⟩

theorem Slot.StoredAlike.writtenAlike {s t : Slot} (h : s.StoredAlike t) : s.WrittenAlike t :=
  ⟨h.name, h.start, h.stop, h.encoding, fun _ _ _ => h.byteOrder⟩

/-- Of slots that are stored alike, those that have statements are written alike. -/
theorem Slot.encoded_writtenAlike {slots slots' : List Slot}
    (h : List.Forall₂ Slot.StoredAlike slots slots') :
    List.Forall₂ Slot.WrittenAlike (slots.filter (·.encoding.isSome))
      (slots'.filter (·.encoding.isSome)) := by
  refine List.rel_filter (fun s t hst => ?_) (h.imp fun _ _ hst => hst.writtenAlike)
  simp only [hst.encoding]

namespace Layout

/-- **Behind a run of members the cursor stands where an offset alone would have brought it.** -/
theorem endFrom_add_offset (cursor : Extent) (skipped : List Member) (m : Member) :
    endFrom cursor skipped + m.offset = cursor + (m.behind skipped).offset := by
  rw [endFrom_eq_clamp, Extent.clamp_add_val]
  ext
  simp only [Member.behind, Member.withOffset, Extent.val_add, Extent.val_clamp]
  omega

theorem slotAt_behind (inherited : ByteOrder) (cursor : Extent) (skipped : List Member) (m : Member) :
    (slotAt inherited (endFrom cursor skipped) m).StoredAlike
      (slotAt inherited cursor (m.behind skipped)) := by
  have hstart := endFrom_add_offset cursor skipped m
  refine ⟨rfl, hstart, ?_, rfl, rfl⟩
  show endFrom cursor skipped + m.offset + m.size = cursor + (m.behind skipped).offset + m.size
  rw [hstart]

theorem endFrom_behind (cursor : Extent) (skipped : List Member) (m : Member) (rest : List Member) :
    endFrom cursor (skipped ++ m :: rest) = endFrom cursor (m.behind skipped :: rest) := by
  rw [endFrom_append, endFrom_cons, endFrom_cons, endFrom_add_offset]
  rfl

/-- The slots of a run and of what stands behind it, next to the slots without the run. -/
theorem slotsFrom_behind (inherited : ByteOrder) (cursor : Extent) (skipped : List Member) (m : Member)
    (rest : List Member) :
    ∃ behind, slotsFrom inherited cursor (skipped ++ m :: rest) =
        slotsFrom inherited cursor skipped ++ behind ∧
      List.Forall₂ Slot.StoredAlike behind
        (slotsFrom inherited cursor (m.behind skipped :: rest)) := by
  refine ⟨_, slotsFrom_append inherited cursor skipped (m :: rest), ?_⟩
  have hslot := slotAt_behind inherited cursor skipped m
  refine .cons hslot ?_
  rw [hslot.stop]
  exact List.forall₂_same.mpr fun s _ => Slot.StoredAlike.refl s

end Layout

namespace Go

/-- The statements are the same if the slots that have some are stored alike. -/
theorem encodedSlots_writtenAlike {l l' : Layout} {kept skipped behind : List Slot}
    (hslots : l.slots = kept ++ skipped ++ behind) (hskipped : ∀ s ∈ skipped, s.encoding = none)
    (hstored : List.Forall₂ Slot.StoredAlike (kept ++ behind) l'.slots) :
    List.Forall₂ Slot.WrittenAlike l.encodedSlots l'.encodedSlots := by
  have hnone : skipped.filter (·.encoding.isSome) = [] := by
    refine List.filter_eq_nil_iff.mpr fun s hs => ?_
    rw [hskipped s hs]
    exact Bool.false_ne_true
  have hencoded : l.encodedSlots = (kept ++ behind).filter (·.encoding.isSome) := by
    rw [Layout.encodedSlots, hslots, List.filter_append, List.filter_append, hnone, List.append_nil,
      ← List.filter_append]
  rw [hencoded]
  exact Slot.encoded_writtenAlike hstored

theorem serializer_congr {r r' : Record} (hname : r.name = r'.name)
    (hsize : r.layout.size = r'.layout.size)
    (hslots : List.Forall₂ Slot.WrittenAlike r.layout.encodedSlots r'.layout.encodedSlots) :
    serializer r = serializer r' := by
  have hreceiver := receiver_congr hname
  have hheader : header r = header r' := by rw [header, header, hname, hreceiver]
  have hbuffer : bufferLine r = bufferLine r' := by rw [bufferLine, bufferLine, hsize]
  rw [serializer_eq_ofLines, serializer_eq_ofLines, serializerLines, serializerLines, hheader, hbuffer,
    (statements_eq_iff hreceiver).mpr hslots]

/-- **A member without an encoding is exactly padding.** If the members that stand between two parts of a
record are all of types that are not understood, they can be left out, with their offsets and sizes
added to the offset of the member behind them: the serializer stays the same text, the buffer has the
same size, and the layout is the one before without the slots of these members, each of the others
having the same name, range, byte order and encoding. The offset is the exact sum, clamped. -/
theorem skipped_members_are_padding (r : Record) (before skipped after : List Member) (m : Member)
    (hskipped : ∀ s ∈ skipped, ∃ text, s.tag = .other text) :
    let original : Record := { r with members := before ++ skipped ++ [m] ++ after }
    let padded : Record := { r with members := before ++ [m.behind skipped] ++ after }
    (emitSerializer padded).text = (emitSerializer original).text ∧
      padded.layout.size = original.layout.size ∧
      ∃ first gone last : List Slot, original.layout.slots = first ++ gone ++ last ∧
        first.map (·.member) = before ∧ gone.map (·.member) = skipped ∧
        List.Forall₂ Slot.StoredAlike (first ++ last) padded.layout.slots := by
  intro original padded
  have hmembers : original.members = before ++ (skipped ++ m :: after) := by
    simp only [original, List.append_assoc, List.singleton_append]
  have hmembers' : padded.members = before ++ m.behind skipped :: after := by
    simp only [padded, List.append_assoc, List.singleton_append]
  have hsize : original.layout.size = padded.layout.size := by
    simp only [Record.layout]
    rw [hmembers, hmembers', Layout.endFrom_append, Layout.endFrom_append 0 before,
      Layout.endFrom_behind]
  -- both records have the same slots before the run, and the same cursor at its beginning
  obtain ⟨last, hlast, hstored⟩ :=
    Layout.slotsFrom_behind r.order (Layout.endFrom 0 before) skipped m after
  have hslots : original.layout.slots = Layout.slotsFrom r.order 0 before
      ++ Layout.slotsFrom r.order (Layout.endFrom 0 before) skipped ++ last := by
    simp only [Record.layout, hmembers, Layout.slotsFrom_append _ _ before, List.append_assoc]
    exact congrArg _ hlast
  have hall : List.Forall₂ Slot.StoredAlike (Layout.slotsFrom r.order 0 before ++ last)
      padded.layout.slots := by
    simp only [Record.layout, hmembers', Layout.slotsFrom_append _ _ before]
    exact List.rel_append (List.forall₂_same.mpr fun s _ => Slot.StoredAlike.refl s) hstored
  have hnone : ∀ s ∈ Layout.slotsFrom r.order (Layout.endFrom 0 before) skipped, s.encoding = none := by
    intro s hs
    have hmem : s.member ∈ skipped := by
      rw [← Layout.map_member_slotsFrom r.order (Layout.endFrom 0 before) skipped]
      exact List.mem_map_of_mem hs
    obtain ⟨text, htag⟩ := hskipped s.member hmem
    rw [Layout.encoding_of_mem_slotsFrom hs, htag]
    rfl
  refine ⟨?_, hsize.symm, _, _, last, hslots, Layout.map_member_slotsFrom _ _ _,
    Layout.map_member_slotsFrom _ _ _, hall⟩
  have htext : serializer original = serializer padded :=
    serializer_congr rfl hsize (encodedSlots_writtenAlike hslots hnone hall)
  rw [text_emitSerializer, text_emitSerializer, htext]

/-- Two members that are left out outgrow the limit before the integer behind them, which is cut off at
the greatest position; the string before them keeps its place. -/
def overgrownRecord : Record where
  name := "Overgrown"
  members := [
    { name := "Label", tag := .string, size := .clamp 5 },
    { name := "Blob", tag := .other "[]byte", size := .clamp Extent.greatest, offset := .clamp 1 },
    { name := "Ratio", tag := .other "float32", size := .clamp 4 },
    { name := "Count", tag := .unsigned .w8, size := .clamp 1, offset := .clamp 3 }]

theorem skipped_members_overgrown :
    (∀ s ∈ (overgrownRecord.members.drop 1).take 2, ∃ text, s.tag = .other text) ∧
      (emitSerializer { overgrownRecord with members := [
        { name := "Label", tag := .string, size := .clamp 5 },
        { name := "Count", tag := .unsigned .w8, size := .clamp 1,
          offset := .clamp Extent.greatest }] }).text = (emitSerializer overgrownRecord).text := by
  have hskipped : ∀ s ∈ (overgrownRecord.members.drop 1).take 2, ∃ text, s.tag = .other text := by
    simp [overgrownRecord]
  have hpadding := skipped_members_are_padding overgrownRecord (overgrownRecord.members.take 1)
    ((overgrownRecord.members.drop 1).take 2) []
    { name := "Count", tag := .unsigned .w8, size := .clamp 1, offset := .clamp 3 } hskipped
  exact ⟨hskipped, hpadding.1⟩

end Go

end WireRecord
