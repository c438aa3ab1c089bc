/-
Layouts of lists of members one after the other.

A layout is planned from the beginning of a buffer, but nothing in it depends on where the beginning
is: planned from further on, every slot is the same slot further on. The main result, `layout_composes`,
follows: the layout of two lists of members, one after the other, is the layout of the first and behind
it the layout of the second, each position of the second moved on by the size of the first. So members
that are added at the end of a record never change what was planned, or is stated, for those before.

Positions are moved on by clamped addition, also those that were clamped already. That this is the same
as clamping later is the associativity of clamped addition and nothing else, used for one slot. The way
from one slot to all of them is the same for every change of a layout: if each slot changes in one way,
and the cursor behind it in the way that the slot's end does, then all slots change in that way
(`slotsFrom_map`). Moving is such a change, and so is describing the members otherwise.
-/
import WireRecord.Go.Serializer

set_option autoImplicit false

namespace WireRecord

/-- The same slot, so many bytes further on. -/
def Slot.movedBy (s : Slot) (bytes : Extent) : Slot :=
  { s with start := bytes + s.start, stop := bytes + s.stop }

namespace Layout

/-- The slots of one layout and behind them those of another. -/
def followedBy (a b : Layout) : Layout where
  slots := a.slots ++ b.slots.map (·.movedBy a.size)
  size := a.size + b.size

section Mapping

variable {f : Member → Member} {g : Slot → Slot} {h : Extent → Extent}

/-- **What changes each slot changes the layout.** The induction is on the members, from any cursor: the
next slot begins where the changed cursor is, because the changed slot ends there. -/
theorem slotsFrom_map (o o' : ByteOrder)
    (hslot : ∀ cursor m, slotAt o' (h cursor) (f m) = g (slotAt o cursor m))
    (hstop : ∀ s, (g s).stop = h s.stop) (cursor : Extent) (members : List Member) :
    slotsFrom o' (h cursor) (members.map f) = (slotsFrom o cursor members).map g := by
  induction members generalizing cursor with
  | nil => rfl
  | cons m rest ih =>
    have hnext : (slotAt o' (h cursor) (f m)).stop = h (slotAt o cursor m).stop := by
      rw [hslot, hstop]
    have hrest := ih (slotAt o cursor m).stop
    rw [List.map_cons, slotsFrom, slotsFrom, List.map_cons, hnext, hrest, hslot]

theorem endFrom_map
    (hstop : ∀ cursor m, h cursor + (f m).offset + (f m).size = h (cursor + m.offset + m.size))
    (cursor : Extent) (members : List Member) :
    endFrom (h cursor) (members.map f) = h (endFrom cursor members) := by
  induction members generalizing cursor with
  | nil => rfl
  | cons m rest ih => rw [List.map_cons, endFrom_cons, endFrom_cons, hstop, ih]

end Mapping

theorem slotAt_add (inherited : ByteOrder) (base cursor : Extent) (m : Member) :
    slotAt inherited (base + cursor) m = (slotAt inherited cursor m).movedBy base := by
  simp only [slotAt, Slot.movedBy, Extent.add_assoc]

/-- **Slots planned from further on are the same slots further on.** -/
theorem slotsFrom_add (inherited : ByteOrder) (base cursor : Extent) (members : List Member) :
    slotsFrom inherited (base + cursor) members =
      (slotsFrom inherited cursor members).map (·.movedBy base) := by
  have hmap := slotsFrom_map (f := id) (g := (·.movedBy base)) (h := (base + ·)) inherited inherited
    (slotAt_add inherited base) (fun _ => rfl) cursor members
  rwa [List.map_id] at hmap

theorem endFrom_add (base cursor : Extent) (members : List Member) :
    endFrom (base + cursor) members = base + endFrom cursor members := by
  have hstop : ∀ cursor (m : Member),
      base + cursor + m.offset + m.size = base + (cursor + m.offset + m.size) := by
    intro cursor m
    simp only [Extent.add_assoc]
  have hmap := endFrom_map (f := id) (h := (base + ·)) hstop cursor members
  rwa [List.map_id] at hmap

/-- A slot is written in the same way wherever it lies. -/
theorem encodedCount_followedBy (a b : Layout) :
    (a.followedBy b).encodedCount = a.encodedCount + b.encodedCount := by
  rw [encodedCount, followedBy, List.countP_append, List.countP_map]
  rfl

end Layout

/-- Two lists of members, one after the other, are planned one after the other. -/
theorem Record.layout_append (name token : String) (first second : List Member) :
    (Record.mk name token (first ++ second)).layout =
      (Record.mk name token first).layout.followedBy (Record.mk name token second).layout := by
  have hend := Layout.endFrom_add (Layout.endFrom 0 first) 0 second
  have hslots := Layout.slotsFrom_add (ByteOrder.ofToken token) (Layout.endFrom 0 first) 0 second
  rw [Extent.add_zero] at hend hslots
  simp only [layout, order, Layout.followedBy, Layout.slotsFrom_append, Layout.endFrom_append, hend,
    hslots]

namespace Go

/-- The statements of a record stay as they are when members are added at its end. -/
theorem statements_prefix (name token : String) (first second : List Member) :
    statements (Record.mk name token first) <+:
      statements (Record.mk name token (first ++ second)) := by
  simp only [statements, Record.layout_append, Layout.followedBy, List.filterMap_append]
  exact List.prefix_append _ _

/-- **Planning is compositional.** The layout of two lists of members, one after the other, has the size
of both together; its first slots are those of the first list, and the others are those of the second
list, each moved on by the size of the first, with the same member, byte order and encoding; and as many
members can be written as in both. Members that are added to a record one by one give that layout, and
leave every statement that was there before in its place. -/
theorem layout_composes (name token : String) (first second : List Member) :
    let record := Record.mk name token
    let a := (record first).layout
    let b := (record second).layout
    let whole := (record (first ++ second)).layout
    whole.size = a.size + b.size ∧
      whole.slots.take first.length = a.slots ∧
      whole.slots.drop first.length = b.slots.map (·.movedBy a.size) ∧
      whole.encodedCount = a.encodedCount + b.encodedCount ∧
      (second.foldl Record.withMember (record first)).layout = whole ∧
      statements (record first) <+: statements (second.foldl Record.withMember (record first)) := by
  intro record a b whole
  have hwhole : whole = a.followedBy b := Record.layout_append name token first second
  have hlength : a.slots.length = first.length := Layout.length_slotsFrom _ _ _
  have hadded : second.foldl Record.withMember (record first) = record (first ++ second) :=
    Record.foldl_withMember (record first) second
  refine ⟨?_, ?_, ?_, ?_, ?_, ?_⟩
  · rw [hwhole, Layout.followedBy]
  · rw [hwhole, Layout.followedBy, List.take_left' hlength]
  · rw [hwhole, Layout.followedBy, List.drop_left' hlength]
  · rw [hwhole, Layout.encodedCount_followedBy]
  · rw [hadded]
  · rw [hadded]
    exact statements_prefix name token first second

end Go

end WireRecord
