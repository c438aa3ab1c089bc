/-
Where the members of a record lie in its buffer.

A cursor starts at the beginning of the buffer. Each member in turn first skips its offset and then
occupies its size; what lies between is its slot, and the last position of the cursor is the size of
the buffer. The cursor moves by clamped addition, so a record whose members do not fit in any buffer
still has a layout, whose last slots are cut off or empty at the greatest position. A slot also says in
which byte order and how its member is written, both decided when it is placed
(`Layout.exists_eq_slotAt`), so that whoever writes the members looks at the slots alone.

The slots are computed from any position of the cursor (`Layout.slotsFrom`), because that is what
makes the layout of two lists of members, one after the other, the first layout followed by the
second one started at its end (`Layout.slotsFrom_append`).
-/
import WireRecord.Record

set_option autoImplicit false

namespace WireRecord

/-- How a member is written into the buffer. -/
inductive Encoding where
  /-- An integer of a width, stored in a byte order. -/
  | put (signed : Bool) (width : IntWidth)
  | copy
deriving DecidableEq, Repr

/-- How members of a type are written; a type that is not understood is not written at all. -/
def TypeTag.encoding : TypeTag → Option Encoding
  | unsigned width => some (.put false width)
  | signed width => some (.put true width)
  | string => some .copy
  | other _ => none

/-- The place of one member in the buffer. -/
structure Slot where
  member : Member
  start : Extent
  /-- The byte after its last one. -/
  stop : Extent
  byteOrder : ByteOrder
  /-- How the member is written there, if its type is understood. -/
  encoding : Option Encoding
deriving DecidableEq

/-- Whether an integer is stored in a slot. -/
def Slot.isInteger (s : Slot) : Bool :=
  match s.encoding with
  | some (.put ..) => true
  | some .copy | none => false

/-- The places of all members of a record. -/
structure Layout where
  /-- One slot for each member, as they are declared. -/
  slots : List Slot
  size : Extent
deriving DecidableEq

namespace Layout

/-- The slot of a member when the cursor stands at a position. -/
def slotAt (inherited : ByteOrder) (cursor : Extent) (m : Member) : Slot where
  member := m
  start := cursor + m.offset
  stop := cursor + m.offset + m.size
  byteOrder := m.order inherited
  encoding := m.tag.encoding

/-- The slots of members that follow one another from a position. -/
def slotsFrom (inherited : ByteOrder) (cursor : Extent) : List Member → List Slot
  | [] => []
  | m :: rest =>
    let slot := slotAt inherited cursor m
    slot :: slotsFrom inherited slot.stop rest

/-- Where the cursor stands after members that follow one another from a position. -/
def endFrom (cursor : Extent) (members : List Member) : Extent :=
  members.foldl (fun c m => c + m.offset + m.size) cursor

/-- How many members are written into the buffer. -/
def encodedCount (l : Layout) : Nat := l.slots.countP (·.encoding.isSome)

/-! ## Slots one after the other -/

@[simp] theorem endFrom_nil (cursor : Extent) : endFrom cursor [] = cursor := rfl

@[simp] theorem endFrom_cons (cursor : Extent) (m : Member) (rest : List Member) :
    endFrom cursor (m :: rest) = endFrom (cursor + m.offset + m.size) rest := rfl

theorem endFrom_append (cursor : Extent) (before after : List Member) :
    endFrom cursor (before ++ after) = endFrom (endFrom cursor before) after :=
  List.foldl_append

/-- There is one slot for each member, in the order of the members. -/
@[simp] theorem map_member_slotsFrom (inherited : ByteOrder) (cursor : Extent)
    (members : List Member) : (slotsFrom inherited cursor members).map (·.member) = members := by
  induction members generalizing cursor with
  | nil => rfl
  | cons m rest ih => simp [slotsFrom, slotAt, ih]

@[simp] theorem length_slotsFrom (inherited : ByteOrder) (cursor : Extent)
    (members : List Member) : (slotsFrom inherited cursor members).length = members.length := by
  rw [← List.length_map (·.member), map_member_slotsFrom]

/-- A slot is that of its own member, for some position of the cursor. -/
theorem exists_eq_slotAt {inherited : ByteOrder} {cursor : Extent} {members : List Member} {s : Slot}
    (h : s ∈ slotsFrom inherited cursor members) :
    ∃ position, s = slotAt inherited position s.member := by
  induction members generalizing cursor with
  | nil => cases h
  | cons m rest ih =>
    rcases List.mem_cons.mp h with rfl | hrest
    · exact ⟨cursor, rfl⟩
    · exact ih hrest

theorem byteOrder_of_mem_slotsFrom {inherited : ByteOrder} {cursor : Extent} {members : List Member}
    {s : Slot} (h : s ∈ slotsFrom inherited cursor members) :
    s.byteOrder = s.member.order inherited := by
  obtain ⟨position, hs⟩ := exists_eq_slotAt h
  rw [hs]
  rfl

theorem encoding_of_mem_slotsFrom {inherited : ByteOrder} {cursor : Extent} {members : List Member}
    {s : Slot} (h : s ∈ slotsFrom inherited cursor members) : s.encoding = s.member.tag.encoding := by
  obtain ⟨position, hs⟩ := exists_eq_slotAt h
  rw [hs]
  rfl

/-- **Slots are placed from left to right.** What follows a list of members starts where that list
ends, and does not move it. -/
theorem slotsFrom_append (inherited : ByteOrder) (cursor : Extent) (before after : List Member) :
    slotsFrom inherited cursor (before ++ after) =
      slotsFrom inherited cursor before ++ slotsFrom inherited (endFrom cursor before) after := by
  induction before generalizing cursor with
  | nil => rfl
  | cons m rest ih => simp [slotsFrom, slotAt, ih]

end Layout

namespace Record

def layout (r : Record) : Layout where
  slots := Layout.slotsFrom r.order 0 r.members
  size := Layout.endFrom 0 r.members

@[simp] theorem map_member_slots (r : Record) : r.layout.slots.map (·.member) = r.members :=
  Layout.map_member_slotsFrom r.order 0 r.members

/-- What the slots have from their members alone can be taken from the members. -/
theorem map_slots_eq {α : Type} {r : Record} {f : Slot → α} {g : Member → α}
    (h : ∀ s ∈ r.layout.slots, f s = g s.member) : r.layout.slots.map f = r.members.map g := by
  conv => rhs; rw [← r.map_member_slots]
  rw [List.map_map]
  exact List.map_congr_left h

theorem member_mem_of_mem_slots {r : Record} {s : Slot} (h : s ∈ r.layout.slots) :
    s.member ∈ r.members := by
  rw [← r.map_member_slots]
  exact List.mem_map_of_mem h

/-- The members tell whether a slot is for an integer. -/
theorem any_isInteger_slots (r : Record) :
    r.layout.slots.any Slot.isInteger = r.members.any (·.tag.isInteger) := by
  have hmap : r.layout.slots.map Slot.isInteger = r.members.map (·.tag.isInteger) := by
    apply map_slots_eq
    intro s hs
    rw [Slot.isInteger, Layout.encoding_of_mem_slotsFrom hs]
    cases s.member.tag <;> rfl
  have hany := congrArg (List.any · id) hmap
  rwa [List.any_map, List.any_map] at hany

end Record

end WireRecord
