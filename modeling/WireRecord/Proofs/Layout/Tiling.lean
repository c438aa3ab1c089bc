/-
Slots lie side by side.

The slots of a layout do not overlap: each begins where the one before it has ended, or later. Stated
for all pairs of slots this would be a fact about every two places of a list; stated as `Layout.Tiles`
it is a fact about one slot and the place where the next may begin, so it goes through the recursion
that makes the slots. The main result is `tiles_slots`: the slots of a record tile its buffer, from
the first byte to the last, also where the cursor has stopped at the greatest count.
-/
import WireRecord.Layout

set_option autoImplicit false

namespace WireRecord

namespace Layout

/-- Slots follow one another between two positions: each begins at or after the first position, ends
at or after its own beginning, and leaves the rest of the positions to the slots after it. -/
def Tiles (lo : Nat) : List Slot → Nat → Prop
  | [], hi => lo ≤ hi
  | s :: rest, hi => lo ≤ s.start.val ∧ s.start.val ≤ s.stop.val ∧ Tiles s.stop.val rest hi

/-- Addition that stops at the greatest count does not go back. -/
theorem val_le_val_add (a b : Extent) : a.val ≤ (a + b).val := by
  have ha := a.val_le
  rw [Extent.val_add]
  omega

/-- What lies between two positions leaves them in order. -/
theorem Tiles.le {slots : List Slot} {lo hi : Nat} (h : Tiles lo slots hi) : lo ≤ hi := by
  induction slots generalizing lo with
  | nil => exact h
  | cons s rest ih =>
    obtain ⟨hstart, hstop, hrest⟩ := h
    have := ih hrest
    omega

/-- A slot among others that follow one another lies between the same two positions. -/
theorem Tiles.bounds {slots : List Slot} {lo hi : Nat} (h : Tiles lo slots hi) {s : Slot}
    (hs : s ∈ slots) : lo ≤ s.start.val ∧ s.start.val ≤ s.stop.val ∧ s.stop.val ≤ hi := by
  induction slots generalizing lo with
  | nil => cases hs
  | cons t rest ih =>
    obtain ⟨hstart, hstop, hrest⟩ := h
    rcases List.mem_cons.mp hs with rfl | hs
    · exact ⟨hstart, hstop, hrest.le⟩
    · have := ih hrest hs
      omega

/-- The slots of members that follow one another from a position tile what the cursor passes. -/
theorem tiles_slotsFrom (inherited : ByteOrder) (cursor : Extent) (members : List Member) :
    Tiles cursor.val (slotsFrom inherited cursor members) (endFrom cursor members).val := by
  induction members generalizing cursor with
  | nil => exact Nat.le_refl _
  | cons m rest ih =>
    refine ⟨val_le_val_add cursor m.offset, val_le_val_add (cursor + m.offset) m.size, ?_⟩
    rw [endFrom_cons]
    exact ih (cursor + m.offset + m.size)

end Layout

/-- **The slots of a record tile its buffer.** -/
theorem Record.tiles_slots (r : Record) : Layout.Tiles 0 r.layout.slots r.layout.size.val :=
  Layout.tiles_slotsFrom r.order 0 r.members

end WireRecord
