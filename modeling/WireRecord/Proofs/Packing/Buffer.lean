/-
Packing: what the statements of a serializer leave in the buffer.

A buffer starts as zeros. The statements run in the order of the slots, and each one first takes the
bytes of its own slot and then stores into them from their first byte on: the lowest bytes of an
integer in the byte order of the slot, or as much of a string as the slot can hold. A statement fails
if its slot is not within the buffer, or if the slot is too short for its integer. A member that is
not written has no statement.

The buffer can be written down from left to right without any storing: `image` puts the free bytes,
the cell of each slot and the bytes after the last one side by side. The main result,
`Record.pack?_eq_image`, is that running the statements gives just that. The invariant is that a buffer
in the middle of the run is a finished part up to the cursor followed by zeros
(`Contents.storeFrom?_eq_image`); a store after the cursor keeps it, because slots that tile a buffer
never reach back.
-/
import WireRecord.Proofs.Layout.Tiling
import WireRecord.Proofs.Packing.Bytes

set_option autoImplicit false

namespace WireRecord

/-! ## Slots and what they are to hold -/

namespace Slot

/-- How many bytes a slot has. -/
def length (s : Slot) : Nat := s.stop.val - s.start.val

/-- How many bytes a slot needs for its statement to be carried out. -/
def needed (s : Slot) : Nat :=
  match s.encoding with
  | some (.put _ width) => width.bytes
  | _ => 0

end Slot

/-- What the members of a record are to hold. The values of members of another type do not matter. -/
structure Contents where
  /-- The 64 bits from which the integer member at a place is taken. -/
  number : Nat → UInt64
  /-- The bytes of the string member at a place. -/
  text : Nat → List UInt8

/-- The bytes that the statement of the slot at a place stores. -/
def Contents.payload (c : Contents) (place : Nat) (s : Slot) : List UInt8 :=
  match s.encoding with
  | some (.put _ width) => s.byteOrder.bytes width.bytes (c.number place).toNat
  | some .copy => (c.text place).take s.length
  | none => []

/-- The bytes of a buffer. -/
abbrev Buffer := List UInt8

namespace Buffer

/-- So many zeros. -/
def zeros (count : Nat) : Buffer := List.replicate count 0

/-- So many bytes of a buffer from a position on. -/
def window (b : Buffer) (start count : Nat) : List UInt8 := (b.drop start).take count

/-- A buffer with other bytes from a position on. -/
def overwrite (b : Buffer) (start : Nat) (stored : List UInt8) : Buffer :=
  b.take start ++ stored ++ b.drop (start + stored.length)

@[simp] theorem length_zeros (count : Nat) : (zeros count).length = count := List.length_replicate

theorem zeros_add (a b : Nat) : zeros (a + b) = zeros a ++ zeros b :=
  List.replicate_append_replicate.symm

theorem getElem?_zeros {count i : Nat} (h : i < count) : (zeros count)[i]? = some 0 := by
  rw [zeros, List.getElem?_replicate, if_pos h]

/-- Bytes stored into zeros leave zeros on both sides. -/
theorem overwrite_zeros {stored : List UInt8} {gap count : Nat} (h : gap + stored.length ≤ count)
    (finished : Buffer) :
    (finished ++ zeros count).overwrite (finished.length + gap) stored =
      finished ++ zeros gap ++ stored ++ zeros (count - gap - stored.length) := by
  -- the zeros are those before the stored bytes, those under them and those after them
  obtain ⟨rest, rfl⟩ := Nat.exists_eq_add_of_le h
  have hrest : gap + stored.length + rest - gap - stored.length = rest := by omega
  rw [overwrite, hrest, zeros_add, zeros_add, Nat.add_assoc]
  have hlength : finished.length + (gap + stored.length)
      = (finished ++ (zeros gap ++ zeros stored.length)).length := by
    simp only [List.length_append, length_zeros]
  rw [hlength, ← List.append_assoc finished, List.drop_left, List.append_assoc finished,
    List.take_length_add_append, List.append_assoc (zeros gap),
    List.take_left' (length_zeros gap)]

end Buffer

open Buffer

/-! ## Running the statements -/

/-- Carries out the statement of the slot at a place, if it has one. -/
def Contents.store? (c : Contents) (place : Nat) (s : Slot) (b : Buffer) : Option Buffer :=
  if s.encoding.isNone then some b
  -- the bytes of the slot are taken first, so it has to lie within the buffer
  else if s.start.val ≤ s.stop.val ∧ s.stop.val ≤ b.length ∧ s.needed ≤ s.length then
    some (b.overwrite s.start.val (c.payload place s))
  else none

/-- Carries out the statements of slots that follow one another, the first of them at a place. -/
def Contents.storeFrom? (c : Contents) (place : Nat) : List Slot → Buffer → Option Buffer
  | [], b => some b
  | s :: rest, b => (c.store? place s b).bind (c.storeFrom? (place + 1) rest)

/-- Packs contents into the buffer of a record. -/
def Record.pack? (r : Record) (c : Contents) : Option Buffer :=
  c.storeFrom? 0 r.layout.slots (zeros r.layout.size.val)

/-! ## The buffer from left to right -/

/-- All bytes of the slot at a place: what its statement stores, and zeros up to its end. -/
def Contents.cell (c : Contents) (place : Nat) (s : Slot) : List UInt8 :=
  c.payload place s ++ zeros (s.length - (c.payload place s).length)

/-- The bytes between two positions with slots in between. -/
def Contents.image (c : Contents) (place lo : Nat) : List Slot → Nat → Buffer
  | [], hi => zeros (hi - lo)
  | s :: rest, hi =>
    zeros (s.start.val - lo) ++ c.cell place s ++ c.image (place + 1) s.stop.val rest hi

namespace Contents

variable (c : Contents)

/-- What a statement stores fits into a slot that is long enough for it. -/
theorem length_payload_le (place : Nat) {s : Slot} (h : s.needed ≤ s.length) :
    (c.payload place s).length ≤ s.length := by
  unfold payload
  unfold Slot.needed at h
  split
  · next signed width hput =>
    rw [hput] at h
    rw [ByteOrder.length_bytes]
    exact h
  · rw [List.length_take]
    exact Nat.min_le_left _ _
  · exact Nat.zero_le _

theorem length_cell (place : Nat) {s : Slot} (h : s.needed ≤ s.length) :
    (c.cell place s).length = s.length := by
  have := c.length_payload_le place h
  rw [cell, List.length_append, length_zeros]
  omega

/-- **One statement.** In a buffer that is finished up to a position and zero after it, the statement
of a slot after that position finishes the slot, and leaves zeros after it. -/
theorem store?_eq {finished : Buffer} {s : Slot} {hi : Nat} (place : Nat)
    (hlo : finished.length ≤ s.start.val) (hstop : s.start.val ≤ s.stop.val)
    (hhi : s.stop.val ≤ hi) (hneeded : s.needed ≤ s.length) :
    c.store? place s (finished ++ zeros (hi - finished.length)) =
      some (finished ++ zeros (s.start.val - finished.length) ++ c.cell place s
        ++ zeros (hi - s.stop.val)) := by
  have hfits := c.length_payload_le place hneeded
  have hslot : s.length = s.stop.val - s.start.val := rfl
  -- the zeros after the stored bytes are those of the slot and those after the slot
  have hsplit : zeros (hi - finished.length - (s.start.val - finished.length)
        - (c.payload place s).length)
      = zeros (s.length - (c.payload place s).length) ++ zeros (hi - s.stop.val) := by
    rw [← zeros_add]
    congr 1
    omega
  have hstored : (finished ++ zeros (hi - finished.length)).overwrite s.start.val
        (c.payload place s)
      = finished ++ zeros (s.start.val - finished.length) ++ c.cell place s
        ++ zeros (hi - s.stop.val) := by
    have hstart : s.start.val = finished.length + (s.start.val - finished.length) := by omega
    conv => lhs; rw [hstart]
    rw [overwrite_zeros (by omega), hsplit, cell]
    simp only [List.append_assoc]
  have hlength : s.stop.val ≤ (finished ++ zeros (hi - finished.length)).length := by
    rw [List.length_append, length_zeros]
    omega
  unfold store?
  split
  · next hnone =>
    -- no statement: the payload is empty, and the slot is zeros among zeros
    have hpayload : c.payload place s = [] := by
      rw [payload, Option.isNone_iff_eq_none.mp hnone]
    rw [cell, hpayload, List.nil_append, List.length_nil, Nat.sub_zero, List.append_assoc,
      List.append_assoc, ← zeros_add, ← zeros_add]
    congr 3
    omega
  · rw [if_pos ⟨hstop, hlength, hneeded⟩, hstored]

/-- **All statements.** Slots that tile the rest of a buffer are all finished, one after the other, and
no statement fails. -/
theorem storeFrom?_eq_image {slots : List Slot} {hi : Nat} (place : Nat) (finished : Buffer)
    (htiles : Layout.Tiles finished.length slots hi)
    (hneeded : ∀ s ∈ slots, s.needed ≤ s.length) :
    c.storeFrom? place slots (finished ++ zeros (hi - finished.length)) =
      some (finished ++ c.image place finished.length slots hi) := by
  -- the induction is on the slots, for any finished part: each slot adds to it
  induction slots generalizing place finished with
  | nil => rfl
  | cons s rest ih =>
    obtain ⟨hlo, hstop, hrest⟩ := htiles
    have hs : s.needed ≤ s.length := hneeded s (List.mem_cons_self ..)
    rw [storeFrom?, c.store?_eq place hlo hstop hrest.le hs, Option.bind_some]
    -- the finished part now ends where the slot ends
    have hend : (finished ++ zeros (s.start.val - finished.length) ++ c.cell place s).length
        = s.stop.val := by
      rw [List.length_append, List.length_append, length_zeros, c.length_cell place hs, Slot.length]
      omega
    have hnext := ih (place + 1)
      (finished ++ zeros (s.start.val - finished.length) ++ c.cell place s)
      (by rw [hend]; exact hrest) (fun t ht => hneeded t (List.mem_cons_of_mem s ht))
    rw [hend] at hnext
    rw [hnext, image]
    simp only [List.append_assoc]

end Contents

/-- **Packing never fails**, if each slot is long enough for its integer, and it gives the image of the
record's slots. -/
theorem Record.pack?_eq_image (r : Record) (c : Contents)
    (hneeded : ∀ s ∈ r.layout.slots, s.needed ≤ s.length) :
    r.pack? c = some (c.image 0 0 r.layout.slots r.layout.size.val) :=
  c.storeFrom?_eq_image 0 [] r.tiles_slots hneeded

end WireRecord
