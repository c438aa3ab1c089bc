/-
Packing loses nothing.

A record whose integers have room is packed without a failure, and what its members were to hold can be
read off the buffer again: integers modulo the power that fits their width, strings as far as their slot
reaches with zeros after their end, and zeros wherever nothing was stored. The main result is
`pack?_holds`. It says nothing about how many members there are or where they lie; offsets and sizes may
outgrow every buffer, as long as the slots of integers do not.

All of it is read off the image of the buffer, by recursion on the slots: a window over the cell of a
slot passes the free bytes and the cells before it, because slots that tile a buffer come in the order
of their positions.
-/
import WireRecord.Proofs.Packing.Buffer

set_option autoImplicit false

namespace WireRecord

open Buffer

/-! ## Windows over parts -/

namespace Buffer

/-- A window after a part of a buffer is a window into what follows that part. -/
theorem window_append_right {a b : Buffer} {start : Nat} (count : Nat) (h : a.length ≤ start) :
    (a ++ b).window start count = b.window (start - a.length) count := by
  rw [window, window, List.drop_append, List.drop_eq_nil_of_le h, List.nil_append]

/-- A window over a part of a buffer is that part. -/
theorem window_append_middle {a b c : Buffer} {start count : Nat} (hstart : a.length = start)
    (hcount : b.length = count) : (a ++ b ++ c).window start count = b := by
  rw [window, List.append_assoc, List.drop_left' hstart, List.take_left' hcount]

end Buffer

/-! ## Reading the image -/

namespace Contents

variable (c : Contents)

/-- Free bytes and the cell of a slot reach from the cursor to the end of the slot. -/
theorem length_free_cell (place : Nat) {s : Slot} {lo : Nat} (hlo : lo ≤ s.start.val)
    (hstop : s.start.val ≤ s.stop.val) (hneeded : s.needed ≤ s.length) :
    (zeros (s.start.val - lo) ++ c.cell place s).length = s.stop.val - lo := by
  rw [List.length_append, length_zeros, c.length_cell place hneeded, Slot.length]
  omega

theorem length_image {slots : List Slot} {lo hi : Nat} (place : Nat)
    (htiles : Layout.Tiles lo slots hi) (hneeded : ∀ s ∈ slots, s.needed ≤ s.length) :
    (c.image place lo slots hi).length = hi - lo := by
  induction slots generalizing place lo with
  | nil => rw [image, length_zeros]
  | cons s rest ih =>
    obtain ⟨hlo, hstop, hrest⟩ := htiles
    have hs : s.needed ≤ s.length := hneeded s (List.mem_cons_self ..)
    have hle := hrest.le
    rw [image, List.length_append, c.length_free_cell place hlo hstop hs,
      ih (place + 1) hrest (fun t ht => hneeded t (List.mem_cons_of_mem s ht))]
    omega

/-- **The image has a cell for each slot.** A window over a slot shows the cell of that slot. -/
theorem window_image {slots : List Slot} {lo hi : Nat} (place : Nat)
    (htiles : Layout.Tiles lo slots hi) (hneeded : ∀ s ∈ slots, s.needed ≤ s.length)
    {k : Nat} {s : Slot} (hk : slots[k]? = some s) :
    (c.image place lo slots hi).window (s.start.val - lo) s.length = c.cell (place + k) s := by
  induction slots generalizing place lo k with
  | nil => cases hk
  | cons t rest ih =>
    obtain ⟨hlo, hstop, hrest⟩ := htiles
    have ht : t.needed ≤ t.length := hneeded t (List.mem_cons_self ..)
    have hfree := c.length_free_cell place hlo hstop ht
    rw [image]
    cases k with
    | zero =>
      -- the first slot is the one that the window shows
      obtain rfl : t = s := Option.some.inj hk
      exact window_append_middle (length_zeros _) (c.length_cell place ht)
    | succ k =>
      -- the slot lies behind the first one, so the window passes the cell of the first one
      rw [List.getElem?_cons_succ] at hk
      have hafter := (hrest.bounds (List.mem_of_getElem? hk)).1
      have hskip : s.start.val - lo - (t.stop.val - lo) = s.start.val - t.stop.val := by omega
      rw [window_append_right s.length (by rw [hfree]; omega), hfree, hskip,
        ih (place + 1) hrest (fun u hu => hneeded u (List.mem_cons_of_mem t hu)) hk,
        Nat.add_assoc, Nat.add_comm 1 k]

/-- Behind what is stored, a cell is zero. -/
theorem getElem?_cell {place i : Nat} {s : Slot} (hstored : (c.payload place s).length ≤ i)
    (hi : i < s.length) : (c.cell place s)[i]? = some 0 := by
  rw [cell, List.getElem?_append_right hstored]
  exact getElem?_zeros (by omega)

/-- **The image is zero where nothing is stored.** -/
theorem getElem?_image {slots : List Slot} {lo hi p : Nat} (place : Nat)
    (htiles : Layout.Tiles lo slots hi) (hneeded : ∀ s ∈ slots, s.needed ≤ s.length)
    (hlo : lo ≤ p) (hhi : p < hi)
    (hfree : ∀ k s, slots[k]? = some s →
      ¬(s.start.val ≤ p ∧ p < s.start.val + (c.payload (place + k) s).length)) :
    (c.image place lo slots hi)[p - lo]? = some 0 := by
  induction slots generalizing place lo with
  | nil => exact getElem?_zeros (by omega)
  | cons s rest ih =>
    obtain ⟨hstart, hstop, hrest⟩ := htiles
    have hs : s.needed ≤ s.length := hneeded s (List.mem_cons_self ..)
    have hlength := c.length_free_cell place hstart hstop hs
    have hcell := c.length_cell place hs
    rw [Slot.length] at hcell
    rw [image]
    by_cases hafter : s.stop.val ≤ p
    · -- behind the slot
      have hskip : p - lo - (s.stop.val - lo) = p - s.stop.val := by omega
      rw [List.getElem?_append_right (by rw [hlength]; omega), hlength, hskip]
      refine ih (place + 1) hrest (fun t ht => hneeded t (List.mem_cons_of_mem s ht)) hafter ?_
      intro k t hk
      have hstored := hfree (k + 1) t (by rw [List.getElem?_cons_succ]; exact hk)
      rwa [Nat.add_comm k 1, ← Nat.add_assoc] at hstored
    · rw [List.getElem?_append_left (by rw [hlength]; omega)]
      by_cases hbefore : p < s.start.val
      · -- in the free bytes before the slot
        rw [List.getElem?_append_left (by rw [length_zeros]; omega)]
        exact getElem?_zeros (by omega)
      · -- in the slot, behind what is stored there
        have hstored := hfree 0 s rfl
        have hskip : p - lo - (s.start.val - lo) = p - s.start.val := by omega
        rw [Nat.add_zero] at hstored
        rw [List.getElem?_append_right (by rw [length_zeros]; omega), length_zeros, hskip]
        exact c.getElem?_cell (by omega) (by rw [Slot.length]; omega)

end Contents

/-! ## What a packed buffer holds -/

/-- A buffer of a record from which the contents can be read. -/
structure Buffer.Holds (b : Buffer) (r : Record) (c : Contents) : Prop where
  /-- The buffer has the size of the record. -/
  length_eq : b.length = r.layout.size.val
  /-- The bytes of an integer, in the byte order of its slot, are the lowest ones of its value. -/
  number_eq : ∀ place s signed width, r.layout.slots[place]? = some s →
    s.encoding = some (.put signed width) →
    s.byteOrder.number (b.window s.start.val width.bytes) =
      (c.number place).toNat % 2 ^ width.bits
  /-- The slot of a string holds the string as far as it fits, and zeros after it. -/
  text_eq : ∀ place s, r.layout.slots[place]? = some s → s.encoding = some .copy →
    b.window s.start.val s.length =
      (c.text place).take s.length ++ zeros (s.length - (c.text place).length)
  /-- A byte is zero if no statement has stored it. -/
  zero_of_free : ∀ p, p < b.length →
    (∀ place s, r.layout.slots[place]? = some s →
      ¬(s.start.val ≤ p ∧ p < s.start.val + (c.payload place s).length)) →
    b[p]? = some 0

theorem two_pow_bits (width : IntWidth) : 2 ^ width.bits = 256 ^ width.bytes := by
  cases width <;> rfl

namespace Contents

variable (c : Contents)

/-- A cell of an integer begins with its bytes. -/
theorem take_cell_of_put (place : Nat) {s : Slot} {signed : Bool} {width : IntWidth}
    (hput : s.encoding = some (.put signed width)) :
    (c.cell place s).take width.bytes =
      s.byteOrder.bytes width.bytes (c.number place).toNat := by
  have hpayload : c.payload place s = s.byteOrder.bytes width.bytes (c.number place).toNat := by
    rw [payload, hput]
  rw [cell, hpayload]
  exact List.take_left' (ByteOrder.length_bytes _ _ _)

/-- The cell of a string is the string as far as it fits, and zeros after it. -/
theorem cell_of_copy (place : Nat) {s : Slot} (hcopy : s.encoding = some .copy) :
    c.cell place s =
      (c.text place).take s.length ++ zeros (s.length - (c.text place).length) := by
  have hpayload : c.payload place s = (c.text place).take s.length := by
    rw [payload, hcopy]
  rw [cell, hpayload, List.length_take]
  congr 2
  omega

end Contents

/-- **Packing loses nothing.** If the slot of each integer is as long as the integer is wide, then no
statement stores outside its slot or outside the buffer, and the packed buffer holds the contents. -/
theorem Record.pack?_holds (r : Record) (c : Contents)
    (hneeded : ∀ s ∈ r.layout.slots, s.needed ≤ s.length) :
    ∃ b, r.pack? c = some b ∧ b.Holds r c := by
  have htiles := r.tiles_slots
  have hlength := c.length_image 0 htiles hneeded
  have hwindow : ∀ place s, r.layout.slots[place]? = some s →
      (c.image 0 0 r.layout.slots r.layout.size.val).window s.start.val s.length
        = c.cell place s := by
    intro place s hs
    have hcell := c.window_image 0 htiles hneeded hs
    rwa [Nat.sub_zero, Nat.zero_add] at hcell
  refine ⟨_, r.pack?_eq_image c hneeded, ?_, ?_, ?_, ?_⟩
  · rw [hlength, Nat.sub_zero]
  · intro place s signed width hs hput
    have hwide : width.bytes ≤ s.length := by
      have := hneeded s (List.mem_of_getElem? hs)
      rwa [Slot.needed, hput] at this
    -- the bytes of the integer are the first ones in the window over its slot
    have hbytes : (c.image 0 0 r.layout.slots r.layout.size.val).window s.start.val width.bytes
        = (c.cell place s).take width.bytes := by
      rw [← hwindow place s hs, window, window, List.take_take, Nat.min_eq_left hwide]
    rw [hbytes, c.take_cell_of_put place hput, ByteOrder.number_bytes, two_pow_bits]
  · intro place s hs hcopy
    rw [hwindow place s hs, c.cell_of_copy place hcopy]
  · intro p hp hfree
    rw [hlength, Nat.sub_zero] at hp
    refine c.getElem?_image 0 htiles hneeded (Nat.zero_le p) hp ?_
    intro k s hk
    rw [Nat.zero_add]
    exact hfree k s hk

/-- A record that outgrows every buffer: behind its integer there is a string of the greatest size, and
the members after that string have no bytes left. -/
def overfullRecord : Record where
  name := "Overfull"
  byteOrder := "big"
  members := [
    { name := "Kind", tag := .unsigned .w16, size := .clamp 2, offset := .clamp 1 },
    { name := "Body", tag := .string, size := ⟨Extent.greatest, Nat.le_refl _⟩ },
    { name := "Ratio", tag := .other "float32", size := .clamp 4 },
    { name := "Label", tag := .string, size := .clamp 8, offset := .clamp 3 }]

/-- The same number and the same text for every member. -/
def uniformContents : Contents := ⟨fun _ => 0x51234, fun _ => [104, 101, 108, 108, 111]⟩

theorem pack?_holds_overfull :
    (∀ s ∈ overfullRecord.layout.slots, s.needed ≤ s.length) ∧
    ∃ b, overfullRecord.pack? uniformContents = some b ∧
      b.Holds overfullRecord uniformContents :=
  ⟨by decide, overfullRecord.pack?_holds uniformContents (by decide)⟩

-- an integer of each order after a free byte, and a string shorter than its slot
example :
    Record.pack? { name := "Packet", byteOrder := "big", members := [
      { name := "Length", tag := .unsigned .w16, size := .clamp 2, offset := .clamp 1 },
      { name := "Stamp", tag := .signed .w32, size := .clamp 4, byteOrder := "little" },
      { name := "Label", tag := .string, size := .clamp 7 }] } uniformContents =
    some [0, 0x12, 0x34, 0x34, 0x12, 5, 0, 104, 101, 108, 108, 111, 0, 0] := by
  decide

end WireRecord
