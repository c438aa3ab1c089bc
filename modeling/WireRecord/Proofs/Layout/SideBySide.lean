/-
Slots and the free bytes between them.

The slots of a record lie side by side in its buffer, whatever the offsets and sizes are: each starts
where the one before it has stopped or later, no two share a position, the last one ends the buffer, and
no statement of the serializer reaches out of the buffer that it declares. What is lost where the cursor
has stopped at the greatest count is only the way back: the main result, `slots_side_by_side`, says that
every offset and every size can be read off the layout if and only if all of them together do not outgrow
the limit, and that the positions in no slot are then as many as the offsets ask for.

The way back is lost at the first member whose bytes do not fit behind the cursor. Up to that member the
cursor is the exact sum, so the demand that each member fits behind the cursor says the same as the one
demand on the sum of all (`fits_iff`). Free positions are counted slot by slot from the left: those
before the first slot, and those behind it, where no earlier slot reaches (`card_freeIn_cons`).
-/
import WireRecord.Proofs.Layout.ExactSums
import WireRecord.Proofs.Layout.Tiling
import WireRecord.Proofs.Go.SerializerText
import Mathlib.Order.Interval.Finset.Nat

set_option autoImplicit false

namespace WireRecord

/-- The positions of a slot. -/
def Slot.range (s : Slot) : Finset Nat := Finset.Ico s.start.val s.stop.val

theorem Slot.mem_range {s : Slot} {p : Nat} : p ∈ s.range ↔ s.start.val ≤ p ∧ p < s.stop.val :=
  Finset.mem_Ico

namespace Layout

/-- Where the slot before a place stops. Before the first place, the buffer begins. -/
def stopBefore (l : Layout) : Nat → Nat
  | 0 => 0
  | place + 1 => (l.slots[place]?).elim 0 (·.stop.val)

/-- Slots that lie side by side in a buffer. -/
structure SideBySide (l : Layout) : Prop where
  /-- A slot starts where the one before it stops, or later, and ends within the buffer. -/
  ordered : ∀ place s, l.slots[place]? = some s →
    l.stopBefore place ≤ s.start.val ∧ s.start.val ≤ s.stop.val ∧ s.stop.val ≤ l.size.val
  /-- The slots at two places share no position. -/
  disjoint : ∀ (i j : Nat) (s t : Slot), i ≠ j → l.slots[i]? = some s → l.slots[j]? = some t →
    Disjoint s.range t.range
  /-- No position of the buffer lies in more than one slot. -/
  countP_le_one : ∀ p < l.size.val, l.slots.countP (fun s => p ∈ s.range) ≤ 1
  /-- The buffer ends where the last slot does. -/
  size_eq : l.size = l.slots.getLast?.elim 0 (·.stop)

/-- The offset and the size of each member can be read off its slot and the one before. -/
def ReadsOff (l : Layout) : Prop :=
  ∀ place s, l.slots[place]? = some s →
    s.start.val - l.stopBefore place = s.member.offset.val ∧
      s.stop.val - s.start.val = s.member.size.val

/-- The positions between two others that lie in none of some slots. -/
def freeIn (lo : Nat) (slots : List Slot) (hi : Nat) : Finset Nat :=
  (Finset.Ico lo hi).filter fun p => ∀ s ∈ slots, p ∉ s.range

/-- The positions of a buffer that lie in no slot. -/
def free (l : Layout) : Finset Nat := freeIn 0 l.slots l.size.val

/-! ## Slots that tile a buffer -/

/-- Of two slots, the later one starts behind the other. -/
theorem Tiles.pairwise {slots : List Slot} {lo hi : Nat} (h : Tiles lo slots hi) :
    slots.Pairwise fun s t => s.stop.val ≤ t.start.val := by
  induction slots generalizing lo with
  | nil => exact List.Pairwise.nil
  | cons s rest ih =>
    obtain ⟨-, -, hrest⟩ := h
    exact List.Pairwise.cons (fun t ht => (hrest.bounds ht).1) (ih hrest)

theorem Tiles.stop_le_start {slots : List Slot} {lo hi : Nat} (h : Tiles lo slots hi) {i j : Nat}
    {s t : Slot} (hij : i < j) (hs : slots[i]? = some s) (ht : slots[j]? = some t) :
    s.stop.val ≤ t.start.val := by
  obtain ⟨hi', rfl⟩ := List.getElem?_eq_some_iff.mp hs
  obtain ⟨hj', rfl⟩ := List.getElem?_eq_some_iff.mp ht
  exact List.pairwise_iff_getElem.mp h.pairwise i j hi' hj' hij

theorem disjoint_range_of_stop_le {s t : Slot} (h : s.stop.val ≤ t.start.val) :
    Disjoint s.range t.range := by
  rw [Finset.disjoint_left]
  intro p hs ht
  rw [Slot.mem_range] at hs ht
  omega

/-- No position lies in two slots. -/
theorem Tiles.countP_le_one {slots : List Slot} {lo hi : Nat} (h : Tiles lo slots hi) (p : Nat) :
    slots.countP (fun s => p ∈ s.range) ≤ 1 := by
  induction slots generalizing lo with
  | nil => exact Nat.zero_le 1
  | cons s rest ih =>
    obtain ⟨-, -, hrest⟩ := h
    by_cases hp : p ∈ s.range
    · -- the slots behind this one start behind the position
      have hnone : rest.countP (fun t => p ∈ t.range) = 0 := by
        rw [List.countP_eq_zero]
        intro t ht hpt
        have hafter := (hrest.bounds ht).1
        rw [decide_eq_true_iff, Slot.mem_range] at hpt
        rw [Slot.mem_range] at hp
        omega
      rw [List.countP_cons_of_pos (by simpa using hp), hnone]
    · rw [List.countP_cons_of_neg (by simpa using hp)]
      exact ih hrest

/-- The free positions of a stretch are those before its first slot and the free ones behind it. -/
theorem card_freeIn_cons {s : Slot} {rest : List Slot} {lo hi : Nat} (h : Tiles lo (s :: rest) hi) :
    (freeIn lo (s :: rest) hi).card = s.start.val - lo + (freeIn s.stop.val rest hi).card := by
  obtain ⟨hstart, hstop, hrest⟩ := h
  have hend := hrest.le
  have hsplit : freeIn lo (s :: rest) hi
      = Finset.Ico lo s.start.val ∪ freeIn s.stop.val rest hi := by
    ext p
    simp only [freeIn, Finset.mem_union, Finset.mem_filter, Finset.mem_Ico, Slot.mem_range,
      List.forall_mem_cons]
    constructor
    · rintro ⟨hp, hs, hfree⟩
      by_cases hbefore : p < s.start.val
      · exact Or.inl ⟨hp.1, hbefore⟩
      · exact Or.inr ⟨by omega, hfree⟩
    · rintro (hp | ⟨hp, hfree⟩)
      · refine ⟨by omega, by omega, fun t ht hpt => ?_⟩
        have hafter := (hrest.bounds ht).1
        omega
      · exact ⟨by omega, by omega, hfree⟩
  have hdisjoint : Disjoint (Finset.Ico lo s.start.val) (freeIn s.stop.val rest hi) := by
    rw [Finset.disjoint_left]
    intro p hp hfree
    have hafter := (Finset.mem_filter.mp hfree).1
    rw [Finset.mem_Ico] at hp hafter
    omega
  rw [hsplit, Finset.card_union_of_disjoint hdisjoint, Nat.card_Ico]

/-! ## Members that fit behind the cursor -/

/-- The bytes of one member can be read off exactly if they fit behind the cursor. -/
theorem readsOff_slotAt_iff (inherited : ByteOrder) (cursor : Extent) (m : Member) :
    ((slotAt inherited cursor m).start.val - cursor.val = m.offset.val ∧
      (slotAt inherited cursor m).stop.val - (slotAt inherited cursor m).start.val = m.size.val) ↔
      cursor.val + m.offset.val + m.size.val ≤ Extent.greatest := by
  have hcursor := cursor.val_le
  simp only [slotAt, Extent.val_add]
  omega

/-- **Every member fits behind the cursor exactly if all fit together.** -/
theorem fits_iff (cursor : Extent) (members : List Member) :
    (∀ place m, members[place]? = some m →
      (endFrom cursor (members.take place)).val + m.offset.val + m.size.val ≤ Extent.greatest) ↔
      cursor.val + span members ≤ Extent.greatest := by
  -- the induction is on the members, from any cursor: a member that fits moves it by exact sums
  induction members generalizing cursor with
  | nil =>
    have hcursor := cursor.val_le
    simp only [List.getElem?_nil, reduceCtorEq, false_imp_iff, implies_true, span_nil, true_iff]
    omega
  | cons m rest ih =>
    have hnext : (cursor + m.offset + m.size).val
        = min Extent.greatest (cursor.val + m.offset.val + m.size.val) := by
      simp only [Extent.val_add]
      omega
    have hrest := ih (cursor + m.offset + m.size)
    rw [span_cons]
    constructor
    · intro h
      have hfirst : cursor.val + m.offset.val + m.size.val ≤ Extent.greatest := h 0 m rfl
      have hbehind := hrest.mp fun place t ht => h (place + 1) t ht
      omega
    · intro h place t ht
      cases place with
      | zero =>
        obtain rfl : m = t := Option.some.inj ht
        rw [List.take_zero, endFrom_nil]
        omega
      | succ place =>
        rw [List.take_succ_cons, endFrom_cons]
        exact hrest.mpr (by omega) place t ht

/-- Slots of members that fit leave free what the offsets ask for. -/
theorem card_freeIn_slotsFrom (inherited : ByteOrder) (cursor : Extent) (members : List Member)
    (h : cursor.val + span members ≤ Extent.greatest) :
    (freeIn cursor.val (slotsFrom inherited cursor members) (endFrom cursor members).val).card =
      (members.map (·.offset.val)).sum := by
  induction members generalizing cursor with
  | nil =>
    rw [slotsFrom, endFrom_nil, freeIn, Finset.Ico_self]
    rfl
  | cons m rest ih =>
    rw [span_cons] at h
    have hstart : (cursor + m.offset).val = cursor.val + m.offset.val := by
      rw [Extent.val_add]
      omega
    have hstop : (cursor + m.offset + m.size).val = cursor.val + m.offset.val + m.size.val := by
      rw [Extent.val_add, hstart]
      omega
    have hrest := ih (cursor + m.offset + m.size) (by rw [hstop]; omega)
    have hgap : (slotAt inherited cursor m).start.val - cursor.val = m.offset.val := by
      show (cursor + m.offset).val - cursor.val = m.offset.val
      rw [hstart]
      omega
    rw [slotsFrom, card_freeIn_cons (tiles_slotsFrom inherited cursor (m :: rest)), hgap, endFrom_cons,
      List.map_cons, List.sum_cons, ← hrest]
    rfl

/-- The last slot stops where the cursor stands in the end. -/
theorem endFrom_eq_getLast? (inherited : ByteOrder) (cursor : Extent) (members : List Member) :
    endFrom cursor members = (slotsFrom inherited cursor members).getLast?.elim cursor (·.stop) := by
  induction members generalizing cursor with
  | nil => rfl
  | cons m rest ih =>
    rw [endFrom_cons, slotsFrom, List.getLast?_cons, Option.elim_some]
    refine (ih (slotAt inherited cursor m).stop).trans ?_
    -- the last slot is the last one of the rest, or this one if there is no rest
    cases (slotsFrom inherited (slotAt inherited cursor m).stop rest).getLast? with
    | none => rfl
    | some s => rfl

end Layout

/-! ## The layout of a record -/

namespace Record

/-- Before a place of the layout stands the cursor. -/
theorem stopBefore_eq (r : Record) {place : Nat} (h : place ≤ r.members.length) :
    r.layout.stopBefore place = (Layout.endFrom 0 (r.members.take place)).val := by
  cases place with
  | zero => rfl
  | succ place =>
    have hm : r.members[place]? = some r.members[place] := List.getElem?_eq_getElem h
    rw [Layout.stopBefore, r.getElem?_slots, List.take_add_one, hm, Option.toList_some,
      Layout.endFrom_append]
    rfl

/-- A slot is that of a member behind the cursor. -/
theorem eq_slotAt_of_getElem? {r : Record} {place : Nat} {s : Slot}
    (h : r.layout.slots[place]? = some s) :
    ∃ m, r.members[place]? = some m ∧
      s = Layout.slotAt r.order (Layout.endFrom 0 (r.members.take place)) m ∧
      r.layout.stopBefore place = (Layout.endFrom 0 (r.members.take place)).val := by
  rw [r.getElem?_slots] at h
  obtain ⟨m, hm, rfl⟩ := Option.map_eq_some_iff.mp h
  obtain ⟨hplace, -⟩ := List.getElem?_eq_some_iff.mp hm
  exact ⟨m, hm, rfl, r.stopBefore_eq (Nat.le_of_lt hplace)⟩

/-- **The slots of a record lie side by side.** -/
theorem sideBySide_layout (r : Record) : r.layout.SideBySide where
  ordered place s hs := by
    obtain ⟨m, -, rfl, hbefore⟩ := eq_slotAt_of_getElem? hs
    have hbounds := r.tiles_slots.bounds (List.mem_of_getElem? hs)
    rw [hbefore]
    exact ⟨Layout.val_le_val_add _ _, hbounds.2⟩
  disjoint i j s t hij hs ht := by
    rcases Nat.lt_or_gt_of_ne hij with hlt | hgt
    · exact Layout.disjoint_range_of_stop_le (r.tiles_slots.stop_le_start hlt hs ht)
    · exact (Layout.disjoint_range_of_stop_le (r.tiles_slots.stop_le_start hgt ht hs)).symm
  countP_le_one p _ := r.tiles_slots.countP_le_one p
  size_eq := Layout.endFrom_eq_getLast? r.order 0 r.members

theorem readsOff_layout_iff (r : Record) :
    r.layout.ReadsOff ↔ Layout.span r.members ≤ Extent.greatest := by
  have hfits := Layout.fits_iff 0 r.members
  rw [Extent.val_zero, Nat.zero_add] at hfits
  rw [← hfits]
  constructor
  · intro h place m hm
    have hplace : place < r.members.length := (List.getElem?_eq_some_iff.mp hm).1
    have hslot := h place _ (by rw [r.getElem?_slots, hm, Option.map_some])
    rw [r.stopBefore_eq (Nat.le_of_lt hplace)] at hslot
    exact (Layout.readsOff_slotAt_iff r.order _ m).mp hslot
  · intro h place s hs
    obtain ⟨m, hm, rfl, hbefore⟩ := eq_slotAt_of_getElem? hs
    rw [hbefore]
    exact (Layout.readsOff_slotAt_iff r.order _ m).mpr (h place m hm)

theorem card_free_layout {r : Record} (h : Layout.span r.members ≤ Extent.greatest) :
    r.layout.free.card = (r.members.map (·.offset.val)).sum := by
  refine Layout.card_freeIn_slotsFrom r.order 0 r.members ?_
  rwa [Extent.val_zero, Nat.zero_add]

end Record

namespace Go

/-- A serializer that does not reach out of its buffer. -/
structure StaysInBuffer (r : Record) : Prop where
  /-- The text declares a buffer of the record's size before its statements. -/
  text_eq : (emitSerializer r).text =
    header r ++ "\n" ++ ("\tvar buf [" ++ r.layout.size.text ++ "]byte" ++ "\n")
      ++ String.join ((statements r).map bodyLine) ++ ("\treturn nil\n" ++ "\x7d")
  /-- Behind the name of what it calls, a statement has a slice that ends within the buffer. -/
  slice : ∀ statement ∈ statements r, ∃ call name, ∃ start stop : Extent,
    statement = call ++ ("(buf[" ++ start.text ++ ":" ++ stop.text ++ "], "
      ++ r.receiver ++ "." ++ name ++ ")") ∧
      '(' ∉ call.toList ∧ start.val ≤ stop.val ∧ stop.val ≤ r.layout.size.val

theorem staysInBuffer (r : Record) : StaysInBuffer r where
  text_eq := by
    rw [text_emitSerializer]
    exact serializer_eq_append r
  slice statement hstatement := by
    obtain ⟨s, hs, htext⟩ := List.mem_filterMap.mp hstatement
    rw [statement?_eq] at htext
    obtain ⟨e, -, rfl⟩ := Option.map_eq_some_iff.mp htext
    have hbounds := r.tiles_slots.bounds hs
    exact ⟨verb s.byteOrder e, s.member.name, s.start, s.stop, rfl, bracket_not_mem_verb s.byteOrder e,
      hbounds.2.1, hbounds.2.2⟩

/-- **Slots tile the buffer, and tell the members exactly if nothing was cut off.** There is one slot for
each member. The slots lie side by side, and the serializer stays in the buffer that it declares. All
offsets and sizes can be read off the slots if and only if their exact sum is at most `2 ^ 64 - 1`, and
then the positions in no slot are as many as the sum of the offsets. -/
theorem slots_side_by_side (r : Record) :
    r.layout.slots.map (·.member) = r.members ∧
      r.layout.SideBySide ∧ StaysInBuffer r ∧
      (r.layout.ReadsOff ↔ Layout.span r.members ≤ 2 ^ 64 - 1) ∧
      (Layout.span r.members ≤ 2 ^ 64 - 1 →
        r.layout.free.card = (r.members.map (·.offset.val)).sum) :=
  ⟨r.map_member_slots, r.sideBySide_layout, staysInBuffer r, r.readsOff_layout_iff,
    Record.card_free_layout⟩

/-- A record that fills the largest buffer to its last byte, with one free byte before each member. -/
def brimfulRecord : Record where
  name := "Brimful"
  members := [
    { name := "Kind", tag := .unsigned .w8, size := .clamp 1, offset := .clamp 1 },
    { name := "Body", tag := .string, size := .clamp 18446744073709551612, offset := .clamp 1 }]

theorem slots_side_by_side_brimful :
    Layout.span brimfulRecord.members ≤ 2 ^ 64 - 1 ∧ brimfulRecord.layout.ReadsOff ∧
      brimfulRecord.layout.free.card = 2 := by
  have hspan : Layout.span brimfulRecord.members ≤ 2 ^ 64 - 1 := by decide
  obtain ⟨-, -, -, hreads, hfree⟩ := slots_side_by_side brimfulRecord
  exact ⟨hspan, hreads.mpr hspan, (hfree hspan).trans (by decide)⟩

end Go

end WireRecord
