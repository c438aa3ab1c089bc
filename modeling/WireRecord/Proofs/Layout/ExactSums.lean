/-
Layouts against exact sums.

The cursor of a layout is clamped at every single addition: once for the offset of a member and once
for its size. The main result, `slots_eq_exact_sums`, says that this is the same as counting without
any limit and clamping once, at the end: each position of a layout is an exact sum over the members
before it, cut off at the greatest count. Nothing is lost by clamping early and nothing is won back
after it, whether a record outgrows the limit at an offset, at a size, or before.

The exact sum of a list of members is `Layout.span`. It is a natural number, so it can be taken apart
by ordinary arithmetic, and `endFrom_eq_clamp` is the loop invariant that ties the cursor to it. The
invariant is stated for a cursor at any position, because the fold over a list starts from wherever
the members before it have ended.
-/
import WireRecord.Layout
import Mathlib.Algebra.Ring.Nat

set_option autoImplicit false

namespace WireRecord

namespace Layout

/-! ## The exact sum -/

/-- The bytes that members occupy together with the bytes left free before them, counted without a
limit. -/
def span (members : List Member) : Nat := (members.map fun m => m.offset.val + m.size.val).sum

@[simp] theorem span_nil : span [] = 0 := rfl

@[simp] theorem span_cons (m : Member) (rest : List Member) :
    span (m :: rest) = m.offset.val + m.size.val + span rest := by
  simp only [span, List.map_cons, List.sum_cons]

/-- The bytes up to and with a member are the bytes before it, its offset and its size. -/
theorem span_take_succ {members : List Member} {i : Nat} {m : Member}
    (h : members[i]? = some m) :
    span (members.take (i + 1)) = span (members.take i) + m.offset.val + m.size.val := by
  -- the sum is taken apart at its last member, although it is made from the first one on
  have hstep : members.take (i + 1) = members.take i ++ [m] := by
    rw [List.take_add_one, h, Option.toList_some]
  rw [hstep]
  simp only [span, List.map_append, List.sum_append, List.map_cons, List.map_nil, List.sum_cons,
    List.sum_nil, Nat.add_zero, Nat.add_assoc]

/-! ## The cursor -/

/-- **The cursor is the clamped exact sum.** From any position, the cursor after a list of members
stands where the exact sum says, or at the greatest count. -/
theorem endFrom_eq_clamp (cursor : Extent) (members : List Member) :
    endFrom cursor members = Extent.clamp (cursor.val + span members) := by
  induction members generalizing cursor with
  | nil => rw [endFrom_nil, span_nil, Nat.add_zero, Extent.clamp_val]
  | cons m rest ih =>
    rw [endFrom_cons, ih, span_cons]
    ext
    -- two clamped additions on the left, one clamp on the right
    simp only [Extent.val_add, Extent.val_clamp]
    omega

theorem val_endFrom_zero (members : List Member) :
    (endFrom 0 members).val = min Extent.greatest (span members) := by
  rw [endFrom_eq_clamp, Extent.val_clamp, Extent.val_zero, Nat.zero_add]

/-- The slot at a place of the list is the slot of the member at that place, when the cursor stands
after the members before it. -/
theorem getElem?_slotsFrom (inherited : ByteOrder) (cursor : Extent) (members : List Member)
    (i : Nat) :
    (slotsFrom inherited cursor members)[i]? =
      members[i]?.map (slotAt inherited (endFrom cursor (members.take i))) := by
  induction members generalizing cursor i with
  | nil => rfl
  | cons m rest ih =>
    cases i with
    | zero => rfl
    | succ i =>
      -- the first member only moves the cursor on for the members behind it
      rw [slotsFrom, List.getElem?_cons_succ, List.getElem?_cons_succ, List.take_succ_cons,
        endFrom_cons]
      exact ih (slotAt inherited cursor m).stop i

end Layout

/-! ## The layout of a record -/

namespace Record

theorem getElem?_slots (r : Record) (i : Nat) :
    r.layout.slots[i]? =
      r.members[i]?.map (Layout.slotAt r.order (Layout.endFrom 0 (r.members.take i))) :=
  Layout.getElem?_slotsFrom r.order 0 r.members i

/-- The token that decides the byte order of a member is its own, if it has one that is not empty,
and the record's otherwise. -/
theorem order_eq_ofToken (r : Record) (m : Member) :
    m.order r.order = ByteOrder.ofToken ((m.byteOrder.filter (· ≠ "")).getD r.byteOrder) := by
  unfold Member.order
  cases m.byteOrder with
  | none => rfl
  | some token =>
    by_cases h : token = ""
    · subst h
      rfl
    · have hown : (some token).filter (· ≠ "") = some token := by
        simp [Option.filter, h]
      rw [ByteOrder.ofOverride_token h, hown, Option.getD_some]

/-- **A layout is the exact sums, each clamped once.** There is one slot for each member, in the
order of the members. It starts at the exact sum of what lies before its member and its member's
offset, it stops at the exact sum of everything up to and with its member, and it has the byte order
and the encoding of that member; the buffer is as large as the exact sum of all members. Each sum is
over unbounded numbers and is cut off at `2 ^ 64 - 1` once. -/
theorem slots_eq_exact_sums (r : Record) :
    r.layout.slots.length = r.members.length ∧
    (∀ i : Fin r.members.length, ∃ s,
      r.layout.slots[i.val]? = some s ∧
      s.member = r.members[i] ∧
      s.start.val =
        min (2 ^ 64 - 1) (Layout.span (r.members.take i) + r.members[i].offset.val) ∧
      s.stop.val = min (2 ^ 64 - 1) (Layout.span (r.members.take (i + 1))) ∧
      s.byteOrder =
        ByteOrder.ofToken ((r.members[i].byteOrder.filter (· ≠ "")).getD r.byteOrder) ∧
      s.encoding = r.members[i].tag.encoding) ∧
    r.layout.size.val = min (2 ^ 64 - 1) (Layout.span r.members) := by
  refine ⟨Layout.length_slotsFrom _ _ _, ?_, Layout.val_endFrom_zero r.members⟩
  intro i
  have hm : r.members[i.val]? = some r.members[i] := List.getElem?_eq_getElem i.isLt
  -- everything about the slot is a clamped addition or two to this cursor
  have hcursor := Layout.val_endFrom_zero (r.members.take i)
  refine ⟨Layout.slotAt r.order (Layout.endFrom 0 (r.members.take i)) r.members[i], ?_, rfl, ?_, ?_,
    order_eq_ofToken r r.members[i], rfl⟩
  · rw [getElem?_slots, hm, Option.map_some]
  · simp only [Layout.slotAt, Extent.val_add, hcursor, Extent.greatest]
    omega
  · rw [Layout.span_take_succ hm]
    simp only [Layout.slotAt, Extent.val_add, hcursor, Extent.greatest]
    omega

end Record

end WireRecord
