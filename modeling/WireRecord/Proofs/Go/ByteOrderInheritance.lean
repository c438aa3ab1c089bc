/-
Byte orders that members inherit.

A member without a token of its own, or with an empty one, has the byte order of the record; every other
token decides for itself, whether it is known or not. The main result, `inherited_byteOrder`, says what
this comes to in the generated texts. Every member can be given the order that it has as a token of its
own, and then the token of the record does not matter any more: layout and texts stay as they are. And
if only the token of the record is changed, the statements that change are those of integers that inherit
their order, provided that the two tokens mean different orders. Strings have no order in the text.

Both are about one record described in two ways, member by member, with offsets and sizes kept. That
moves no slot, and the order of a slot is that of its member as it is described now
(`Slot.redescribed`). The first part writes the orders down, the second one leaves every member as it is
and takes another token of the record.
-/
import WireRecord.Proofs.Go.Padding
import WireRecord.Proofs.Layout.Composition
import WireRecord.Go.Definition

set_option autoImplicit false

namespace WireRecord

/-! ## Tokens -/

/-- The full name of an order among its tokens. -/
def ByteOrder.token : ByteOrder → String
  | big => "big"
  | little => "little"

theorem ByteOrder.ofOverride_token_self (inherited o : ByteOrder) :
    ofOverride inherited (some o.token) = o := by
  cases o <;> rfl

/-- The member takes the order of the record. -/
def Member.Inherits (m : Member) : Prop := m.byteOrder = none ∨ m.byteOrder = some ""

/-- The order of a member follows that of the record if the member inherits it, and only then. -/
theorem Member.order_ne_iff {m : Member} {o o' : ByteOrder} :
    m.order o' ≠ m.order o ↔ m.Inherits ∧ o' ≠ o := by
  unfold Member.order Member.Inherits
  cases m.byteOrder with
  | none => simp
  | some token =>
    by_cases h : token = ""
    · rw [h, ByteOrder.ofOverride_empty, ByteOrder.ofOverride_empty]
      simp
    · rw [ByteOrder.ofOverride_token h, ByteOrder.ofOverride_token h]
      simp [h]

/-- An integer is what is written in a byte order. -/
theorem TypeTag.isInteger_iff {t : TypeTag} :
    t.isInteger = true ↔ ∃ signed width, t.encoding = some (.put signed width) := by
  cases t <;> simp [isInteger, encoding]

/-! ## Members described in another way -/

/-- The same slot with its member described in another way, in a record of another order. -/
def Slot.redescribed (f : Member → Member) (inherited : ByteOrder) (s : Slot) : Slot :=
  { s with member := f s.member, byteOrder := (f s.member).order inherited }

namespace Record

/-- The record with the order of each slot as a token of its member, under another token. -/
def withOwnOrders (r : Record) (token : String) : Record :=
  { r with
    byteOrder := token
    members := r.layout.slots.map fun s => s.member.withByteOrder s.byteOrder.token }

/-- The member with the order that it has in a record as a token of its own. -/
def ownOrder (r : Record) (m : Member) : Member := m.withByteOrder (m.order r.order).token

theorem members_withOwnOrders (r : Record) (token : String) :
    (r.withOwnOrders token).members = r.members.map r.ownOrder := by
  conv => rhs; rw [← r.map_member_slots]
  rw [List.map_map]
  refine List.map_congr_left fun s hs => ?_
  rw [Layout.byteOrder_of_mem_slotsFrom hs]
  rfl

theorem size_withOwnOrders (r : Record) (token : String) :
    (r.withOwnOrders token).layout.size = r.layout.size := by
  rw [layout, members_withOwnOrders]
  exact Layout.endFrom_map (f := r.ownOrder) (h := id) (fun _ _ => rfl) 0 r.members

/-- Orders that are written down are the orders that were inherited. -/
theorem slots_withOwnOrders (r : Record) (token : String) :
    List.Forall₂ Slot.StoredAlike (r.withOwnOrders token).layout.slots r.layout.slots := by
  have hslots : (r.withOwnOrders token).layout.slots =
      r.layout.slots.map (Slot.redescribed r.ownOrder (ByteOrder.ofToken token)) := by
    rw [layout, members_withOwnOrders]
    exact Layout.slotsFrom_map (f := r.ownOrder)
      (g := Slot.redescribed r.ownOrder (ByteOrder.ofToken token)) (h := id) r.order
      (ByteOrder.ofToken token) (fun _ _ => rfl) (fun _ => rfl) 0 r.members
  rw [hslots, List.forall₂_map_left_iff, List.forall₂_same]
  intro s hs
  refine ⟨rfl, rfl, rfl, ?_, rfl⟩
  rw [Layout.byteOrder_of_mem_slotsFrom hs]
  exact ByteOrder.ofOverride_token_self _ _

/-- Under another token of the record, each slot has the order of its member in that record. -/
theorem layout_byteOrder (r : Record) (token : String) :
    Record.layout { r with byteOrder := token } =
      { slots := r.layout.slots.map (Slot.redescribed id (ByteOrder.ofToken token))
        size := r.layout.size } := by
  have hslots := Layout.slotsFrom_map (f := id) (g := Slot.redescribed id (ByteOrder.ofToken token))
    (h := id) r.order (ByteOrder.ofToken token) (fun _ _ => rfl) (fun _ => rfl) 0 r.members
  rw [List.map_id] at hslots
  rw [layout, layout, ← hslots]
  rfl

/-- The members that can be written are those of the slots that are written. -/
theorem map_member_encodedSlots (r : Record) :
    r.layout.encodedSlots.map (·.member) = r.members.filter (·.tag.encoding.isSome) := by
  have hencoded : r.layout.encodedSlots =
      r.layout.slots.filter ((·.tag.encoding.isSome) ∘ Slot.member) := by
    refine List.filter_congr fun s hs => ?_
    rw [Layout.encoding_of_mem_slotsFrom hs]
    rfl
  rw [hencoded, ← List.filter_map, r.map_member_slots]

theorem encodedSlots_byteOrder (r : Record) (token : String) :
    (Record.layout { r with byteOrder := token }).encodedSlots =
      r.layout.encodedSlots.map (Slot.redescribed id (ByteOrder.ofToken token)) := by
  rw [layout_byteOrder, Layout.encodedSlots, List.filter_map]
  rfl

end Record

namespace Go

/-! ## Texts with orders written down -/

theorem definition_withOwnOrders (r : Record) (token : String) :
    definition (r.withOwnOrders token) = definition r := by
  have hmembers : (r.withOwnOrders token).members.map declaration = r.members.map declaration := by
    rw [Record.members_withOwnOrders, List.map_map]
    rfl
  delta definition
  rw [hmembers]
  rfl

theorem serializer_withOwnOrders (r : Record) (token : String) :
    serializer (r.withOwnOrders token) = serializer r :=
  serializer_congr rfl (r.size_withOwnOrders token)
    (Slot.encoded_writtenAlike (r.slots_withOwnOrders token))

/-! ## Statements under another token of the record -/

/-- Only the statement of an integer tells the order of its slot. -/
theorem statement?_redescribed_eq_iff {r : Record} {receiver : String} {s : Slot}
    {inherited : ByteOrder} (hs : s ∈ r.layout.encodedSlots) :
    statement? receiver (s.redescribed id inherited) = statement? receiver s ↔
      (s.member.tag.isInteger = true → s.member.order inherited = s.byteOrder) := by
  obtain ⟨hslot, hsome⟩ := List.mem_filter.mp hs
  rw [statement?_eq_iff (s := s.redescribed id inherited) hsome, TypeTag.isInteger_iff,
    ← Layout.encoding_of_mem_slotsFrom hslot]
  constructor
  · rintro h ⟨signed, width, hput⟩
    exact h.byteOrder signed width hput
  · intro h
    refine ⟨rfl, rfl, rfl, rfl, fun signed width hput => ?_⟩
    exact h ⟨signed, width, hput⟩

theorem getElem?_statements (r : Record) (k : Nat) :
    (statements r)[k]?.map some = r.layout.encodedSlots[k]?.map (statement? r.receiver) := by
  rw [← List.getElem?_map, map_some_statements, List.getElem?_map]

/-- **A change of the record's token reaches the integers that inherit it, and nothing else.** -/
theorem getElem?_statements_ne_iff (r : Record) (token : String) (k : Nat) :
    (statements { r with byteOrder := token })[k]? ≠ (statements r)[k]? ↔
      ∃ m, (r.members.filter (·.tag.encoding.isSome))[k]? = some m ∧
        m.tag.isInteger = true ∧ m.Inherits ∧
        ByteOrder.ofToken token ≠ ByteOrder.ofToken r.byteOrder := by
  have hchanged := getElem?_statements { r with byteOrder := token } k
  have hreceiver : Record.receiver { r with byteOrder := token } = r.receiver := rfl
  rw [Record.encodedSlots_byteOrder, List.getElem?_map, Option.map_map, hreceiver] at hchanged
  rw [Ne, ← Option.map_inj_right (f := some) fun _ _ => Option.some.inj, hchanged,
    getElem?_statements, ← Record.map_member_encodedSlots, List.getElem?_map]
  cases hk : r.layout.encodedSlots[k]? with
  | none => simp
  | some s =>
    have hs : s ∈ r.layout.encodedSlots := List.mem_of_getElem? hk
    have horder : s.byteOrder = s.member.order r.order :=
      Layout.byteOrder_of_mem_slotsFrom (List.mem_of_mem_filter hs)
    rw [Option.map_some, Option.map_some, Option.map_some, Option.some_inj, Function.comp_apply,
      statement?_redescribed_eq_iff hs, horder, Classical.not_imp, ← Ne, Member.order_ne_iff]
    simp only [Option.some.injEq, exists_eq_left']
    rfl

/-- **The byte order that members inherit.** If the order of each slot is written down as a token of its
member, the token of the record can be any: the layout has the same size and the same slots but for those
tokens, and both texts are the same. If only the token of the record is changed, the type definition is
the same, and the serializer has the same first line, the same buffer and as many statements, of which
one differs exactly if its member is an integer, has no token or an empty one, and the two tokens of the
record mean different orders. -/
theorem inherited_byteOrder (r : Record) (token : String) :
    let explicit := r.withOwnOrders token
    let changed : Record := { r with byteOrder := token }
    (explicit.layout.size = r.layout.size ∧
      List.Forall₂ Slot.StoredAlike explicit.layout.slots r.layout.slots ∧
      (emitDefinition explicit).text = (emitDefinition r).text ∧
      (emitSerializer explicit).text = (emitSerializer r).text) ∧
    ((emitDefinition changed).text = (emitDefinition r).text ∧
      changed.layout.size = r.layout.size ∧
      (emitSerializer changed).text = header r ++ "\n" ++ (bufferLine r ++ "\n")
        ++ String.join ((statements changed).map bodyLine) ++ ("\treturn nil\n" ++ "\x7d") ∧
      (statements changed).length = (statements r).length ∧
      ∀ k : Nat, (statements changed)[k]? ≠ (statements r)[k]? ↔
        ∃ m, (r.members.filter (·.tag.encoding.isSome))[k]? = some m ∧
          m.tag.isInteger = true ∧ (m.byteOrder = none ∨ m.byteOrder = some "") ∧
          ByteOrder.ofToken token ≠ ByteOrder.ofToken r.byteOrder) := by
  intro explicit changed
  refine ⟨⟨r.size_withOwnOrders token, r.slots_withOwnOrders token, ?_, ?_⟩, rfl, ?_, ?_, ?_,
    getElem?_statements_ne_iff r token⟩
  · rw [text_emitDefinition, text_emitDefinition, definition_withOwnOrders]
  · rw [text_emitSerializer, text_emitSerializer, serializer_withOwnOrders]
  · rw [Record.layout_byteOrder]
  · rw [text_emitSerializer]
    exact serializer_eq_append changed
  · rw [length_statements, length_statements, Record.layout_byteOrder, Layout.encodedCount,
      List.countP_map]
    rfl

-- an empty token inherits, and one that is not known does not
example :
    (Record.withOwnOrders { name := "Point", byteOrder := "big", members := [
      { name := "X", tag := .signed .w16, size := .clamp 2 },
      { name := "Y", tag := .signed .w16, size := .clamp 2, byteOrder := "" },
      { name := "Z", tag := .string, size := .clamp 2, byteOrder := "network" }] } "l").members.map
        (·.byteOrder) = ["big", "big", "little"] := by
  decide

end Go

end WireRecord
