/-
Serializers written down directly.

A serializer is made by moving a cursor over the members, clamping it at each step, and printing what
lies between its positions. Nothing of that is needed to say what its text is. `Direct.serializer` says
it from the description alone: each member has its own line or none, and all that the line needs from
the other members is how many bytes there are before it, counted without a limit and cut off when a
position is printed. The main result, `serializer_text_direct`, is that this is the text, character by
character, for every record. Names stand in it as they are, whatever characters they have.

Both texts have a line for each member that can be written, in the order of the members. So it is enough
to compare them member by member, at each place of the list (`map_bodyLine_statement?`), and there the
slot is known: it is that of the cursor behind the members before it, which is their exact sum, clamped.
-/
import WireRecord.Proofs.Layout.ExactSums
import WireRecord.Proofs.Go.SerializerText

set_option autoImplicit false

namespace WireRecord.Go

/-! ## The text by the description -/

namespace Direct

/-- The position behind so many bytes, in decimal. There is no position above the greatest one. -/
def position (bytes : Nat) : String := Nat.repr (min (2 ^ 64 - 1) bytes)

/-- The byte order of a member, by its own token if it has one that is not empty, or else by the token of
the record. -/
def order (r : Record) (m : Member) : String :=
  let token := (m.byteOrder.filter (· ≠ "")).getD r.byteOrder
  if token = "b" ∨ token = "big" ∨ token = "big-endian" then "binary.BigEndian"
  else "binary.LittleEndian"

/-- What is called for a member, if it can be written. -/
def call? (r : Record) (m : Member) : Option String :=
  match m.tag with
  | .unsigned width => some (order r m ++ ".PutUint" ++ Nat.repr width.bits)
  | .signed width => some (order r m ++ ".PutInt" ++ Nat.repr width.bits)
  | .string => some "copy"
  | .other _ => none

/-- The line for the member at a place, if it can be written. -/
def line? (r : Record) (place : Nat) (m : Member) : Option String :=
  let start := Layout.span (r.members.take place) + m.offset.val
  let stop := start + m.size.val
  (call? r m).map fun call =>
    "\t" ++ call ++ "(buf[" ++ position start ++ ":" ++ position stop ++ "], "
      ++ r.receiver ++ "." ++ m.name ++ ")" ++ "\n"

/-- The serializer of a record. -/
def serializer (r : Record) : String :=
  "func (" ++ r.receiver ++ " " ++ r.name ++ ") MarshalBinary() ([]byte, error) \x7b\n"
    ++ "\tvar buf [" ++ position (Layout.span r.members) ++ "]byte\n"
    ++ String.join (r.members.zipIdx.filterMap fun (m, place) => line? r place m)
    ++ "\treturn nil\n\x7d"

end Direct

/-! ## Member by member -/

/-- Behind some members the cursor is printed as their exact sum. -/
theorem text_endFrom (members : List Member) :
    (Layout.endFrom 0 members).text = Direct.position (Layout.span members) := by
  rw [Extent.text, Layout.val_endFrom_zero]
  rfl

/-- The slots of a record, each from the members before it. -/
theorem slots_eq_map_zipIdx (r : Record) :
    r.layout.slots = r.members.zipIdx.map fun (m, place) =>
      Layout.slotAt r.order (Layout.endFrom 0 (r.members.take place)) m := by
  refine List.ext_getElem? fun place => ?_
  rw [r.getElem?_slots, List.getElem?_map, List.getElem?_zipIdx, Option.map_map]
  simp only [Function.comp_def, Nat.zero_add]

/-- What a slot of the member calls is what its description says. -/
theorem map_verb_encoding (r : Record) (m : Member) :
    m.tag.encoding.map (verb (m.order r.order)) = Direct.call? r m := by
  have horder : byteOrderExpr (m.order r.order) = Direct.order r m := by
    rw [r.order_eq_ofToken, ByteOrder.ofToken, Direct.order]
    split <;> rfl
  have hunsigned : Direct.order r m ++ "." ++ "PutUint" = Direct.order r m ++ ".PutUint" :=
    String.append_assoc
  have hsigned : Direct.order r m ++ "." ++ "PutInt" = Direct.order r m ++ ".PutInt" :=
    String.append_assoc
  rw [Direct.call?]
  cases m.tag with
  | unsigned width =>
    rw [TypeTag.encoding, Option.map_some, verb, horder, putVerb, if_neg Bool.false_ne_true,
      hunsigned]
    rfl
  | signed width =>
    rw [TypeTag.encoding, Option.map_some, verb, horder, putVerb, if_pos rfl, hsigned]
    rfl
  | string => rfl
  | other text => rfl

/-- The slice of a slot is printed by exact sums. -/
theorem arguments_slotAt (r : Record) (before : List Member) (m : Member) :
    arguments r.receiver (Layout.slotAt r.order (Layout.endFrom 0 before) m) =
      "(buf[" ++ Direct.position (Layout.span before + m.offset.val) ++ ":"
        ++ Direct.position (Layout.span before + m.offset.val + m.size.val) ++ "], "
        ++ r.receiver ++ "." ++ m.name ++ ")" := by
  have hbefore := Layout.val_endFrom_zero before
  have hlimit : Extent.greatest = 2 ^ 64 - 1 := rfl
  have hstart : (Layout.endFrom 0 before + m.offset).val
      = min (2 ^ 64 - 1) (Layout.span before + m.offset.val) := by
    rw [Extent.val_add, hbefore]
    omega
  have hstop : (Layout.endFrom 0 before + m.offset + m.size).val
      = min (2 ^ 64 - 1) (Layout.span before + m.offset.val + m.size.val) := by
    rw [Extent.val_add, hstart]
    omega
  rw [Direct.position, Direct.position, ← hstart, ← hstop]
  rfl

/-- **The line of a member is what its description says.** -/
theorem map_bodyLine_statement? (r : Record) (place : Nat) (m : Member) :
    (statement? r.receiver
      (Layout.slotAt r.order (Layout.endFrom 0 (r.members.take place)) m)).map bodyLine =
      Direct.line? r place m := by
  rw [statement?_eq, arguments_slotAt, Direct.line?, ← map_verb_encoding, Option.map_map,
    Option.map_map]
  refine congrArg (Option.map · m.tag.encoding) (funext fun e => ?_)
  simp only [Function.comp_apply, bodyLine, String.append_assoc]
  rfl

/-! ## The whole text -/

/-- The lines of the statements, member by member. -/
theorem map_bodyLine_statements (r : Record) :
    (statements r).map bodyLine =
      r.members.zipIdx.filterMap fun (m, place) => Direct.line? r place m := by
  rw [statements, slots_eq_map_zipIdx, List.map_filterMap, List.filterMap_map]
  refine List.filterMap_congr ?_
  rintro ⟨m, place⟩ -
  exact map_bodyLine_statement? r place m

/-- **A serializer is what the description of its record says directly.** -/
theorem serializer_text_direct (r : Record) : (emitSerializer r).text = Direct.serializer r := by
  have hsize : r.layout.size.text = Direct.position (Layout.span r.members) := text_endFrom r.members
  rw [text_emitSerializer]
  delta serializer Direct.serializer
  rw [hsize, map_bodyLine_statements]

end WireRecord.Go
