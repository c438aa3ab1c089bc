/-
Descriptions of fixed-layout binary records.

A record has a name, a byte-order token and a list of members. The order of the members matters
twice: it is the order in which a type definition lists them, and the order in which they lie in the
buffer. A member says how many bytes it occupies and how many bytes are left free before it; it may
name a byte order of its own. Nothing about a description is checked: sizes need not fit the tags,
names need not be names, and tokens need not be known.
-/
import WireRecord.Extent
import WireRecord.ByteOrder
import WireRecord.TypeTag
import WireRecord.Text.Lowercase

set_option autoImplicit false

namespace WireRecord

/-- One member of a record. -/
structure Member where
  /-- The name under which the member is declared. -/
  name : String
  /-- Its type. -/
  tag : TypeTag
  /-- The bytes that it occupies in the buffer. -/
  size : Extent
  /-- The bytes left free before it. -/
  offset : Extent := 0
  /-- The token for a byte order of its own. -/
  byteOrder : Option String := none
deriving DecidableEq

/-- A record of binary data with a fixed layout. -/
structure Record where
  /-- The name of the record. -/
  name : String
  /-- The token for the byte order that its members inherit. -/
  byteOrder : String := ""
  /-- The members, as they are declared. -/
  members : List Member := []
deriving DecidableEq

namespace Member

/-- The same member after so many free bytes. -/
def withOffset (m : Member) (offset : Extent) : Member := { m with offset }

/-- The same member with a byte order of its own. -/
def withByteOrder (m : Member) (token : String) : Member := { m with byteOrder := some token }

/-- The byte order of a member in a record of a given order. -/
def order (m : Member) (inherited : ByteOrder) : ByteOrder :=
  ByteOrder.ofOverride inherited m.byteOrder

end Member

namespace Record

/-- The same record with one member more, at the end. -/
def withMember (r : Record) (m : Member) : Record := { r with members := r.members ++ [m] }

/-- The byte order that the members inherit. -/
def order (r : Record) : ByteOrder := ByteOrder.ofToken r.byteOrder

/-- The name by which a method of the record calls its own record: the first character of the
record's name, in lowercase. A record without a name has none. -/
def receiver (r : Record) : String :=
  match r.name.toList with
  | first :: _ => String.ofList (Text.lowercase first)
  | [] => ""

/-- Members added one by one stand in the order of the additions. -/
theorem foldl_withMember (r : Record) (added : List Member) :
    added.foldl withMember r = { r with members := r.members ++ added } := by
  induction added generalizing r with
  | nil => simp
  | cons m added ih => simp [ih, withMember]

end Record

end WireRecord
