/-
Descriptions written as JSON.

The fields stand in the order in which they are declared. A member's own byte order is written only
if there is one, even if it is empty. A tag is written as its text and a byte order as its name.
-/
import WireRecord.Record
import WireRecord.SourceOptions
import WireRecord.Json.Value

set_option autoImplicit false

namespace WireRecord

open Json (Value)

/-- The value of a count of bytes. -/
def Extent.value (e : Extent) : Value := .number (.natural e)

/-- The value of a type tag. -/
def TypeTag.value (t : TypeTag) : Value := .string t.text

/-- The value of a byte order. -/
def ByteOrder.value (o : ByteOrder) : Value := .string o.name

/-- The entry for a member's own byte order, if there is one. -/
def Member.byteOrderEntry (m : Member) : List (String × Value) :=
  match m.byteOrder with
  | some token => [("byte_order", .string token)]
  | none => []

/-- The value of a member. -/
def Member.value (m : Member) : Value :=
  .object ([("name", .string m.name), ("type", m.tag.value), ("size", m.size.value),
    ("offset", m.offset.value)] ++ m.byteOrderEntry)

/-- The value of a record. -/
def Record.value (r : Record) : Value :=
  .object [("name", .string r.name), ("byte_order", .string r.byteOrder),
    ("members", .array (r.members.map Member.value))]

/-- The value of the options of a source file. -/
def SourceOptions.value (o : SourceOptions) : Value :=
  .object [("package", .string o.package), ("banner", .bool o.banner)]

/-- The JSON text of a member. -/
def Member.json (m : Member) : String := m.value.text

/-- The JSON text of a record. -/
def Record.json (r : Record) : String := r.value.text

/-- The JSON text of the options of a source file. -/
def SourceOptions.json (o : SourceOptions) : String := o.value.text

end WireRecord
