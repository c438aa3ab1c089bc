/-
What is logged while text is emitted.

Each event is a remark at debugging level with a fixed message and a few values of its own.
-/
import WireRecord.Extent

set_option autoImplicit false

namespace WireRecord

inductive Event where
  /-- A source file of a package begins, with so many records. -/
  | sourceFile (package : String) (records : Nat)
  /-- The type definition of a record is made, with so many members. -/
  | definition (record : String) (members : Nat)
  /-- The serializer of a record is made, for a buffer of a size and with so many members. -/
  | serializer (record : String) (size : Extent) (members : Nat)
  /-- A member of a type that is not understood is left out of a serializer; its bytes stay. -/
  | skippedMember (member : String) (tag : String) (start stop : Extent)
deriving DecidableEq

/-- The message of an event, without its values. -/
def Event.message : Event → String
  | sourceFile .. => "emitting source file"
  | definition .. => "emitting type definition"
  | serializer .. => "emitting serializer"
  | skippedMember .. => "skipping field with unsupported type tag"

end WireRecord
