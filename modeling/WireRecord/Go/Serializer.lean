/-
Serializers.

The serializer of a record is a Go method that puts the members into a buffer of the record's size,
with one statement for each member that can be written, in the order of the members. A member of a
type that is not understood has no statement, but an event says that it is left out. Each statement
names the bytes of the member's own slot.
-/
import WireRecord.Layout
import WireRecord.Emission

set_option autoImplicit false

namespace WireRecord.Go

def byteOrderExpr : ByteOrder → String
  | .big => "binary.BigEndian"
  | .little => "binary.LittleEndian"

/-- The method that stores an integer, without the width. -/
def putVerb (signed : Bool) : String := if signed then "PutInt" else "PutUint"

/-- The arguments of a statement: the bytes of the slot, and the member that goes there. -/
def arguments (receiver : String) (s : Slot) : String :=
  "(buf[" ++ s.start.text ++ ":" ++ s.stop.text ++ "], " ++ receiver ++ "." ++ s.member.name ++ ")"

/-- The statement that writes a member, if it can be written. -/
def statement? (receiver : String) (s : Slot) : Option String :=
  match s.encoding with
  | some (.put signed width) =>
    some (byteOrderExpr s.byteOrder ++ "." ++ putVerb signed ++ width.text ++ arguments receiver s)
  | some .copy => some ("copy" ++ arguments receiver s)
  | none => none

def statements (r : Record) : List String := r.layout.slots.filterMap (statement? r.receiver)

/-- A line of a method's body. -/
def bodyLine (statement : String) : String := "\t" ++ statement ++ "\n"

def serializer (r : Record) : String :=
  "func (" ++ r.receiver ++ " " ++ r.name ++ ") MarshalBinary() ([]byte, error) \x7b\n"
    ++ "\tvar buf [" ++ r.layout.size.text ++ "]byte\n"
    ++ String.join ((statements r).map bodyLine)
    ++ "\treturn nil\n\x7d"

/-- The event that says that a member is left out, if it is. -/
def skipped? (s : Slot) : Option Event :=
  match s.encoding with
  | some _ => none
  | none => some (.skippedMember s.member.name s.member.tag.text s.start s.stop)

/-- The events of a serializer: one that announces it, then one for each member left out. -/
def serializerEvents (r : Record) : List Event :=
  .serializer r.name r.layout.size r.members.length :: r.layout.slots.filterMap skipped?

/-- Emits the serializer of a record, after its events. -/
def emitSerializer (r : Record) : Emission :=
  (serializerEvents r).map .log ++ [.write (serializer r)]

@[simp] theorem text_emitSerializer (r : Record) : (emitSerializer r).text = serializer r := by
  simp [emitSerializer, Emission.text]

end WireRecord.Go
