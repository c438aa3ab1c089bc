/-
Descriptions read from JSON.

A record, a member and the options of a source file are structures, each with its form. A tag is
read from the string that spells it. A byte order is one of two names, and is also accepted as the
only key of an object whose value is `null`.
-/
import WireRecord.Record
import WireRecord.SourceOptions
import WireRecord.Json.Form

set_option autoImplicit false

namespace WireRecord

open Json (Document Form Problem Token)

/-! ## Structures -/

/-- Reads a type tag. -/
def TypeTag.read (d : Document) : Except Problem TypeTag := d.readString.map TypeTag.ofText

/-- The fields of a member. -/
inductive MemberField where
  | name
  | type
  | size
  | offset
  | byteOrder
deriving DecidableEq

/-- The form of a member. The name, the type and the size must be given. -/
def Member.form : Form Member where
  title := "FieldDescriptor"
  Field := MemberField
  decEq := inferInstance
  fields := [.name, .type, .size, .offset, .byteOrder]
  mem_fields f := by cases f <;> simp
  label
    | .name => "name"
    | .type => "type"
    | .size => "size"
    | .offset => "offset"
    | .byteOrder => "byte_order"
  Content
    | .name => String
    | .type => TypeTag
    | .size => Extent
    | .offset => Extent
    | .byteOrder => Option String
  read
    | .name => Document.readString
    | .type => TypeTag.read
    | .size => Document.readExtent
    | .offset => Document.readExtent
    | .byteOrder => Document.readOption Document.readString
  default?
    | .name => none
    | .type => none
    | .size => none
    | .offset => some (0 : Extent)
    | .byteOrder => some (none : Option String)
  build given := ⟨given .name, given .type, given .size, given .offset, given .byteOrder⟩

/-- The fields of a record. -/
inductive RecordField where
  | name
  | byteOrder
  | members
deriving DecidableEq

/-- The form of a record. Only the name must be given. -/
def Record.form : Form Record where
  title := "RecordDescriptor"
  Field := RecordField
  decEq := inferInstance
  fields := [.name, .byteOrder, .members]
  mem_fields f := by cases f <;> simp
  label
    | .name => "name"
    | .byteOrder => "byte_order"
    | .members => "members"
  Content
    | .name => String
    | .byteOrder => String
    | .members => List Member
  read
    | .name => Document.readString
    | .byteOrder => Document.readString
    | .members => Document.readList Member.form.readStruct
  default?
    | .name => none
    | .byteOrder => some ""
    | .members => some ([] : List Member)
  build given := ⟨given .name, given .byteOrder, given .members⟩

/-- The fields of the options of a source file. -/
inductive SourceOptionsField where
  | package
  | banner
deriving DecidableEq

/-- The form of the options of a source file. Nothing must be given. -/
def SourceOptions.form : Form SourceOptions where
  title := "SourceOptions"
  Field := SourceOptionsField
  decEq := inferInstance
  fields := [.package, .banner]
  mem_fields f := by cases f <;> simp
  label
    | .package => "package"
    | .banner => "banner"
  Content
    | .package => String
    | .banner => Bool
  read
    | .package => Document.readString
    | .banner => Document.readBool
  default?
    | .package => some "main"
    | .banner => some true
  build given := ⟨given .package, given .banner⟩

/-- Reads a member. -/
def Member.read (d : Document) : Except Problem Member := Member.form.readStruct d

/-- Reads a record. -/
def Record.read (d : Document) : Except Problem Record := Record.form.readStruct d

/-- Reads the options of a source file. -/
def SourceOptions.read (d : Document) : Except Problem SourceOptions :=
  SourceOptions.form.readStruct d

/-! ## Byte orders -/

namespace ByteOrder

/-- The byte order with a name. -/
def ofName (name : String) : Except Problem ByteOrder :=
  if name = big.name then .ok big
  else if name = little.name then .ok little
  else .error (.mismatch (.unknownChoice name big.name little.name))

/-- Reads the name of a byte order. -/
def readName : Document → Except Problem ByteOrder
  | .string (some name) => ofName name
  | d => .error (d.unexpected .choice)

/-- Reads what follows the name of a byte order that is a key: a colon, `null`, and the end of the
object and of the text. -/
def readAfterName (order : ByteOrder) : List Token → Except Problem ByteOrder
  | [] => .error (.fault .ended)
  | .mark .colon :: tokens => do
    let (value, rest) := Document.ofTokens tokens
    value.readNull
    match rest with
    | [] => .error (.fault .ended)
    | [.mark .objectClose] => return order
    | _ :: _ => .error (.fault .malformed)
  | _ :: _ => .error (.fault .malformed)

/-- Reads a byte order from the tokens of a text. -/
def ofTokens : List Token → Except Problem ByteOrder
  | [] => .error (.fault .ended)
  | .mark .objectOpen :: tokens => do
    let (name, rest) := Document.ofTokens tokens
    (← readName name).readAfterName rest
  | [.string (some name)] => ofName name
  | .string (some name) :: _ :: _ => do
    let _ ← ofName name
    .error (.fault .malformed)
  | .brokenString place :: _ => .error (.fault place.read)
  | _ :: _ => .error (.fault .malformed)

end ByteOrder

/-! ## Texts -/

/-- The member that a text describes. -/
def Member.ofText (text : String) : Except Problem Member := Json.readText Member.read text

/-- The record that a text describes. -/
def Record.ofText (text : String) : Except Problem Record := Json.readText Record.read text

/-- The options of a source file that a text describes. -/
def SourceOptions.ofText (text : String) : Except Problem SourceOptions :=
  Json.readText SourceOptions.read text

/-- The type tag that a JSON text spells. -/
def TypeTag.ofJson (text : String) : Except Problem TypeTag := Json.readText TypeTag.read text

/-- The byte order that a JSON text names. -/
def ByteOrder.ofJson (text : String) : Except Problem ByteOrder :=
  ByteOrder.ofTokens (Json.tokens text.toList)

end WireRecord
