/-
Type definitions.

The definition of a record is a Go struct type with one line for each member: its name and its tag.
Sizes, offsets and byte orders do not appear. Names and tags are inserted as they are.
-/
import WireRecord.Record
import WireRecord.Emission

set_option autoImplicit false

namespace WireRecord.Go

/-- The line that declares a member. -/
def declaration (m : Member) : String := "\t" ++ m.name ++ " " ++ m.tag.text ++ "\n"

def definition (r : Record) : String :=
  "type " ++ r.name ++ " struct \x7b\n" ++ String.join (r.members.map declaration) ++ "\x7d"

/-- Emits the type definition of a record, after an event that announces it. -/
def emitDefinition (r : Record) : Emission :=
  [.log (.definition r.name r.members.length), .write (definition r)]

@[simp] theorem text_emitDefinition (r : Record) : (emitDefinition r).text = definition r := by
  simp [emitDefinition, Emission.text]

end WireRecord.Go
