/-
Source files.

A source file is written section by section, with a blank line between two sections and one line
break at the end: a remark that the file is generated (if wanted), the package clause, the import of
the package that stores integers (if some member is an integer, because an import without use is an
error), and then the type definition and the serializer of each record. Each break is a piece of its
own, so a file that is cut off may end between a section and the break before the next.
-/
import WireRecord.Go.Definition
import WireRecord.Go.Serializer
import WireRecord.SourceOptions

set_option autoImplicit false

namespace WireRecord.Go

def banner : String := "// Code generated by struct-gen. DO NOT EDIT."

def sectionBreak : String := "\n\n"

def packageClause (package : String) : String := "package " ++ package

/-- The import of the package that stores integers. -/
def binaryImport : String := "import \"encoding/binary\""

/-- Whether the layout of some record has a slot for an integer. -/
def needsBinaryImport (records : List Record) : Bool :=
  records.any (·.layout.slots.any Slot.isInteger)

/-- The sections before the first record. -/
def emitHeader (options : SourceOptions) (records : List Record) : Emission :=
  (if options.banner then [.write banner, .write sectionBreak] else [])
    ++ [.write (packageClause options.package)]
    ++ (if needsBinaryImport records then [.write sectionBreak, .write binaryImport] else [])

/-- The sections of a record, each after a break. -/
def emitRecord (r : Record) : Emission :=
  [.write sectionBreak] ++ emitDefinition r ++ [.write sectionBreak] ++ emitSerializer r

/-- Emits a source file with the given records, after an event that announces it. -/
def emitSource (options : SourceOptions) (records : List Record) : Emission :=
  [.log (.sourceFile options.package records.length)]
    ++ emitHeader options records
    ++ records.flatMap emitRecord
    ++ [.write "\n"]

/-- The complete text of a record in a file. -/
theorem text_emitRecord (r : Record) :
    (emitRecord r).text = sectionBreak ++ definition r ++ sectionBreak ++ serializer r := by
  have hbreak : Emission.text [.write sectionBreak] = sectionBreak := String.append_empty
  rw [emitRecord, Emission.text_append, Emission.text_append, Emission.text_append, hbreak, text_emitDefinition,
    text_emitSerializer]

end WireRecord.Go
