/-
What may be chosen about a source file around its records.
-/

set_option autoImplicit false

namespace WireRecord

/-- The options of a source file. -/
structure SourceOptions where
  /-- The package that the file belongs to. -/
  package : String := "main"
  /-- Whether the file opens with a remark that it is generated. -/
  banner : Bool := true
deriving DecidableEq

/-- The same options for another package. -/
def SourceOptions.withPackage (o : SourceOptions) (package : String) : SourceOptions :=
  { o with package }

end WireRecord
