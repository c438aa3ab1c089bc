/-
Structures read from documents, field by field.

A form lists the fields of a structure in the order in which they are declared: for each one its
label, what can stand in it, how that is read, and what stands in it if it is not given. A document
fills in a form in one of two ways. An object gives fields by their labels in any order; labels that
the form does not have are skipped with their values. An array gives the first fields in the order
of the form. Either way the draft is complete if each field is given or has a default.

The content of a field depends on the field, so a draft is a function on fields. The laws of filling
in (which field is reported when several are missing, that a field given twice is reported before
anything is missing) are then the same for every structure, and are stated for forms once.
-/
import WireRecord.Json.Problem

set_option autoImplicit false

namespace WireRecord.Json

structure Form (α : Type) where
  title : String
  Field : Type
  /-- Fields can be told apart. -/
  decEq : DecidableEq Field
  /-- The fields in the order in which they are declared. -/
  fields : List Field
  /-- Every field is listed. -/
  mem_fields : ∀ f, f ∈ fields
  label : Field → String
  /-- What can stand in a field. -/
  Content : Field → Type
  /-- How the content of a field is read. -/
  read : (f : Field) → Document → Except Problem (Content f)
  /-- What stands in a field that is not given, unless it must be given. -/
  default? : (f : Field) → Option (Content f)
  /-- The structure with given fields. -/
  build : ((f : Field) → Content f) → α

namespace Form

variable {α : Type} (F : Form α)

/-- The fields given so far. -/
abbrev Draft : Type := (f : F.Field) → Option (F.Content f)

def blank : F.Draft := fun _ => none

variable {F}

/-- The draft with one field more. -/
def Draft.set (d : F.Draft) (f : F.Field) (content : F.Content f) : F.Draft := fun g =>
  match F.decEq f g with
  | .isTrue same => some (same ▸ content)
  | .isFalse _ => d g

/-- What stands in a field in the end: what is given, or else its default. -/
def Draft.filled (d : F.Draft) (f : F.Field) : Option (F.Content f) := (d f).or (F.default? f)

@[simp] theorem blank_apply (f : F.Field) : F.blank f = none := rfl

/-- A field that is set has its content. -/
@[simp] theorem Draft.set_self (d : F.Draft) (f : F.Field) (content : F.Content f) :
    d.set f content f = some content := by
  unfold Draft.set
  cases F.decEq f f with
  | isTrue same => rfl
  | isFalse other => exact absurd rfl other

/-- Setting one field does not touch another. -/
theorem Draft.set_of_ne (d : F.Draft) {f g : F.Field} (content : F.Content f) (h : f ≠ g) :
    d.set f content g = d g := by
  unfold Draft.set
  cases F.decEq f g with
  | isTrue same => exact absurd same h
  | isFalse other => rfl

/-- The structure of a draft, or the first field that must be given and is not. -/
def Draft.complete (d : F.Draft) : Except F.Field α :=
  match h : F.fields.find? fun f => (d.filled f).isNone with
  | some f => .error f
  | none => .ok (F.build fun f => (d.filled f).get (by
      simpa [Option.isNone_iff_eq_none, ← Option.isSome_iff_ne_none]
        using List.find?_eq_none.1 h f (F.mem_fields f)))

variable (F)

/-- The field with a label, if there is one. -/
def ofLabel? (label : String) : Option F.Field := F.fields.find? (F.label · = label)

/-- Reads the entries of an object into a draft. A key must have a value as a string; a known field
that is already given is reported as soon as its label is read again. -/
def readEntries (d : F.Draft) (ending : Ending) : List Entry → Except Problem F.Draft
  | [] => (Document.checkEnding ending).map fun _ => d
  | (none, _) :: _ => .error (.fault .malformed)
  | (some label, value) :: rest =>
    match F.ofLabel? label with
    | none =>
      match value.obstacle? with
      | some fault => .error (.fault fault)
      | none => readEntries d ending rest
    | some f =>
      if (d f).isSome then .error (.mismatch (.duplicateField (F.label f)))
      else
        match F.read f value with
        | .error problem => .error problem
        | .ok content => readEntries (d.set f content) ending rest

/-- Reads the items of an array into the given fields of a draft, in order: the draft, and the items
for which there are no fields. -/
def readItems (d : F.Draft) (ending : Ending) :
    List F.Field → List Document → Except Problem (F.Draft × List Document)
  | [], surplus => .ok (d, surplus)
  | _ :: _, [] => (Document.checkEnding ending).map fun _ => (d, [])
  | f :: fields, item :: items =>
    match F.read f item with
    | .error problem => .error problem
    | .ok content => readItems (d.set f content) ending fields items

/-- What is wrong behind the last field of a structure given as an array of so many items. If the
length is known from the beginning, surplus items make the array too long; in a text, the closing
bracket is due in place of the comma before them. -/
def checkSurplus (length : Nat) : List Document → Ending → Except Problem Unit
  | [], ending => Document.checkEnding ending
  | _ :: _, .counted => .error (.mismatch (.tooLong length))
  | _ :: _, _ => .error (.fault .malformed)

def readStruct : Document → Except Problem α
  | .object entries ending => do
    let d ← F.readEntries F.blank ending entries
    match d.complete with
    | .ok value => return value
    | .error f => .error (.mismatch (.missingField (F.label f)))
  | .array items ending => do
    let (d, surplus) ← F.readItems F.blank ending F.fields items
    match d.complete with
    | .ok value =>
      checkSurplus items.length surplus ending
      return value
    | .error _ => .error (.mismatch (.tooShort items.length F.title F.fields.length))
  | d => .error (d.unexpected (.struct F.title))

end Form

end WireRecord.Json
