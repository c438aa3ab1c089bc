/-
What can be wrong with a document for the one who reads it.

Either the text is not JSON at some place, or it is but a value does not fit what is expected there.
A reader meets the first of these in the order of the text. The wording of the second kind is in one
function, `Mismatch.message`.
-/
import WireRecord.Json.Document
import WireRecord.Text.Shown

set_option autoImplicit false

namespace WireRecord.Json

/-- What kind of value is found. The parts of arrays and objects are not looked at. -/
inductive Found where
  | null
  | bool (value : Bool)
  | number (value : Number)
  | string (value : String)
  | array
  | object
deriving DecidableEq

/-- What kind of value is expected. -/
inductive Expected where
  | string
  | bool
  | extent
  | array
  | null
  | choice
  /-- The fields of a structure with a title. -/
  | struct (title : String)
deriving DecidableEq

/-- Why a value does not fit. -/
inductive Mismatch where
  | invalidType (found : Found) (expected : Expected)
  /-- It is of the right kind, but not one of the values expected. -/
  | invalidValue (found : Found) (expected : Expected)
  /-- An array ends before all fields of a structure that must be given. -/
  | tooShort (length : Nat) (title : String) (fields : Nat)
  /-- An array has more items than a structure has fields. -/
  | tooLong (length : Nat)
  | missingField (label : String)
  | duplicateField (label : String)
  /-- A name is none of the two that can be chosen. -/
  | unknownChoice (name : String) (first second : String)
deriving DecidableEq

/-- What is wrong with a document. -/
inductive Problem where
  | fault (fault : Fault)
  | mismatch (mismatch : Mismatch)
deriving DecidableEq

/-! ## Wording -/

/-- A name or a number between its marks. -/
def ticked (s : String) : String := "`" ++ s ++ "`"

def Found.phrase : Found → String
  | .null => "null"
  | .bool true => "boolean " ++ ticked "true"
  | .bool false => "boolean " ++ ticked "false"
  | .number (.real isNegative magnitude) =>
    "floating point " ++ ticked (Number.text (.real isNegative magnitude))
  | .number n => "integer " ++ ticked n.text
  | .string s => "string " ++ Text.shown s
  | .array => "sequence"
  | .object => "map"

def Expected.phrase : Expected → String
  | .string => "a string"
  | .bool => "a boolean"
  | .extent => "usize"
  | .array => "a sequence"
  | .null => "unit"
  | .choice => "variant identifier"
  | .struct title => "struct " ++ title

/-- The wording for a value that does not fit. -/
def Mismatch.message : Mismatch → String
  | .invalidType found expected =>
    "invalid type: " ++ found.phrase ++ ", expected " ++ expected.phrase
  | .invalidValue found expected =>
    "invalid value: " ++ found.phrase ++ ", expected " ++ expected.phrase
  | .tooShort length title fields =>
    "invalid length " ++ Nat.repr length ++ ", expected struct " ++ title ++ " with "
      ++ Nat.repr fields ++ " elements"
  | .tooLong length =>
    "invalid length " ++ Nat.repr length ++ ", expected fewer elements in array"
  | .missingField label => "missing field " ++ ticked label
  | .duplicateField label => "duplicate field " ++ ticked label
  | .unknownChoice name first second =>
    "unknown variant " ++ ticked name ++ ", expected " ++ ticked first ++ " or " ++ ticked second

/-! ## Single values -/

namespace Document

/-- The problem with a document where something else is expected: that it breaks off or has no
value, or else that it is of another kind. -/
def unexpected (expected : Expected) : Document → Problem
  | .broken place => .fault place.read
  | .number none | .string none => .fault .malformed
  | .null => .mismatch (.invalidType .null expected)
  | .bool b => .mismatch (.invalidType (.bool b) expected)
  | .number (some n) => .mismatch (.invalidType (.number n) expected)
  | .string (some s) => .mismatch (.invalidType (.string s) expected)
  | .array .. => .mismatch (.invalidType .array expected)
  | .object .. => .mismatch (.invalidType .object expected)

def readString : Document → Except Problem String
  | .string (some s) => .ok s
  | d => .error (d.unexpected .string)

def readBool : Document → Except Problem Bool
  | .bool b => .ok b
  | d => .error (d.unexpected .bool)

/-- Reads a count of bytes. A whole number below zero is of the right kind, but no count. -/
def readExtent : Document → Except Problem Extent
  | .number (some (.natural n)) => .ok n
  | .number (some (.negative magnitude)) =>
    .error (.mismatch (.invalidValue (.number (.negative magnitude)) .extent))
  | d => .error (d.unexpected .extent)

/-- Reads nothing, which is `null`. -/
def readNull : Document → Except Problem Unit
  | .null => .ok ()
  | d => .error (d.unexpected .null)

/-- Reads a value that may be `null` instead. -/
def readOption {α : Type} (read : Document → Except Problem α) :
    Document → Except Problem (Option α)
  | .null => .ok none
  | d => (read d).map some

/-- The problem at the end of a container that is read up to there, if there is one. -/
def checkEnding : Ending → Except Problem Unit
  | .closed | .counted => .ok ()
  | .cut place => .error (.fault place.read)

/-- Reads the items of an array, one after the other. -/
def readList {α : Type} (read : Document → Except Problem α) :
    Document → Except Problem (List α)
  | .array items ending => do
    let values ← items.mapM read
    checkEnding ending
    return values
  | d => .error (d.unexpected .array)

end Document

/-- Reads a text that holds one document and nothing after it. What comes after is looked at only
when the document is read. -/
def readText {α : Type} (read : Document → Except Problem α) (text : String) :
    Except Problem α := do
  let (document, rest) := Document.ofTokens (tokens text.toList)
  let value ← read document
  match rest with
  | [] => return value
  | _ :: _ => .error (.fault .malformed)

end WireRecord.Json
