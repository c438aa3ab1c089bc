/-
The tokens of a JSON text.

A text that is read may stop being JSON anywhere, either because it ends too early or because a
character stands where it must not. Which of the two it is can depend on what the reader does with
the value at that place: a value that is read and a value that is skipped unread are not looked at
in the same way. A token that breaks off therefore carries both answers. A number or a string that
is complete may still be without a value; that is a fault only to a reader that asks for the value.
-/
import WireRecord.Json.Number

set_option autoImplicit false

namespace WireRecord.Json

/-- Why a text is not JSON. -/
inductive Fault where
  | ended
  /-- A character stands where it must not. -/
  | malformed
deriving DecidableEq, Repr

/-- The fault at a place where a text stops being JSON. -/
structure Break where
  /-- The fault if the value there is read. -/
  read : Fault
  /-- The fault if the value there is skipped. -/
  skip : Fault
deriving DecidableEq, Repr

/-- The break with the same fault for every reader. -/
def Break.both (fault : Fault) : Break := ⟨fault, fault⟩

inductive Mark where
  | arrayOpen
  | arrayClose
  | objectOpen
  | objectClose
  | comma
  | colon
deriving DecidableEq, Repr

inductive Token where
  | mark (mark : Mark)
  | null
  | bool (value : Bool)
  /-- A number, with its value unless that is too great. -/
  | number (value : Option Number)
  /-- A string, with its value unless it has half a surrogate pair. -/
  | string (value : Option String)
  /-- A string that breaks off. -/
  | brokenString (place : Break)
  /-- Anything else that breaks off, or that cannot begin a token. -/
  | broken (place : Break)
deriving DecidableEq

/-- The mark that a character is. -/
def Mark.ofChar? : Char → Option Mark
  | '[' => some arrayOpen
  | ']' => some arrayClose
  | '\x7b' => some objectOpen
  | '\x7d' => some objectClose
  | ',' => some comma
  | ':' => some colon
  | _ => none

/-- Whether a character may stand between tokens. -/
def isBlank (c : Char) : Bool := c = ' ' || c = '\t' || c = '\n' || c = '\r'

end WireRecord.Json
