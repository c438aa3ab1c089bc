/-
JSON values and their text.

A value is what a whole document says. Its text is compact: no blanks, the entries of an object in
the order given, and in a string only the characters escaped that must be. A value can be taken from
a document that does not break off; of entries with the same key the last one counts, and the
entries stand in the order of their keys. And a value is itself a document, one whose arrays have a
known length.
-/
import WireRecord.Json.Document

set_option autoImplicit false

namespace WireRecord.Json

inductive Value where
  | null
  | bool (value : Bool)
  | number (value : Number)
  | string (value : String)
  | array (items : List Value)
  /-- An object: its keys and their values. -/
  | object (entries : List (String × Value))

/-! ## Text -/

/-- A character inside a string. Quotes, backslashes and control characters are escaped, the control
characters by a short escape if they have one. -/
def escapeChar (c : Char) : List Char :=
  if c = '"' then ['\\', '"']
  else if c = '\\' then ['\\', '\\']
  else if c = '\x08' then ['\\', 'b']
  else if c = '\t' then ['\\', 't']
  else if c = '\n' then ['\\', 'n']
  else if c = '\x0c' then ['\\', 'f']
  else if c = '\r' then ['\\', 'r']
  else if isControl c then
    ['\\', 'u', '0', '0', Nat.digitChar (c.toNat / 16), Nat.digitChar (c.toNat % 16)]
  else [c]

/-- The text of a string. -/
def quote (s : String) : String :=
  String.ofList ('"' :: (s.toList.flatMap escapeChar ++ ['"']))

mutual

def Value.text : Value → String
  | .null => "null"
  | .bool true => "true"
  | .bool false => "false"
  | .number n => n.text
  | .string s => quote s
  | .array items => "[" ++ String.intercalate "," (itemTexts items) ++ "]"
  | .object entries => "\x7b" ++ String.intercalate "," (entryTexts entries) ++ "\x7d"

def itemTexts : List Value → List String
  | [] => []
  | v :: rest => v.text :: itemTexts rest

def entryTexts : List (String × Value) → List String
  | [] => []
  | (key, v) :: rest => (quote key ++ ":" ++ v.text) :: entryTexts rest

end

/-! ## Values as documents -/

mutual

/-- The document that a value is. -/
def Value.document : Value → Document
  | .null => .null
  | .bool b => .bool b
  | .number n => .number (some n)
  | .string s => .string (some s)
  | .array items => .array (itemDocuments items) .counted
  | .object entries => .object (entryDocuments entries) .counted

/-- The documents that items are. -/
def itemDocuments : List Value → List Document
  | [] => []
  | v :: rest => v.document :: itemDocuments rest

/-- The documents that entries are. -/
def entryDocuments : List (String × Value) → List Entry
  | [] => []
  | (key, v) :: rest => (some key, v.document) :: entryDocuments rest

end

/-! ## Documents as values -/

/-- Sets the value of a key among entries that stand in the order of their keys. -/
def setEntry (key : String) (v : Value) : List (String × Value) → List (String × Value)
  | [] => [(key, v)]
  | (k, w) :: rest =>
    if key < k then (key, v) :: (k, w) :: rest
    else if key = k then (key, v) :: rest
    else (k, w) :: setEntry key v rest

/-- A value in an array or object, unless that breaks off. -/
def Ending.whole? (v : Value) : Ending → Option Value
  | closed | counted => some v
  | cut _ => none

mutual

/-- The value that a document is, unless it breaks off or some number or string in it has none. -/
def Document.value? : Document → Option Value
  | .broken _ => none
  | .null => some .null
  | .bool b => some (.bool b)
  | .number n => n.map .number
  | .string s => s.map .string
  | .array items ending => (itemValues? items).bind fun vs => ending.whole? (.array vs)
  | .object entries ending => (entryValues? [] entries).bind fun vs => ending.whole? (.object vs)

/-- The values of items. -/
def itemValues? : List Document → Option (List Value)
  | [] => some []
  | d :: rest => d.value?.bind fun v => (itemValues? rest).map (v :: ·)

/-- The values of entries, set one after the other. -/
def entryValues? (before : List (String × Value)) : List Entry → Option (List (String × Value))
  | [] => some before
  | (key, d) :: rest =>
    key.bind fun k => d.value?.bind fun v => entryValues? (setEntry k v before) rest

end

/-- The value that a text is, if it is one. -/
def Value.ofText? (text : String) : Option Value :=
  match Document.ofTokens (tokens text.toList) with
  | (d, []) => d.value?
  | (_, _ :: _) => none

/-- The value of a key of an object, if there is one. -/
def Value.entry? (key : String) : Value → Option Value
  | .object entries => entries.lookup key
  | _ => none

end WireRecord.Json
