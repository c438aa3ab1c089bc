/-
A text shown between quotes in a message.

The text is shown so that each of its characters can be told from the message: quotes, backslashes
and line breaks are escaped, and so is every character that would not be seen, by its code point.
-/
import WireRecord.Text.Invisible

set_option autoImplicit false

namespace WireRecord.Text

/-- A character as it is shown. -/
def showChar (c : Char) : List Char :=
  if c = '\x00' then ['\\', '0']
  else if c = '\t' then ['\\', 't']
  else if c = '\r' then ['\\', 'r']
  else if c = '\n' then ['\\', 'n']
  else if c = '"' then ['\\', '"']
  else if c = '\\' then ['\\', '\\']
  else if isInvisible c then
    ['\\', 'u', '\x7b'] ++ Nat.toDigits 16 c.toNat ++ ['\x7d']
  else [c]

/-- A text as it is shown. -/
def shown (s : String) : String :=
  String.ofList ('"' :: (s.toList.flatMap showChar ++ ['"']))

end WireRecord.Text
