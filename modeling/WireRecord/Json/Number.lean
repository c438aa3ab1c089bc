/-
Numbers in JSON texts.

A number literal is a sign, whole digits, and perhaps fraction digits and an exponent. Without the
last two it is a whole number if it fits in 64 bits, with or without a sign; every other literal,
minus zero included, is a floating point number. Its value is found from a significand of 64 bits:
the digits are taken from the left as long as they fit, each whole digit that is left over counts as
a place, and fraction digits that are left over are dropped. A literal whose value is too great for
a floating point number has none.
-/
import WireRecord.Extent
import WireRecord.Binary64.Shortest

set_option autoImplicit false

namespace WireRecord.Json

inductive Number where
  /-- A whole number of 64 bits. -/
  | natural (n : Extent)
  /-- A whole number below zero, by its magnitude of at most `2 ^ 63`. -/
  | negative (magnitude : Nat)
  | real (negative : Bool) (magnitude : Binary64)
deriving DecidableEq

structure ExponentLiteral where
  negative : Bool
  digits : List Char
deriving DecidableEq

structure NumberLiteral where
  negative : Bool
  /-- The digits before the point. -/
  whole : List Char
  /-- The digits after the point, if there is one. -/
  fraction : Option (List Char)
  exponent : Option ExponentLiteral
deriving DecidableEq

/-- The number that decimal digits spell. -/
def ofDigits (digits : List Char) : Nat := Nat.ofDigitChars 10 digits 0

/-- Takes digits from the left as long as the number fits in 64 bits: the number, and the digits
left over. -/
def takeFitting (taken : Nat) : List Char → Nat × List Char
  | [] => (taken, [])
  | digit :: rest =>
    let next := 10 * taken + (digit.toNat - '0'.toNat)
    if next ≤ Extent.greatest then takeFitting next rest else (taken, digit :: rest)

namespace ExponentLiteral

def value (e : ExponentLiteral) : Int := if e.negative then -ofDigits e.digits else ofDigits e.digits

end ExponentLiteral

namespace NumberLiteral

/-- The floating point number of a literal, unless its value is too great. -/
def real? (l : NumberLiteral) : Option Number :=
  let fraction := l.fraction.getD []
  let (whole, surplus) := takeFitting 0 l.whole
  let (significand, dropped) := takeFitting whole fraction
  let places : Int := surplus.length - (fraction.length - dropped.length : Nat)
  let exponent := places + (l.exponent.map (·.value)).getD 0
  (Binary64.ofDecimal? significand exponent).map (.real l.negative)

/-- The whole number of a literal without fraction and exponent, if it is one of 64 bits. -/
def whole? (l : NumberLiteral) : Option Number :=
  let n := ofDigits l.whole
  if l.negative then
    if 1 ≤ n ∧ n ≤ Nat.pow 2 63 then some (.negative n) else none
  else (Extent.ofNat? n).map .natural

/-- The value of a literal, if it has one. -/
def value? (l : NumberLiteral) : Option Number :=
  if l.fraction = none ∧ l.exponent = none then l.whole? <|> l.real? else l.real?

end NumberLiteral

def Number.text : Number → String
  | .natural n => n.text
  | .negative magnitude => "-" ++ Nat.repr magnitude
  | .real isNegative magnitude => (if isNegative then "-" else "") ++ magnitude.shortest.text

end WireRecord.Json
