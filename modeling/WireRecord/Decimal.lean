/-
Decimal numbers and their text.

A decimal is a whole number of digits times a power of ten. It is written positionally, with at
least one digit on each side of the point, when its first digit stands at the sixteenth place before
the point or to the right of it, down to the fifth place after the point. Outside that range it is
written with one digit before the point and an exponent, and then a decimal of one digit has no
point.
-/

set_option autoImplicit false

namespace WireRecord

/-- The number `digits * 10 ^ exponent`. -/
structure Decimal where
  digits : Nat
  exponent : Int
deriving DecidableEq

namespace Decimal

/-- The power of ten at which the first digit stands. -/
def leadingExponent (d : Decimal) : Int := d.exponent + (Nat.repr d.digits).length - 1

/-- The powers of ten at which the first digit of a decimal without an exponent may stand. -/
def isPositional (d : Decimal) : Bool :=
  decide (-5 ≤ d.leadingExponent) && decide (d.leadingExponent ≤ 15)

def zeros (n : Nat) : List Char := List.replicate n '0'

/-- The decimal without an exponent. -/
def positional (d : Decimal) : List Char :=
  let digits := (Nat.repr d.digits).toList
  if 0 ≤ d.exponent then digits ++ zeros d.exponent.toNat ++ ['.', '0']
  else
    let places := (-d.exponent).toNat
    let padded := zeros (places + 1 - digits.length) ++ digits
    padded.take (padded.length - places) ++ '.' :: padded.drop (padded.length - places)

/-- The decimal with an exponent. -/
def scientific (d : Decimal) : List Char :=
  let exponent := d.leadingExponent
  let mantissa :=
    match (Nat.repr d.digits).toList with
    | first :: second :: rest => first :: '.' :: second :: rest
    | short => short
  let sign := if 0 ≤ exponent then '+' else '-'
  mantissa ++ 'e' :: sign :: (Nat.repr exponent.natAbs).toList

def text (d : Decimal) : String :=
  String.ofList (if d.isPositional then d.positional else d.scientific)

end Decimal

end WireRecord
