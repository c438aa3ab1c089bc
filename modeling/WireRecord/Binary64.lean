/-
Binary floating point numbers of 64 bits, without a sign.

A number is a mantissa of at most 53 bits times a power of two that is at least `2 ^ -1074`.
Everything is computed in exact natural arithmetic: a result is found as a quotient of two natural
numbers and then rounded once to the nearest number, a tie to the one with the even mantissa
(`Binary64.ofQuotient?`). A quotient that rounds to `2 ^ 1024` or more has no number. Powers are
written `Nat.pow`, which is the same function whatever algebra is in scope.
-/

set_option autoImplicit false

namespace WireRecord

/-- A finite number that is not negative, `mantissa * 2 ^ exponent`. The mantissa has 53 bits, or
fewer if the exponent is the least one. -/
structure Binary64 where
  mantissa : Nat
  exponent : Int
deriving DecidableEq

/-- The nearest whole number to a quotient, a half to the even neighbour. -/
def roundQuotient (num den : Nat) : Nat :=
  let whole := num / den
  match compare (2 * (num % den)) den with
  | .lt => whole
  | .eq => whole + whole % 2
  | .gt => whole + 1

namespace Binary64

/-- The least exponent, that of the numbers nearest to zero. -/
def leastExponent : Int := -1074

/-- The greatest exponent. -/
def greatestExponent : Int := 971

/-- Zero. -/
def zero : Binary64 := ⟨0, leastExponent⟩

/-- Whether the number is zero. -/
def isZero (x : Binary64) : Bool := x.mantissa == 0

/-- The exponent with which a positive quotient has a mantissa of 53 bits, or the least exponent. -/
def exponentOf (num den : Nat) : Int :=
  let guess : Int := num.log2 - den.log2 - 53
  let tooLow := Nat.pow 2 53 * (den * Nat.pow 2 guess.toNat) ≤ num * Nat.pow 2 (-guess).toNat
  max leastExponent (if tooLow then guess + 1 else guess)

/-- The nearest number to a quotient, unless it is too great. -/
def ofQuotient? (num den : Nat) : Option Binary64 :=
  if num = 0 then some zero
  else
    let exponent := exponentOf num den
    let mantissa := roundQuotient (num * Nat.pow 2 (-exponent).toNat) (den * Nat.pow 2 exponent.toNat)
    let rounded : Binary64 :=
      if mantissa = Nat.pow 2 53 then ⟨Nat.pow 2 52, exponent + 1⟩ else ⟨mantissa, exponent⟩
    if rounded.exponent ≤ greatestExponent then some rounded else none

/-- The nearest number to a product, unless it is too great. -/
def times? (x y : Binary64) : Option Binary64 :=
  let exponent := x.exponent + y.exponent
  ofQuotient? (x.mantissa * y.mantissa * Nat.pow 2 exponent.toNat) (Nat.pow 2 (-exponent).toNat)

/-- The nearest number to a quotient of two numbers, unless it is too great. -/
def over? (x y : Binary64) : Option Binary64 :=
  let exponent := x.exponent - y.exponent
  ofQuotient? (x.mantissa * Nat.pow 2 exponent.toNat) (y.mantissa * Nat.pow 2 (-exponent).toNat)

/-- The greatest exponent of a power of ten in one step. -/
def greatestTen : Nat := 308

/-- The nearest number to a power of ten. -/
def powerOfTen? (k : Nat) : Option Binary64 := ofQuotient? (Nat.pow 10 k) 1

/-- Divides by a power of ten, by at most the greatest one in each step, and rounds after each step.
Zero is not divided any further. -/
def divideByTens? (x : Binary64) (k : Nat) : Option Binary64 :=
  if k ≤ greatestTen then powerOfTen? k >>= x.over?
  else if x.isZero then some x
  else (powerOfTen? greatestTen >>= x.over?) >>= (divideByTens? · (k - greatestTen))
termination_by k
decreasing_by simp only [greatestTen] at *; omega

/-- Multiplies by a power of ten and rounds; a power above the greatest one leaves only zero. -/
def multiplyByTens? (x : Binary64) (k : Nat) : Option Binary64 :=
  if k ≤ greatestTen then powerOfTen? k >>= x.times?
  else if x.isZero then some x
  else none

/-- The number for a whole number times a power of ten: the whole number is rounded first, and the
product is rounded again. -/
def ofDecimal? (digits : Nat) (exponent : Int) : Option Binary64 := do
  let x ← ofQuotient? digits 1
  if 0 ≤ exponent then x.multiplyByTens? exponent.toNat else x.divideByTens? (-exponent).toNat

end Binary64

end WireRecord
