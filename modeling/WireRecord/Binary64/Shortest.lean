/-
The shortest decimal for a binary number.

The real numbers that round to a binary number form an interval around it, which reaches half way to
each neighbour and holds its ends exactly if the mantissa is even. The shortest decimal is the one
on the coarsest grid of powers of ten that has a point in the interval; of two such points it is the
nearer, and of two equally near the even one. If any point of a grid lies in the interval then so
does one of the number's two neighbours on that grid, so only these two are looked at.
-/
import WireRecord.Binary64
import WireRecord.Decimal

set_option autoImplicit false

namespace WireRecord.Binary64

/-- The reals that round to a number, in quarters of a unit of its last place. -/
structure Interval where
  /-- The lower end. -/
  low : Nat
  /-- The number itself. -/
  centre : Nat
  /-- The upper end. -/
  high : Nat
  /-- Whether the ends belong to the interval. -/
  closed : Bool

/-- The interval of a number. Below a power of two the neighbour is half as far away, except at the
least exponent. -/
def interval (x : Binary64) : Interval where
  low := if x.mantissa = Nat.pow 2 52 ∧ leastExponent < x.exponent then 4 * x.mantissa - 1
    else 4 * x.mantissa - 2
  centre := 4 * x.mantissa
  high := 4 * x.mantissa + 2
  closed := x.mantissa % 2 == 0

/-- The digits of the nearest point of the grid of `10 ^ k` that lies in the interval of a number,
if any does. Both sides of each comparison are multiplied by the same natural numbers until they are
whole. -/
def onGrid? (x : Binary64) (k : Int) : Option Nat :=
  let i := x.interval
  let unit := x.exponent - 2
  let binary (n : Nat) : Nat := n * Nat.pow 2 unit.toNat * Nat.pow 10 (-k).toNat
  let decimal (n : Nat) : Nat := n * Nat.pow 10 k.toNat * Nat.pow 2 (-unit).toNat
  let inside (n : Nat) : Bool :=
    if i.closed then binary i.low ≤ decimal n && decimal n ≤ binary i.high
    else binary i.low < decimal n && decimal n < binary i.high
  let below := binary i.centre / decimal 1
  let above := below + 1
  match inside below, inside above with
  | true, true =>
    match compare (binary i.centre - decimal below) (decimal above - binary i.centre) with
    | .lt => some below
    | .eq => some (below + below % 2)
    | .gt => some above
  | true, false => some below
  | false, true => some above
  | false, false => none

/-- The coarsest grid on which a number can have a point. -/
def coarsestGrid : Int := 309

/-- The first point found on so many grids, each ten times as fine as the one before. -/
def firstOnGrid (x : Binary64) (k : Int) : Nat → Decimal
  | 0 => ⟨0, 0⟩
  | grids + 1 =>
    match x.onGrid? k with
    | some digits => ⟨digits, k⟩
    | none => x.firstOnGrid (k - 1) grids

/-- The shortest decimal for a number. The units of the finest grid, `10 ^ -324`, are smaller than
any interval. -/
def shortest (x : Binary64) : Decimal :=
  if x.isZero then ⟨0, 0⟩ else x.firstOnGrid coarsestGrid 634

end WireRecord.Binary64
