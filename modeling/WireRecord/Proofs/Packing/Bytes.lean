/-
Integers as bytes.

An integer is stored as its lowest bytes, in one of two orders, and read back by weighing each byte
with its place. Both directions are given for each order on their own terms: storing big-endian
reverses the lowest bytes, while reading big-endian goes through the bytes from the front and weighs
what it has read so far. The main result is `number_bytes`: reading gives the stored integer modulo
the greatest power that so many bytes can hold, in either order.
-/
import WireRecord.ByteOrder
import Mathlib.Algebra.Ring.Nat

set_option autoImplicit false

namespace WireRecord

/-- The lowest bytes of a number, so many of them, the lowest one first. -/
def lowBytes : Nat → Nat → List UInt8
  | 0, _ => []
  | count + 1, n => UInt8.ofNat n :: lowBytes count (n / 256)

@[simp] theorem length_lowBytes (count n : Nat) : (lowBytes count n).length = count := by
  induction count generalizing n with
  | zero => rfl
  | succ count ih => rw [lowBytes, List.length_cons, ih]

/-- Weighing the lowest bytes, the lowest one last, gives the number without its higher bytes. -/
theorem foldr_lowBytes (count n : Nat) :
    (lowBytes count n).foldr (fun b rest => b.toNat + 256 * rest) 0 = n % 256 ^ count := by
  induction count generalizing n with
  | zero => rw [Nat.pow_zero, Nat.mod_one]; rfl
  | succ count ih =>
    have hbyte : (UInt8.ofNat n).toNat = n % 256 := UInt8.toNat_ofNat'
    rw [lowBytes, List.foldr_cons, ih, hbyte, Nat.pow_succ', Nat.mod_mul]

namespace ByteOrder

/-- The lowest bytes of a number as they are stored. -/
def bytes (order : ByteOrder) (count n : Nat) : List UInt8 :=
  match order with
  | little => lowBytes count n
  | big => (lowBytes count n).reverse

/-- The number that stored bytes stand for. -/
def number (order : ByteOrder) (stored : List UInt8) : Nat :=
  match order with
  | little => stored.foldr (fun b rest => b.toNat + 256 * rest) 0
  | big => stored.foldl (fun sofar b => 256 * sofar + b.toNat) 0

@[simp] theorem length_bytes (order : ByteOrder) (count n : Nat) :
    (order.bytes count n).length = count := by
  cases order with
  | little => exact length_lowBytes count n
  | big => rw [bytes, List.length_reverse, length_lowBytes]

/-- **Reading gives what was stored**, without the bytes for which there was no place. -/
theorem number_bytes (order : ByteOrder) (count n : Nat) :
    order.number (order.bytes count n) = n % 256 ^ count := by
  cases order with
  | little => exact foldr_lowBytes count n
  | big =>
    -- from the front of the reversed bytes is from the back of the lowest bytes
    have hweigh : (fun (sofar : Nat) (b : UInt8) => 256 * sofar + b.toNat) =
        fun sofar b => b.toNat + 256 * sofar := by
      funext sofar b
      exact Nat.add_comm _ _
    rw [number, bytes, hweigh, List.foldl_reverse]
    exact foldr_lowBytes count n

end ByteOrder

end WireRecord
