/-
Counts of bytes, and positions in a buffer.

Every size, offset and position of a record is a natural number that fits in 64 bits. Adding two of
them never wraps: a sum that does not fit stays at the greatest count. That makes addition the
clamped addition of natural numbers, and clamping once at the end of a long sum gives the same
count as clamping after every step (`Extent.clamp_add_val`), so a statement about a chain of
additions can be read over unbounded natural numbers.
-/

set_option autoImplicit false

namespace WireRecord

/-- The greatest count of bytes, `2 ^ 64 - 1`. -/
def Extent.greatest : Nat := 18446744073709551615

/-- A count of bytes, or a position in a buffer: a natural number that fits in 64 bits. -/
@[ext] structure Extent where
  /-- The number itself. -/
  val : Nat
  /-- It fits in 64 bits. -/
  val_le : val ≤ Extent.greatest
deriving DecidableEq

namespace Extent

/-- The count for a number that fits, nothing for one that does not. -/
def ofNat? (n : Nat) : Option Extent :=
  if h : n ≤ greatest then some ⟨n, h⟩ else none

/-- The nearest count to a number: the number itself, or the greatest count. -/
def clamp (n : Nat) : Extent := ⟨min greatest n, Nat.min_le_left _ _⟩

instance : Zero Extent := ⟨⟨0, Nat.zero_le _⟩⟩

instance : Inhabited Extent := ⟨0⟩

/-- Addition stops at the greatest count. -/
instance : Add Extent := ⟨fun a b => clamp (a.val + b.val)⟩

/-- The decimal digits of a count. -/
def text (e : Extent) : String := Nat.repr e.val

/-! ## The number behind each operation -/

@[simp] theorem val_clamp (n : Nat) : (clamp n).val = min greatest n := rfl

@[simp] theorem val_zero : (0 : Extent).val = 0 := rfl

@[simp] theorem val_add (a b : Extent) : (a + b).val = min greatest (a.val + b.val) := rfl

@[simp] theorem clamp_val (e : Extent) : clamp e.val = e :=
  Extent.ext (Nat.min_eq_right e.val_le)

theorem ofNat?_eq_some_iff {n : Nat} {e : Extent} : ofNat? n = some e ↔ e.val = n := by
  unfold ofNat?
  split
  · simp [Extent.ext_iff, eq_comm]
  · rename_i h
    have := e.val_le
    simp only [reduceCtorEq, false_iff]
    omega

/-- **Clamping early loses nothing.** A sum clamped in the middle and again at the end is the sum
clamped at the end. -/
theorem clamp_add_val (n : Nat) (e : Extent) : clamp n + e = clamp (n + e.val) := by
  ext
  simp only [val_add, val_clamp]
  omega

theorem add_assoc (a b c : Extent) : a + b + c = a + (b + c) := by
  ext
  simp only [val_add]
  omega

theorem add_comm (a b : Extent) : a + b = b + a := by
  ext
  simp only [val_add, Nat.add_comm]

@[simp] theorem zero_add (e : Extent) : 0 + e = e := by
  ext
  have := e.val_le
  simp only [val_add, val_zero]
  omega

@[simp] theorem add_zero (e : Extent) : e + 0 = e := by
  rw [add_comm, zero_add]

end Extent

end WireRecord
