/-
Decimal digits of a natural number.

Counts, sizes and widths are all written by `Nat.repr`, into source text and into JSON text alike. What
a reader relies on is here: the digits of a number determine it (`repr_inj`), they are digits and
nothing else, and only zero is written with a zero in front (`not_zero_cons_repr`).
-/
import WireRecord.Extent
import WireRecord.TypeTag

set_option autoImplicit false

namespace WireRecord

namespace Text

theorem repr_ne_nil (n : Nat) : (Nat.repr n).toList ≠ [] := by
  rw [Nat.toList_repr]
  exact Nat.toDigits_ne_nil

theorem isDigit_of_mem_repr {n : Nat} {c : Char} (h : c ∈ (Nat.repr n).toList) : c.isDigit = true := by
  rw [Nat.toList_repr] at h
  exact Nat.isDigit_of_mem_toDigits (by decide) (by decide) h

/-- A character that is no digit does not stand among digits. -/
theorem not_mem_repr {c : Char} (h : c.isDigit = false) (n : Nat) : c ∉ (Nat.repr n).toList := by
  intro hmem
  rw [isDigit_of_mem_repr hmem] at h
  cases h

/-- Reading the digits of a number gives the number. -/
theorem ofDigitChars_repr (n : Nat) : Nat.ofDigitChars 10 (Nat.repr n).toList 0 = n := by
  rw [Nat.toList_repr]
  exact Nat.ofDigitChars_ten_toDigits

theorem repr_inj {n m : Nat} (h : Nat.repr n = Nat.repr m) : n = m := by
  rw [← ofDigitChars_repr n, h, ofDigitChars_repr]

/-- The first digit of a number above zero is not a zero. -/
theorem toDigits_ne_zero_cons {n : Nat} (h : n ≠ 0) (rest : List Char) :
    Nat.toDigits 10 n ≠ '0' :: rest := by
  induction n using Nat.strongRecOn generalizing rest with
  | ind n ih =>
    by_cases hsmall : n < 10
    · rw [Nat.toDigits_of_lt_base hsmall]
      have hdigits : ∀ d < 10, d ≠ 0 → Nat.digitChar d ≠ '0' := by decide
      intro heq
      exact hdigits n hsmall h (List.cons.inj heq).1
    · -- the first digit is that of the number without its last one
      rw [Nat.toDigits_of_base_le (by decide) (by omega)]
      intro heq
      rcases List.append_eq_cons_iff.mp heq with ⟨hnil, -⟩ | ⟨before, hbefore, -⟩
      · exact Nat.toDigits_ne_nil hnil
      · exact ih (n / 10) (by omega) (by omega) before hbefore

/-- Only zero begins with a zero, and it has no other digit. -/
theorem not_zero_cons_repr (n : Nat) (c : Char) (rest : List Char) :
    (Nat.repr n).toList ≠ '0' :: c :: rest := by
  rw [Nat.toList_repr]
  by_cases h : n = 0
  · rw [h, Nat.toDigits_zero]
    simp
  · exact toDigits_ne_zero_cons h (c :: rest)

/-- The first digits of a number are the digits of a number. -/
theorem exists_repr_of_isPrefix {n : Nat} {p : List Char} (h : p <+: (Nat.repr n).toList)
    (hne : p ≠ []) : ∃ m ≤ n, p = (Nat.repr m).toList := by
  induction n using Nat.strongRecOn with
  | ind n ih =>
    by_cases hwhole : p = (Nat.repr n).toList
    · exact ⟨n, Nat.le_refl n, hwhole⟩
    · by_cases hsmall : n < 10
      · rw [Nat.toList_repr, Nat.toDigits_of_lt_base hsmall] at h hwhole
        have hlength := h.length_le
        have hpos := List.length_pos_iff.mpr hne
        simp only [List.length_singleton] at hlength
        exact absurd (h.eq_of_length (by simp only [List.length_singleton]; omega)) hwhole
      · -- without its last digit, the number is the tenth part
        rw [Nat.toList_repr, Nat.toDigits_of_base_le (by decide) (by omega)] at h hwhole
        have hshorter : p <+: (Nat.repr (n / 10)).toList := by
          rw [Nat.toList_repr]
          exact (List.prefix_concat_iff.mp h).resolve_left hwhole
        obtain ⟨m, hm, rfl⟩ := ih (n / 10) (by omega) hshorter
        exact ⟨m, by omega, rfl⟩

end Text

theorem Extent.text_inj {a b : Extent} (h : a.text = b.text) : a = b :=
  Extent.ext (Text.repr_inj h)

/-- The digits of a count that is cut off are those of another count. -/
theorem Extent.exists_text_of_isPrefix {e : Extent} {p : List Char} (h : p <+: e.text.toList)
    (hne : p ≠ []) : ∃ d : Extent, p = d.text.toList := by
  obtain ⟨m, hm, rfl⟩ := Text.exists_repr_of_isPrefix h hne
  exact ⟨⟨m, Nat.le_trans hm e.val_le⟩, rfl⟩

theorem IntWidth.text_inj {w w' : IntWidth} (h : w.text = w'.text) : w = w' := by
  have hbits : w.bits = w'.bits := Text.repr_inj h
  have hwidth : some w = some w' := by
    rw [← IntWidth.ofBits?_bits, hbits, IntWidth.ofBits?_bits]
  exact Option.some.inj hwidth

end WireRecord
