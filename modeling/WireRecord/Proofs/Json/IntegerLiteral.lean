/-
Integer literals.

An integer literal is a number literal with neither a fraction nor an exponent: perhaps a minus sign, and
digits that begin with a zero only if that is all of them. It may be of any length, and spells an integer
(`IntegerLiteral.value`), whatever can be read of it. The main result, `value?_eq_natural_iff`, is that it
is read as a count exactly if it is the text of this count: not one that is too great or below zero, and
not minus zero, which is the only literal that spells a count and is not its text (`isCount_iff`).

The step that needs an argument is that digits are not lost. Without a zero in front, they are those of
the number that they spell (`repr_ofDigits`). The induction is from the last digit, because that is where
reading goes on and where writing begins.
-/
import WireRecord.Proofs.Json.NumberLiteral
import Mathlib.Algebra.Ring.Int.Defs
import Mathlib.Data.List.Induction

set_option autoImplicit false

namespace WireRecord.Json

/-! ## Digits -/

theorem ofDigits_concat (digits : List Char) (c : Char) :
    ofDigits (digits ++ [c]) = 10 * ofDigits digits + (c.toNat - '0'.toNat) := by
  rw [ofDigits, Nat.ofDigitChars_append, Nat.ofDigitChars_cons, Nat.ofDigitChars_nil, ofDigits]

/-- A digit is the text of its value. -/
theorem toDigits_of_isDigit {c : Char} (h : c.isDigit = true) :
    c.toNat - '0'.toNat < 10 ∧ Nat.toDigits 10 (c.toNat - '0'.toNat) = [c] := by
  have hrange : 48 ≤ c.toNat ∧ c.toNat ≤ 57 := Char.isDigit_iff_toNat.mp h
  have hvalue : c.toNat - '0'.toNat = c.toNat - 48 := rfl
  have hsmall : c.toNat - 48 < 10 := by omega
  have hsame : (c.toNat - 48).digitChar = c := by
    have hnat : (c.toNat - 48).digitChar.toNat = c.toNat := by
      rw [Nat.toNat_digitChar_of_lt_ten hsmall]
      omega
    rw [← Char.ofNat_toNat (c.toNat - 48).digitChar, hnat, Char.ofNat_toNat]
  rw [hvalue]
  exact ⟨hsmall, by rw [Nat.toDigits_of_lt_base hsmall, hsame]⟩

theorem IsWhole.of_concat {digits : List Char} {c : Char} (h : IsWhole (digits ++ [c]))
    (hne : digits ≠ []) : IsWhole digits where
  ne_nil := hne
  isDigit d hd := h.isDigit d (List.mem_append_left _ hd)
  zero_alone d rest heq := by
    subst heq
    exact h.zero_alone d (rest ++ [c]) rfl

/-- **Digits are those of the number that they spell**, if no zero is in front. -/
theorem repr_ofDigits {digits : List Char} (h : IsWhole digits) :
    (Nat.repr (ofDigits digits)).toList = digits := by
  rw [Nat.toList_repr]
  induction digits using List.reverseRecOn with
  | nil => exact absurd rfl h.ne_nil
  | append_singleton digits c ih =>
    obtain ⟨hsmall, hdigit⟩ := toDigits_of_isDigit (h.isDigit c (List.mem_append_right _ List.mem_cons_self))
    rw [ofDigits_concat]
    by_cases hfirst : digits = []
    · subst hfirst
      have hzero : ofDigits [] = 0 := rfl
      rw [hzero, Nat.mul_zero, Nat.zero_add, List.nil_append, hdigit]
    · have hbefore : Nat.toDigits 10 (ofDigits digits) = digits := ih (h.of_concat hfirst)
      have hpos : 0 < ofDigits digits := by
        -- a zero in front would be alone
        refine Nat.pos_of_ne_zero fun hzero => ?_
        rw [hzero, Nat.toDigits_zero] at hbefore
        subst hbefore
        exact h.zero_alone c [] rfl
      rw [← Nat.toDigits_append_toDigits (by decide) hpos hsmall, hbefore, hdigit]

/-! ## Literals -/

/-- A number literal with neither a fraction nor an exponent. -/
structure IntegerLiteral where
  negative : Bool
  digits : List Char
  isWhole : IsWhole digits

namespace IntegerLiteral

def text (l : IntegerLiteral) : List Char := if l.negative then '-' :: l.digits else l.digits

/-- The integer that the literal spells. -/
def value (l : IntegerLiteral) : Int := if l.negative then -ofDigits l.digits else ofDigits l.digits

def number (l : IntegerLiteral) : NumberLiteral := ⟨l.negative, l.digits, none, none⟩

/-- The literal is not minus zero and spells an integer that fits in 64 bits without a sign. -/
def IsCount (l : IntegerLiteral) : Prop := l.text ≠ ['-', '0'] ∧ 0 ≤ l.value ∧ l.value ≤ 2 ^ 64 - 1

theorem literalText (l : IntegerLiteral) : LiteralText l.number l.text := by
  have hparts : MagnitudeText l.number (l.digits ++ ([] ++ [])) := .parts l.isWhole .none .none
  rw [List.append_nil, List.append_nil] at hparts
  rw [text]
  cases hsign : l.negative with
  | false => exact .plain hsign hparts
  | true => exact .minus hsign hparts

theorem minus_not_mem_text (e : Extent) : '-' ∉ e.text.toList := Text.not_mem_repr (by decide) e.val

theorem text_eq_iff {l : IntegerLiteral} {e : Extent} :
    l.text = e.text.toList ↔ l.negative = false ∧ ofDigits l.digits = e.val := by
  rw [text]
  cases l.negative with
  | false =>
    have hdigits : l.digits = e.text.toList ↔ ofDigits l.digits = e.val := by
      constructor
      · intro h
        rw [h]
        exact Text.ofDigitChars_repr e.val
      · intro h
        rw [Extent.text, ← h, repr_ofDigits l.isWhole]
    simpa using hdigits
  | true =>
    have hminus : '-' :: l.digits ≠ e.text.toList := by
      intro h
      exact minus_not_mem_text e (h ▸ List.mem_cons_self)
    simpa using hminus

theorem value_eq_of_text_eq {l : IntegerLiteral} {e : Extent} (h : l.text = e.text.toList) :
    l.value = e.val := by
  obtain ⟨hsign, hdigits⟩ := text_eq_iff.mp h
  rw [value, hsign, hdigits]
  rfl

/-- **An integer literal is read as a count exactly if it is the text of the count.** -/
theorem value?_eq_natural_iff {l : IntegerLiteral} {e : Extent} :
    l.number.value? = some (.natural e) ↔ l.text = e.text.toList := by
  have hreal : l.number.real? ≠ some (.natural e) := by
    intro h
    obtain ⟨_, -, hkind⟩ := Option.map_eq_some_iff.mp h
    cases hkind
  have hwhole : l.number.value? = some (.natural e) ↔ l.number.whole? = some (.natural e) := by
    rw [NumberLiteral.value?, if_pos ⟨rfl, rfl⟩]
    cases l.number.whole? with
    | none => simpa using hreal
    | some n => exact Iff.rfl
  rw [hwhole, text_eq_iff]
  have hnumber : l.number.negative = l.negative := rfl
  unfold NumberLiteral.whole?
  rw [hnumber]
  cases l.negative with
  | false =>
    have hfits : (Extent.ofNat? (ofDigits l.digits)).map Number.natural = some (.natural e) ↔
        ofDigits l.digits = e.val := by
      rw [Option.map_eq_some_iff]
      simp only [Number.natural.injEq, exists_eq_right, Extent.ofNat?_eq_some_iff]
      exact eq_comm
    have hdigits : l.number.whole = l.digits := rfl
    simpa [hdigits] using hfits
  | true =>
    -- a magnitude below zero, or no whole number at all
    simp only [if_true, Bool.true_eq_false, false_and, iff_false]
    split <;> simp

/-- Apart from minus zero, the literals that spell a count are the texts of counts. -/
theorem isCount_iff {l : IntegerLiteral} : l.IsCount ↔ ∃ e : Extent, l.text = e.text.toList := by
  have hgreatest : Extent.greatest = 2 ^ 64 - 1 := rfl
  constructor
  · rintro ⟨htext, hlow, hhigh⟩
    rw [value] at hlow hhigh
    cases hsign : l.negative with
    | false =>
      rw [hsign] at hhigh
      simp only [Bool.false_eq_true, if_false] at hhigh
      exact ⟨⟨ofDigits l.digits, by omega⟩, text_eq_iff.mpr ⟨hsign, rfl⟩⟩
    | true =>
      rw [hsign] at hlow
      simp only [if_true] at hlow
      -- with a minus sign, only zero is not below zero
      have hzero : ofDigits l.digits = 0 := by omega
      have hdigits : l.digits = ['0'] := by
        rw [← repr_ofDigits l.isWhole, hzero]
        rfl
      rw [text, hsign, hdigits] at htext
      exact absurd rfl htext
  · rintro ⟨e, htext⟩
    have hvalue : l.value = e.val := value_eq_of_text_eq htext
    have hle := e.val_le
    refine ⟨?_, by omega, by omega⟩
    rw [htext]
    intro hminus
    exact minus_not_mem_text e (hminus ▸ List.mem_cons_self)

end IntegerLiteral

end WireRecord.Json
