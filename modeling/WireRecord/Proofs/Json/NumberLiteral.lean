/-
Numbers in JSON texts.

A number literal is written as its whole digits, with a minus sign in front and a fraction and an
exponent behind if it has them; the exponent has a mark in lower or upper case and perhaps a sign of its
own (`LiteralText`). The main result, `numberToken_text`, is that a literal written in any of these ways
is read as that literal, as long as what follows does not go on with a number: a number has no mark at
its end. Each part is taken off with the parts behind it in place, so each lemma says what may follow
its part.

A count of bytes is written as its decimal digits alone. These digits, cut off anywhere behind the first,
are those of another count (`Extent.exists_text_of_isPrefix`): of all that is read, only a number may look
complete when it is not.
-/
import WireRecord.Json.Lexer
import WireRecord.Proofs.Text.Digits

set_option autoImplicit false

namespace WireRecord.Json

/-! ## The ways to write a number -/

/-- One decimal digit or more. -/
structure IsDigits (digits : List Char) : Prop where
  ne_nil : digits ≠ []
  isDigit : ∀ c ∈ digits, c.isDigit = true

/-- Digits before a point. No other digit follows a zero that comes first. -/
structure IsWhole (digits : List Char) : Prop extends IsDigits digits where
  zero_alone : ∀ c rest, digits ≠ '0' :: c :: rest

inductive FractionText : Option (List Char) → List Char → Prop
  | none : FractionText none []
  | some {digits : List Char} (hdigits : IsDigits digits) : FractionText (some digits) ('.' :: digits)

/-- The ways to write the sign of an exponent. -/
inductive SignText : Bool → List Char → Prop
  | none : SignText false []
  | plus : SignText false ['+']
  | minus : SignText true ['-']

inductive ExponentText : Option ExponentLiteral → List Char → Prop
  | none : ExponentText none []
  | some {e : ExponentLiteral} {mark : Char} {sign : List Char} (hmark : mark = 'e' ∨ mark = 'E')
    (hsign : SignText e.negative sign) (hdigits : IsDigits e.digits) :
    ExponentText (some e) (mark :: (sign ++ e.digits))

/-- The ways to write a number literal, without its minus sign. -/
inductive MagnitudeText (l : NumberLiteral) : List Char → Prop
  | parts {fraction exponent : List Char} (hwhole : IsWhole l.whole)
    (hfraction : FractionText l.fraction fraction) (hexponent : ExponentText l.exponent exponent) :
    MagnitudeText l (l.whole ++ (fraction ++ exponent))

/-- The ways to write a number literal. -/
inductive LiteralText (l : NumberLiteral) : List Char → Prop
  | plain {text : List Char} (hsign : l.negative = false) (h : MagnitudeText l text) :
    LiteralText l text
  | minus {text : List Char} (hsign : l.negative = true) (h : MagnitudeText l text) :
    LiteralText l ('-' :: text)

/-- The ways to write a number: a count of bytes in its digits, any other number as any literal that has
its value. -/
def Number.IsText : Number → List Char → Prop
  | .natural e, text => text = e.text.toList
  | n, text => ∃ l : NumberLiteral, LiteralText l text ∧ l.value? = some n

/-! ## What may follow -/

/-- A text does not go on with digits. -/
def EndsDigits (rest : List Char) : Prop := ∀ c, rest.head? = some c → c.isDigit = false

/-- A text goes on with neither digits nor a fraction. -/
def EndsFraction (rest : List Char) : Prop := ∀ c, rest.head? = some c → c.isDigit = false ∧ c ≠ '.'

/-- A text does not go on with a number. -/
def EndsNumber (rest : List Char) : Prop :=
  ∀ c, rest.head? = some c → c.isDigit = false ∧ c ≠ '.' ∧ c ≠ 'e' ∧ c ≠ 'E'

theorem endsNumber_nil : EndsNumber [] := by
  intro c h
  cases h

theorem endsNumber_cons {c : Char} {rest : List Char}
    (h : c.isDigit = false ∧ c ≠ '.' ∧ c ≠ 'e' ∧ c ≠ 'E') : EndsNumber (c :: rest) := by
  intro d hd
  rwa [← Option.some.inj hd]

theorem EndsNumber.endsFraction {rest : List Char} (h : EndsNumber rest) : EndsFraction rest :=
  fun c hc => ⟨(h c hc).1, (h c hc).2.1⟩

theorem EndsFraction.endsDigits {rest : List Char} (h : EndsFraction rest) : EndsDigits rest :=
  fun c hc => (h c hc).1

/-- An exponent ends the digits before it, and so does what may follow a number. -/
theorem ExponentText.endsFraction {e : Option ExponentLiteral} {text rest : List Char}
    (h : ExponentText e text) (hrest : EndsNumber rest) : EndsFraction (text ++ rest) := by
  cases h with
  | none => exact hrest.endsFraction
  | some hmark _ _ =>
    intro c hc
    rw [← Option.some.inj hc]
    rcases hmark with rfl | rfl <;> decide

theorem FractionText.endsDigits {f : Option (List Char)} {text rest : List Char}
    (h : FractionText f text) (hrest : EndsFraction rest) : EndsDigits (text ++ rest) := by
  cases h with
  | none => exact hrest.endsDigits
  | some _ =>
    intro c hc
    rw [← Option.some.inj hc]
    decide

/-! ## Taking the parts -/

/-- All digits are taken, and no more. -/
theorem takeDigits_text {digits rest : List Char} (h : IsDigits digits) (hrest : EndsDigits rest) :
    takeDigits (digits ++ rest) = .ok (digits, rest) := by
  have hend : rest.takeWhile Char.isDigit = [] ∧ rest.dropWhile Char.isDigit = rest := by
    cases rest with
    | nil => exact ⟨rfl, rfl⟩
    | cons c rest =>
      have hc : c.isDigit = false := hrest c rfl
      exact ⟨List.takeWhile_cons_of_neg (by simp [hc]), List.dropWhile_cons_of_neg (by simp [hc])⟩
  unfold takeDigits
  rw [List.takeWhile_append_of_pos h.isDigit, List.dropWhile_append_of_pos h.isDigit, hend.1, hend.2,
    List.append_nil]
  split
  · exact absurd rfl h.ne_nil
  · rfl

theorem takeWhole_text {digits rest : List Char} (h : IsWhole digits) (hrest : EndsDigits rest) :
    takeWhole (digits ++ rest) = .ok (digits, rest) := by
  unfold takeWhole
  rw [takeDigits_text h.toIsDigits hrest]
  simp only [bind, Except.bind]
  split
  · next _ c tail => exact absurd rfl (h.zero_alone c tail)
  · rfl

theorem takeFraction_text {f : Option (List Char)} {text rest : List Char} (h : FractionText f text)
    (hrest : EndsFraction rest) : takeFraction (text ++ rest) = .ok (f, rest) := by
  cases h with
  | none =>
    rw [List.nil_append]
    unfold takeFraction
    split
    · next tail => exact absurd rfl (hrest '.' rfl).2
    · rfl
  | some hdigits =>
    rw [List.cons_append, takeFraction, takeDigits_text hdigits hrest.endsDigits]
    rfl

/-- A sign is taken off; digits alone have none. -/
theorem takeSign_text {negative : Bool} {sign digits : List Char} (h : SignText negative sign)
    (hdigits : IsDigits digits) (rest : List Char) :
    takeSign (sign ++ (digits ++ rest)) = (negative, digits ++ rest) := by
  cases h with
  | plus => rfl
  | minus => rfl
  | none =>
    rw [List.nil_append]
    unfold takeSign
    obtain ⟨c, tail, rfl⟩ := List.exists_cons_of_ne_nil hdigits.ne_nil
    have hdigit : c.isDigit = true := hdigits.isDigit c List.mem_cons_self
    split
    · next heq =>
      rw [(List.cons.inj heq).1] at hdigit
      cases hdigit
    · next heq =>
      rw [(List.cons.inj heq).1] at hdigit
      cases hdigit
    · rfl

theorem takeExponent_text {e : Option ExponentLiteral} {text rest : List Char}
    (h : ExponentText e text) (hrest : EndsNumber rest) :
    takeExponent (text ++ rest) = .ok (e, rest) := by
  cases h with
  | none =>
    rw [List.nil_append]
    unfold takeExponent
    split
    · next c tail =>
      obtain ⟨-, -, he, hE⟩ := hrest c rfl
      rw [if_neg (by simp [he, hE])]
    · rfl
  | some hmark hsign hdigits =>
    rw [List.cons_append, takeExponent, if_pos hmark, List.append_assoc, takeSign_text hsign hdigits]
    simp only [takeDigits_text hdigits hrest.endsFraction.endsDigits, bind, Except.bind]
    rfl

/-- **A number literal is read as it was written.** -/
theorem numberToken_text {l : NumberLiteral} {text rest : List Char} (h : MagnitudeText l text)
    (hrest : EndsNumber rest) : numberToken l.negative (text ++ rest) = (.number l.value?, rest) := by
  obtain ⟨hwhole, hfraction, hexponent⟩ := h
  rename_i fraction exponent
  have hafter : EndsFraction (exponent ++ rest) := hexponent.endsFraction hrest
  have hliteral : takeNumber l.negative (l.whole ++ (fraction ++ exponent) ++ rest) = .ok (l, rest) := by
    unfold takeNumber
    rw [List.append_assoc, List.append_assoc, takeWhole_text hwhole (hfraction.endsDigits hafter)]
    simp only [bind, Except.bind, takeFraction_text hfraction hafter, takeExponent_text hexponent hrest]
    rfl
  rw [numberToken, hliteral]

/-! ## Counts -/

theorem isDigits_repr (n : Nat) : IsDigits (Nat.repr n).toList :=
  ⟨Text.repr_ne_nil n, fun _ hc => Text.isDigit_of_mem_repr hc⟩

/-- The literal of a count is its digits. -/
theorem exists_literalText_extent (e : Extent) :
    ∃ l : NumberLiteral, LiteralText l e.text.toList ∧ l.value? = some (.natural e) := by
  have hwhole : IsWhole e.text.toList := ⟨isDigits_repr e.val, Text.not_zero_cons_repr e.val⟩
  refine ⟨⟨false, e.text.toList, none, none⟩, .plain rfl ?_, ?_⟩
  · have hparts : MagnitudeText ⟨false, e.text.toList, none, none⟩ (e.text.toList ++ ([] ++ [])) :=
      .parts hwhole .none .none
    simpa using hparts
  · have hdigits : ofDigits e.text.toList = e.val := Text.ofDigitChars_repr e.val
    have hfits : Extent.ofNat? e.val = some e := Extent.ofNat?_eq_some_iff.mpr rfl
    simp [NumberLiteral.value?, NumberLiteral.whole?, hdigits, hfits]

/-- A number can be written as a literal that has its value. -/
theorem Number.IsText.exists_literalText {n : Number} {text : List Char} (h : n.IsText text) :
    ∃ l : NumberLiteral, LiteralText l text ∧ l.value? = some n := by
  cases n with
  | natural e =>
    have hdigits : text = e.text.toList := h
    rw [hdigits]
    exact exists_literalText_extent e
  | negative magnitude => exact h
  | real negative magnitude => exact h

end WireRecord.Json
